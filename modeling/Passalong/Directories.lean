import Passalong.Lib.Runs
import Passalong.Lib.Tree
import Passalong.Shelf
import Passalong.Texts

/-!
# The shelf on a filesystem (`shelf/fs.rs`)

`FsShelf` keeps one workspace in one directory:

    gen-<n>/items/<id>/content, meta.json, server.json
    staging/<upload id>/content
    staging/<upload id>.sha256
    trash/

This file models each of its methods as the filesystem steps it makes, in the source's
order and with the source's way out of each failure. Paths are relative to the workspace's
directory and made of the texts of ids and numbers, as the source makes them; what a
listing gives is parsed. `server.json` is written and read by `serde_json`, for which
`ServerJson` stands.

`ShelfCall` is a call of the `ItemShelf` trait, answered by `MemoryShelf.answer` and by
`FsShelf.answer`.
-/

namespace Passalong

open Lib

/-! ## Names -/

/-- The directory of a generation. -/
def generationName (g : Nat) : String := String.ofList ("gen-".toList ++ Nat.toDigits 10 g)

/-- The generation of a directory, if it is one's. -/
def parseGeneration (name : String) : Option Nat :=
  match name.toList with
  | 'g' :: 'e' :: 'n' :: '-' :: number => parseU64 number
  | _ => none

/-- The note of an upload's digest. -/
def digestName (upload : UploadId) : String := upload.asStr ++ ".sha256"

/-! ## Bytes of a digest -/

/-- The bytes of a number, the highest first. -/
def numberBytes : Nat → Nat → Bytes
  | 0, _ => []
  | width + 1, n => numberBytes width (n / 256) ++ [UInt8.ofNat (n % 256)]

/-- The number some bytes spell. -/
def ofNumberBytes (bytes : Bytes) : Nat :=
  bytes.foldl (fun (n : Nat) (b : UInt8) => 256 * n + b.toNat) 0

theorem ofNumberBytes_lt (bytes : Bytes) : ofNumberBytes bytes < 256 ^ bytes.length := by
  induction bytes using List.reverseRecOn with
  | nil => decide
  | append_singleton bytes b ih =>
    have hb : b.toNat < 256 := b.toNat_lt
    unfold ofNumberBytes at ih ⊢
    rw [List.foldl_append, List.length_append, List.length_singleton, pow_succ]
    show 256 * bytes.foldl (fun (n : Nat) (b : UInt8) => 256 * n + b.toNat) 0 + b.toNat < _
    omega

/-- A digest as it is written: thirty-two bytes. -/
def Digest.toBytes (digest : Digest) : Bytes := numberBytes 32 digest.number

/-- Thirty-two bytes are a digest; no others are. -/
def Digest.ofBytes (bytes : Bytes) : Option Digest :=
  if h : bytes.length = 32 then
    some ⟨⟨ofNumberBytes bytes, by
      have hlt := ofNumberBytes_lt bytes
      rw [h] at hlt
      exact hlt⟩⟩
  else none

/-! ## Steps on the disk -/

/-- `server.json`: the envelope's fields that are the server's own. -/
structure ServerFile where
  under : Option String
  receivedAt : Nat
  deriving DecidableEq, Repr

/-- `serde_json`, as far as it writes and reads `server.json`. -/
class ServerJson where
  toVec : ServerFile → Bytes
  fromSlice : Bytes → Option ServerFile

abbrev Path : Type := List String

abbrev Disk : Type := Tree String UInt8

/-- A shelf in a directory. -/
structure FsShelf where
  disk : Disk
  /-- The process id, which keeps names in `trash/` apart across processes. -/
  process : Nat
  /-- Keeps them apart within this one. -/
  trashed : Nat

/-- What a method does: steps on the disk, until one fails. -/
abbrev Steps (α : Type) : Type := ExceptT ApiError (StateM FsShelf) α

namespace FsShelf

/-- A look at the disk. -/
def look {α : Type} (f : Disk → α) : Steps α := fun s => (.ok (f s.disk), s)

/-- A step of the filesystem that is not expected to fail. -/
def change (f : Disk → Except DiskError Disk) : Steps Unit := fun s =>
  match f s.disk with
  | .ok disk => (.ok (), { s with disk })
  | .error _ => (.error .serviceUnavailable, s)

/-- The same, for a step that reads. -/
def fetch {α : Type} (f : Disk → Except DiskError α) : Steps α := fun s =>
  match f s.disk with
  | .ok a => (.ok a, s)
  | .error _ => (.error .serviceUnavailable, s)

def makeDir (path : Path) : Steps Unit := change (·.makeDirAll path)

def createFile (path : Path) : Steps Unit := change (·.create path)

/-- Writes a small file whole. -/
def writeFile (path : Path) (bytes : Bytes) : Steps Unit := do
  createFile path
  change (·.append path bytes)

/-- Flushes a directory, which has to be there. -/
def syncDir (path : Path) : Steps Unit := fun s =>
  if s.disk.exist path then (.ok (), s) else (.error .serviceUnavailable, s)

/-- What a read finds, or `none` when there is nothing at the path. -/
def found {α : Type} (f : Disk → Except DiskError α) : Steps (Option α) := fun s =>
  match f s.disk with
  | .ok a => (.ok (some a), s)
  | .error .notFound => (.ok none, s)
  | .error _ => (.error .serviceUnavailable, s)

/-- A removal, harmless when there is nothing at the path. -/
def removed (f : Disk → Except DiskError Disk) : Steps Unit := fun s =>
  match f s.disk with
  | .ok disk => (.ok (), { s with disk })
  | .error .notFound => (.ok (), s)
  | .error _ => (.error .serviceUnavailable, s)

/-- The names in a directory, or none when it does not exist. -/
def listing (path : Path) : Steps (List String) := do
  let names ← found (·.readDir path)
  return names.getD []

def removeTree (path : Path) : Steps Unit := removed (·.removeAll path)

/-! ## Places -/

def staging : Path := ["staging"]

def trash : Path := ["trash"]

def stagedDir (upload : UploadId) : Path := ["staging", upload.asStr]

/-- Beside the staging directory, not in it: the directory becomes the item, and the
digest is not part of an item. -/
def digestFile (upload : UploadId) : Path := ["staging", digestName upload]

def generationDir (g : Nat) : Path := [generationName g]

def items (g : Nat) : Path := [generationName g, "items"]

def itemDir (g : Nat) (id : ItemId) : Path := [generationName g, "items", id.asStr]

/-- The shelf `open` leaves in a new directory. -/
def new (process : Nat) : FsShelf where
  disk := ⟨[([], .dir), (staging, .dir), (trash, .dir)], by decide⟩
  process := process
  trashed := 0

/-! ## The methods -/

def removeDigest (upload : UploadId) : Steps Unit := removed (·.unlink (digestFile upload))

def stageCreate (upload : UploadId) : Steps Unit := do
  makeDir (stagedDir upload)
  let there ← look (·.exist (stagedDir upload ++ ["content"]))
  if !there then createFile (stagedDir upload ++ ["content"])

/-- `pump`'s sink: each piece goes to the end of the file. -/
def sink (path : Path) : List Bytes → Steps Unit
  | [] => pure ()
  | piece :: sunk => do
    change (·.append path piece)
    sink path sunk

section
variable [Crates]

def write (upload : UploadId) (content : Source) (announced : Nat) (hashed : Bool) : Steps Nat := do
  let there ← look (·.isDir (stagedDir upload))
  if !there then throw .notFound
  -- the digest of what was there is the digest of nothing now
  removeDigest upload
  createFile (stagedDir upload ++ ["content"])
  let (written, sunk) := pump announced content 0
  sink (stagedDir upload ++ ["content"]) sunk
  match written with
  | .ok total =>
    if hashed then writeFile (digestFile upload) (Crates.sha256 sunk.flatten).toBytes
    return total
  | .error refusal =>
    change (·.truncate (stagedDir upload ++ ["content"]) 0)
    throw refusal

end

/-- A note that is not thirty-two bytes long is none. -/
def stageDigest (upload : UploadId) : Steps (Option Digest) := do
  let bytes ← found (·.read (digestFile upload))
  return bytes.bind Digest.ofBytes

def stageSize (upload : UploadId) : Steps (Option Nat) := do
  let content ← found (·.read (stagedDir upload ++ ["content"]))
  return content.map List.length

/-- Makes a path disappear in one step, then removes it. `false` when there was nothing at
the path. -/
def discard (path : Path) : Steps Bool := fun s =>
  let bin : Path := ["trash", toString s.process ++ "-" ++ toString s.trashed]
  let s : FsShelf := { s with trashed := s.trashed + 1 }
  match s.disk.rename path bin with
  | .error .notFound => (.ok false, s)
  | .error _ => (.error .serviceUnavailable, s)
  | .ok disk =>
    match removeTree bin { s with disk } with
    | (.ok _, s) => (.ok true, s)
    | (.error e, s) => (.error e, s)

def stageRemove (upload : UploadId) : Steps Unit := do
  let _ ← discard (stagedDir upload)
  removeDigest upload

/-- An id, if the name is one's. -/
def parsedName {α : Type} (parse : String → Except ApiError α) (name : String) : Option α :=
  (parse name).toOption

def staged : Steps (List UploadId) := do
  let names ← listing staging
  return (names.filterMap (parsedName UploadId.parse)).insertionSort (· ≤ ·)

section
variable [ServerJson]

def publish (upload : UploadId) (g : Nat) (id : ItemId) (envelope : Envelope) : Steps Bool := do
  let there ← look (·.isDir (stagedDir upload))
  if !there then throw .notFound
  let server : ServerFile := ⟨envelope.under.map KeyId.asStr, envelope.receivedAt⟩
  writeFile (stagedDir upload ++ ["meta.json"]) envelope.metaJson
  writeFile (stagedDir upload ++ ["server.json"]) (ServerJson.toVec server)
  syncDir (stagedDir upload)
  makeDir (items g)
  let renamed ← look (·.rename (stagedDir upload) (itemDir g id))
  match renamed with
  | .ok disk =>
    change fun _ => .ok disk
    removeDigest upload
    syncDir (items g)
    syncDir staging
    return true
  | .error .directoryNotEmpty => return false
  | .error _ => throw .serviceUnavailable

/-- An item's envelope and size, read from its directory. A directory without `content`
is not an item. -/
def readItem (dir : Path) : Steps (Option StoredItem) := do
  let content ← found (·.read (dir ++ ["content"]))
  match content with
  | none => return none
  | some content =>
    let metaJson ← fetch (·.read (dir ++ ["meta.json"]))
    let server ← fetch (·.read (dir ++ ["server.json"]))
    match ServerJson.fromSlice server with
    | none => throw .serviceUnavailable
    | some server =>
      match server.under.map KeyId.parse with
      | some (.error _) => throw .serviceUnavailable
      | some (.ok key) => return some ⟨content.length, ⟨metaJson, some key, server.receivedAt⟩⟩
      | none => return some ⟨content.length, ⟨metaJson, none, server.receivedAt⟩⟩

def get (g : Nat) (id : ItemId) : Steps (Option StoredItem) := readItem (itemDir g id)

end

/-- `lseek` takes no offset from `2 ^ 63` on; past the end of a file there is nothing to
read. -/
def openContentFrom (g : Nat) (id : ItemId) (offset : Nat) : Steps (Option Bytes) := do
  let content ← found (·.read (itemDir g id ++ ["content"]))
  match content with
  | none => return none
  | some content =>
    if 2 ^ 63 ≤ offset then throw .serviceUnavailable
    return some (content.drop offset)

def ids (g : Nat) : Steps (List ItemId) := do
  let names ← listing (items g)
  let holding ← look fun disk => names.filter fun name => disk.isFile (items g ++ [name, "content"])
  return ((holding.filterMap (parsedName ItemId.parse)).insertionSort (· ≤ ·)).reverse

def remove [ServerJson] (g : Nat) (id : ItemId) : Steps (Option StoredItem) := do
  let item ← readItem (itemDir g id)
  match item with
  | none => return none
  | some item =>
    let there ← discard (itemDir g id)
    if there then
      syncDir (items g)
      return some item
    else return none

def dropGeneration (g : Nat) : Steps Unit := do
  let there ← discard (generationDir g)
  if there then syncDir []

/-- Of the named directories, the generations that hold anything. -/
def holding : List String → Steps (List Nat)
  | [] => return []
  | name :: names =>
    match parseGeneration name with
    | none => holding names
    | some g => do
      let here ← ids g
      let rest ← holding names
      return if here = [] then rest else g :: rest

def generations : Steps (List Nat) := do
  let names ← listing []
  let here ← holding names
  return here.insertionSort (· ≤ ·)

/-- The sizes of some items, added up. -/
def sizes (g : Nat) : List ItemId → Steps Nat
  | [] => return 0
  | id :: ids => do
    let content ← fetch (·.read (itemDir g id ++ ["content"]))
    let rest ← sizes g ids
    return content.length + rest

def bytes (g : Nat) : Steps Nat := do
  let here ← ids g
  sizes g here

end FsShelf

/-! ## Calls -/

/-- A call of the `ItemShelf` trait. -/
inductive ShelfCall where
  | stageCreate (upload : UploadId)
  | stageWrite (upload : UploadId) (content : Source) (announced : Nat)
  | stageWriteHashed (upload : UploadId) (content : Source) (announced : Nat)
  | stageDigest (upload : UploadId)
  | stageSize (upload : UploadId)
  | stageRemove (upload : UploadId)
  | staged
  | publish (upload : UploadId) (generation : Nat) (id : ItemId) (envelope : Envelope)
  | get (generation : Nat) (id : ItemId)
  | openContent (generation : Nat) (id : ItemId)
  | openContentFrom (generation : Nat) (id : ItemId) (offset : Nat)
  | ids (generation : Nat)
  | remove (generation : Nat) (id : ItemId)
  | dropGeneration (generation : Nat)
  | generations
  | bytes (generation : Nat)
  deriving DecidableEq, Repr

/-- What a call answers when it succeeds. -/
inductive ShelfReply where
  | done
  | count (n : Nat)
  | published (created : Bool)
  | digest (digest : Option Digest)
  | size (size : Option Nat)
  | uploads (uploads : List UploadId)
  | item (item : Option StoredItem)
  | content (content : Option Bytes)
  | ids (ids : List ItemId)
  | generations (generations : List Nat)
  deriving DecidableEq, Repr

/-- A call's numbers are `u64`s, and an offset is one that a filesystem can seek to. -/
def ShelfCall.InRange : ShelfCall → Prop
  | publish _ generation _ envelope => generation < u64Bound ∧ envelope.receivedAt < u64Bound
  | openContentFrom _ _ offset => offset < 2 ^ 63
  | _ => True

section
variable [Crates]

/-- Any call, on the shelf in memory. -/
def MemoryShelf.answer (s : MemoryShelf) : ShelfCall → Except ApiError ShelfReply × MemoryShelf
  | .stageCreate upload => (.ok .done, s.stageCreate upload)
  | .stageWrite upload content announced =>
    ((s.stageWrite upload content announced).1.map .count,
      (s.stageWrite upload content announced).2)
  | .stageWriteHashed upload content announced =>
    ((s.stageWriteHashed upload content announced).1.map .count,
      (s.stageWriteHashed upload content announced).2)
  | .stageDigest upload => (.ok (.digest (s.stageDigest upload)), s)
  | .stageSize upload => (.ok (.size (s.stageSize upload)), s)
  | .stageRemove upload => (.ok .done, s.stageRemove upload)
  | .staged => (.ok (.uploads s.staged), s)
  | .publish upload generation id envelope =>
    ((s.publish upload generation id envelope).1.map .published,
      (s.publish upload generation id envelope).2)
  | .get generation id => (.ok (.item (s.get generation id)), s)
  | .openContent generation id => (.ok (.content (s.openContentFrom generation id 0)), s)
  | .openContentFrom generation id offset =>
    (.ok (.content (s.openContentFrom generation id offset)), s)
  | .ids generation => (.ok (.ids (s.ids generation)), s)
  | .remove generation id => (.ok (.item (s.remove generation id).1), (s.remove generation id).2)
  | .dropGeneration generation => (.ok .done, s.dropGeneration generation)
  | .generations => (.ok (.generations s.generations), s)
  | .bytes generation => (.ok (.count (s.bytes generation)), s)

/-- The answers to calls made one after the other. -/
def MemoryShelf.answers (s : MemoryShelf) (calls : List ShelfCall) :
    List (Except ApiError ShelfReply) :=
  Runs.history (fun s call => (MemoryShelf.answer s call).2)
    (fun s call => [(MemoryShelf.answer s call).1]) s calls

variable [ServerJson]

/-- The steps of any call, on the shelf in a directory. -/
def FsShelf.steps : ShelfCall → Steps ShelfReply
  | .stageCreate upload => do
    stageCreate upload
    return .done
  | .stageWrite upload content announced => return .count (← write upload content announced false)
  | .stageWriteHashed upload content announced =>
    return .count (← write upload content announced true)
  | .stageDigest upload => return .digest (← stageDigest upload)
  | .stageSize upload => return .size (← stageSize upload)
  | .stageRemove upload => do
    stageRemove upload
    return .done
  | .staged => return .uploads (← staged)
  | .publish upload generation id envelope =>
    return .published (← publish upload generation id envelope)
  | .get generation id => return .item (← get generation id)
  | .openContent generation id => return .content (← openContentFrom generation id 0)
  | .openContentFrom generation id offset =>
    return .content (← openContentFrom generation id offset)
  | .ids generation => return .ids (← ids generation)
  | .remove generation id => return .item (← remove generation id)
  | .dropGeneration generation => do
    dropGeneration generation
    return .done
  | .generations => return .generations (← generations)
  | .bytes generation => return .count (← bytes generation)

/-- Any call, on the shelf in a directory. -/
def FsShelf.answer (s : FsShelf) (call : ShelfCall) : Except ApiError ShelfReply × FsShelf :=
  FsShelf.steps call s

/-- The shelf after calls made one after the other. -/
def FsShelf.run (s : FsShelf) (calls : List ShelfCall) : FsShelf :=
  Runs.run (fun s call => (FsShelf.answer s call).2) s calls

/-- The answers to calls made one after the other. -/
def FsShelf.answers (s : FsShelf) (calls : List ShelfCall) : List (Except ApiError ShelfReply) :=
  Runs.history (fun s call => (FsShelf.answer s call).2)
    (fun s call => [(FsShelf.answer s call).1]) s calls

end

end Passalong
