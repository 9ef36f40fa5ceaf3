import Passalong.Lib.Cuts
import Passalong.Conformance

/-!
# The methods of the shelf, step by step (`shelf/fs.rs`)

What `FsShelf`'s methods do to the disk, as programs whose steps are the filesystem's, so that
they can be cut: between two steps, in the middle of a write, which leaves what it has written
so far, on the way down a path whose directories are made, or halfway through the removal of a
tree. A script that is not cut is the method (`whole_call`).

`openAt` is `FsShelf::open`, by a process that finds the directory as another one left it: the
trash is emptied, and the notes whose upload is gone are swept.
-/

namespace Passalong

open Lib

namespace FsShelf

/-- A method, step by step. -/
abbrev Script (α : Type) : Type 1 := Prog FsShelf ApiError α

namespace Script

/-! ## Steps -/

/-- A step that is made or not. -/
def once {α : Type} (m : Steps α) : Script α := Prog.atom m

/-- The directories of a path, one after the other. -/
def makeDir (path : Path) : Script Unit :=
  Prog.tornAtom (FsShelf.makeDir path) fun n s =>
    { s with disk := (path.inits.take n).foldl Tree.ensureDir s.disk }

/-- A write at the end of a file, byte by byte. -/
def append (path : Path) (bytes : Bytes) : Script Unit :=
  Prog.tornAtom (change (·.append path bytes)) fun n s =>
    (change (·.append path (bytes.take n)) s).2

def writeFile (path : Path) (bytes : Bytes) : Script Unit := do
  once (createFile path)
  append path bytes

def removeTree (path : Path) : Script Unit :=
  Prog.tornAtom (FsShelf.removeTree path) fun n s =>
    { s with disk := s.disk.removeSome path n }

/-! ## The methods -/

def stageCreate (upload : UploadId) : Script Unit := do
  makeDir (stagedDir upload)
  let there ← once (look (·.exist (stagedDir upload ++ ["content"])))
  if there then pure () else once (createFile (stagedDir upload ++ ["content"]))

def sink (path : Path) : List Bytes → Script Unit
  | [] => pure ()
  | piece :: sunk => do
    append path piece
    sink path sunk

section
variable [Crates]

/-- What `write` does with a stream that was read to its end, or was refused. -/
def settle (upload : UploadId) (hashed : Bool) (sunk : List Bytes) :
    Except ApiError Nat → Script Nat
  | .ok total =>
    if hashed then do
      writeFile (digestFile upload) (Crates.sha256 sunk.flatten).toBytes
      return total
    else return total
  | .error refusal => do
    once (change (·.truncate (stagedDir upload ++ ["content"]) 0))
    throw refusal

def write (upload : UploadId) (content : Source) (announced : Nat) (hashed : Bool) :
    Script Nat := do
  let there ← once (look (·.isDir (stagedDir upload)))
  if there then
    once (removeDigest upload)
    once (createFile (stagedDir upload ++ ["content"]))
    sink (stagedDir upload ++ ["content"]) (pump announced content 0).2
    settle upload hashed (pump announced content 0).2 (pump announced content 0).1
  else throw .notFound

end

/-- Where a path is moved to, or `none` when there was nothing. -/
def moveToTrash (path : Path) : Steps (Option Path) := fun s =>
  let bin : Path := ["trash", toString s.process ++ "-" ++ toString s.trashed]
  let s : FsShelf := { s with trashed := s.trashed + 1 }
  match s.disk.rename path bin with
  | .error .notFound => (.ok none, s)
  | .error _ => (.error .serviceUnavailable, s)
  | .ok disk => (.ok (some bin), { s with disk })

def discard (path : Path) : Script Bool := do
  let moved ← once (moveToTrash path)
  match moved with
  | none => return false
  | some bin => do
    removeTree bin
    return true

def stageRemove (upload : UploadId) : Script Unit := do
  let _ ← discard (stagedDir upload)
  once (removeDigest upload)

section
variable [ServerJson]

/-- The rename of a publish: `false` where an item is. -/
def moveOnto (src dst : Path) : Steps Bool := fun s =>
  match s.disk.rename src dst with
  | .ok disk => (.ok true, { s with disk })
  | .error .directoryNotEmpty => (.ok false, s)
  | .error _ => (.error .serviceUnavailable, s)

/-- What `publish` does once the item's files are there. -/
def rename (upload : UploadId) (g : Nat) (id : ItemId) : Script Bool := do
  let renamed ← once (moveOnto (stagedDir upload) (itemDir g id))
  if renamed then
    once (removeDigest upload)
    once (syncDir (items g))
    once (syncDir staging)
    return true
  else return false

def publish (upload : UploadId) (g : Nat) (id : ItemId) (envelope : Envelope) : Script Bool := do
  let there ← once (look (·.isDir (stagedDir upload)))
  if there then
    writeFile (stagedDir upload ++ ["meta.json"]) envelope.metaJson
    writeFile (stagedDir upload ++ ["server.json"]) (ServerJson.toVec (serverFile envelope))
    once (syncDir (stagedDir upload))
    makeDir (items g)
    rename upload g id
  else throw .notFound

def remove (g : Nat) (id : ItemId) : Script (Option StoredItem) := do
  let item ← once (readItem (itemDir g id))
  match item with
  | none => return none
  | some item => do
    let there ← discard (itemDir g id)
    if there then
      once (syncDir (items g))
      return some item
    else return none

end

def dropGeneration (g : Nat) : Script Unit := do
  let there ← discard (generationDir g)
  if there then once (syncDir []) else pure ()

section
variable [Crates] [ServerJson]

/-- Any call. One that reads is one step, since nothing changes on its way. -/
def call : ShelfCall → Script ShelfReply
  | .stageCreate upload => do
    stageCreate upload
    return .done
  | .stageWrite upload content announced => return .count (← write upload content announced false)
  | .stageWriteHashed upload content announced =>
    return .count (← write upload content announced true)
  | .stageRemove upload => do
    stageRemove upload
    return .done
  | .publish upload generation id envelope =>
    return .published (← publish upload generation id envelope)
  | .remove generation id => return .item (← remove generation id)
  | .dropGeneration generation => do
    dropGeneration generation
    return .done
  | reads => once (FsShelf.steps reads)

end

/-! ## A commit (`upload.rs`) -/

section
variable [Crates]

/-- `check_plaintext`, which reads the note. -/
def checkPlaintext (upload : UploadId) (request : UploadRequest) : Script Unit :=
  match Crates.readMeta request.metaJson with
  | none => throw .contentMismatch
  | some fields => do
    let note ← once (stageDigest upload)
    match note, fields.sha256, fields.size with
    | some digest, some saidSha, some saidSize =>
      if digest.hex = saidSha ∧ saidSize = request.size ∧
          request.id.contentKey = digest.contentKey then pure ()
      else throw .contentMismatch
    | _, _, _ => throw .contentMismatch

variable [ServerJson]

/-- What a commit does once the looks at the staging place are over. -/
def settleUpload (upload : UploadId) (request : UploadRequest) (g now : Nat) : Script Unit := do
  let here ← once (ids g)
  match here.reverse.find? fun id => id.contentKey = request.id.contentKey with
  | some _ => pure ()
  | none => do
    let _ ← publish upload g request.id ⟨request.metaJson, request.expectedKeyId, now⟩

/-- What `commit_upload` does on the shelf, for an upload with a live ticket. -/
def commit (upload : UploadId) (request : UploadRequest) (g : Nat) (checkPlaintextContent : Bool)
    (now : Nat) : Script Unit := do
  let size ← once (stageSize upload)
  match size with
  | none => do
    -- an earlier commit published the item and died before it could record that
    let published ← once (FsShelf.get g request.id)
    if published.any (·.size = request.size) then do
      let _ ← once (bytes g)
    else throw .contentMismatch
  | some size =>
    if size ≠ request.size then throw .contentMismatch
    else if checkPlaintextContent && request.expectedKeyId.isNone then do
      checkPlaintext upload request
      settleUpload upload request g now
    else settleUpload upload request g now

end

/-! ## Opening -/

def emptyTrash : List String → Script Unit
  | [] => pure ()
  | name :: names => do
    removeTree ["trash", name]
    emptyTrash names

/-- The upload whose note has a name. -/
def notedUpload (name : String) : Option UploadId :=
  (name.toList.dropSuffix? ".sha256".toList).bind fun upload =>
    parsedName UploadId.parse (String.ofList upload)

/-- Whether a name in `staging/` is that of a note whose upload is gone. -/
def orphan (disk : Disk) (name : String) : Bool :=
  (notedUpload name).any fun upload => !disk.isDir (stagedDir upload)

/-- Notes whose upload is gone: a publish or a removal was cut short between the directory
and its note. -/
def sweepDigests : List String → Script Unit
  | [] => pure ()
  | name :: names => do
    let swept ← once (look (orphan · name))
    if swept then once (change (·.unlink ["staging", name])) else pure ()
    sweepDigests names

/-- `open`, by a process that numbers its trash anew. -/
def openAt (process : Nat) : Script Unit := do
  once fun s => (.ok (), { s with process, trashed := 0 })
  makeDir []
  makeDir staging
  makeDir trash
  emptyTrash (← once (listing trash))
  sweepDigests (← once (listing staging))

/-! ## They are the methods -/

/-- A script that is not cut. -/
def whole {α : Type} (p : Script α) : Steps α := p.run

section Whole

variable {α β : Type}

theorem whole_bind (p : Script α) (f : α → Script β) :
    whole (p >>= f) = whole p >>= fun a => whole (f a) := by
  funext s
  refine (Prog.run_bind p f s).trans ?_
  show _ = ExceptT.bindCont (fun a => whole (f a)) (whole p s).1 (whole p s).2
  unfold whole
  rcases p.run s with ⟨_ | _, _⟩ <;> rfl

theorem whole_pure (a : α) : whole (pure a) = pure a := rfl

theorem whole_throw (e : ApiError) : whole (throw e : Script α) = throw e := rfl

theorem whole_once (m : Steps α) : whole (once m) = m := Prog.run_atom m

theorem whole_makeDir (path : Path) : whole (makeDir path) = FsShelf.makeDir path :=
  Prog.run_tornAtom _ _

theorem whole_append (path : Path) (bytes : Bytes) :
    whole (append path bytes) = change (·.append path bytes) :=
  Prog.run_tornAtom _ _

theorem whole_removeTree (path : Path) : whole (removeTree path) = FsShelf.removeTree path :=
  Prog.run_tornAtom _ _

theorem whole_writeFile (path : Path) (bytes : Bytes) :
    whole (writeFile path bytes) = FsShelf.writeFile path bytes := by
  unfold writeFile FsShelf.writeFile
  simp only [whole_bind, whole_once, whole_append]

theorem whole_stageCreate (upload : UploadId) :
    whole (stageCreate upload) = FsShelf.stageCreate upload := by
  unfold stageCreate FsShelf.stageCreate
  simp only [whole_bind, whole_once, whole_makeDir]
  congr 1
  funext _
  congr 1
  funext there
  cases there
  · exact whole_once _
  · rfl

theorem whole_sink (path : Path) (sunk : List Bytes) :
    whole (sink path sunk) = FsShelf.sink path sunk := by
  induction sunk with
  | nil => rfl
  | cons piece sunk ih =>
    unfold sink FsShelf.sink
    simp only [whole_bind, whole_append, ih]

theorem whole_write [Crates] (upload : UploadId) (content : Source) (announced : Nat)
    (hashed : Bool) :
    whole (write upload content announced hashed) =
      FsShelf.write upload content announced hashed := by
  unfold write FsShelf.write
  rw [whole_bind, whole_once]
  congr 1
  funext there
  cases there with
  | false => rfl
  | true =>
    simp only [if_true, Bool.not_true, Bool.false_eq_true, if_false, whole_bind, whole_once,
      whole_sink]
    rcases pump announced content 0 with ⟨refusal | total, sunk⟩
    · simp only [settle, whole_bind, whole_once, whole_throw]
    · cases hashed
      · simp only [settle, Bool.false_eq_true, if_false, whole_pure]
      · simp only [settle, if_true, whole_bind, whole_writeFile, whole_pure]

/-- Where a path is moved is said before it is removed. -/
theorem moveToTrash_eq (path : Path) (s : FsShelf) :
    moveToTrash path s =
      match s.disk.rename path ["trash", toString s.process ++ "-" ++ toString s.trashed] with
      | .error .notFound => (.ok none, { s with trashed := s.trashed + 1 })
      | .error _ => (.error .serviceUnavailable, { s with trashed := s.trashed + 1 })
      | .ok disk =>
        (.ok (some ["trash", toString s.process ++ "-" ++ toString s.trashed]),
          { s with disk, trashed := s.trashed + 1 }) := rfl

theorem whole_discard (path : Path) : whole (discard path) = FsShelf.discard path := by
  unfold discard
  rw [whole_bind, whole_once]
  funext s
  have hmove := moveToTrash_eq path s
  unfold FsShelf.discard
  dsimp only
  generalize s.disk.rename path _ = renamed at hmove ⊢
  rcases renamed with e | disk
  · cases e with
    | notFound => exact bind_ok hmove
    | notADirectory | isADirectory | directoryNotEmpty | invalid => exact bind_error hmove
  · refine (bind_ok hmove).trans ?_
    dsimp only
    rw [whole_bind, whole_removeTree]
    rcases hremove : FsShelf.removeTree _ _ with ⟨e | _, s'⟩
    · exact bind_error hremove
    · exact bind_ok hremove

theorem whole_stageRemove (upload : UploadId) :
    whole (stageRemove upload) = FsShelf.stageRemove upload := by
  unfold stageRemove FsShelf.stageRemove
  simp only [whole_bind, whole_once, whole_discard]

theorem whole_rename (upload : UploadId) (g : Nat) (id : ItemId) :
    whole (rename upload g id) =
      look (·.rename (stagedDir upload) (itemDir g id)) >>= renamed upload g := by
  funext s
  unfold rename
  rw [whole_bind, whole_once]
  cases hrename : s.disk.rename (stagedDir upload) (itemDir g id) with
  | ok disk =>
    have hmove : moveOnto (stagedDir upload) (itemDir g id) s = (.ok true, { s with disk }) := by
      simp only [moveOnto, hrename]
    have hlook : look (·.rename (stagedDir upload) (itemDir g id)) s = (.ok (.ok disk), s) := by
      simp only [look, hrename]
    have hchange : change (fun _ => .ok disk) s = (.ok (), { s with disk }) := change_ok rfl
    rw [bind_ok hmove, bind_ok hlook, if_pos rfl]
    simp only [whole_bind, whole_once, whole_pure]
    dsimp only [renamed]
    rw [bind_ok hchange]
  | error e =>
    have hlook : look (·.rename (stagedDir upload) (itemDir g id)) s = (.ok (.error e), s) := by
      simp only [look, hrename]
    rw [bind_ok hlook]
    cases e with
    | directoryNotEmpty =>
      have hmove : moveOnto (stagedDir upload) (itemDir g id) s = (.ok false, s) := by
        simp only [moveOnto, hrename]
      rw [bind_ok hmove, if_neg (by simp)]
      rfl
    | notFound | notADirectory | isADirectory | invalid =>
      have hmove : moveOnto (stagedDir upload) (itemDir g id) s =
          (.error .serviceUnavailable, s) := by
        simp only [moveOnto, hrename]
      rw [bind_error hmove]
      rfl

variable [ServerJson]

theorem whole_publish (upload : UploadId) (g : Nat) (id : ItemId) (envelope : Envelope) :
    whole (publish upload g id envelope) = FsShelf.publish upload g id envelope := by
  unfold publish FsShelf.publish
  rw [whole_bind, whole_once]
  congr 1
  funext there
  cases there with
  | false => rfl
  | true =>
    simp only [if_true, Bool.not_true, Bool.false_eq_true, if_false, whole_bind, whole_once,
      whole_writeFile, whole_makeDir, whole_rename, serverFile]
    rfl

theorem whole_remove (g : Nat) (id : ItemId) : whole (remove g id) = FsShelf.remove g id := by
  unfold remove FsShelf.remove
  rw [whole_bind, whole_once]
  congr 1
  funext item
  cases item with
  | none => rfl
  | some item =>
    simp only [whole_bind, whole_discard]
    congr 1
    funext there
    cases there
    · rfl
    · simp only [if_true, whole_bind, whole_once, whole_pure]

omit [ServerJson] in
theorem whole_dropGeneration (g : Nat) : whole (dropGeneration g) = FsShelf.dropGeneration g := by
  unfold dropGeneration FsShelf.dropGeneration
  simp only [whole_bind, whole_discard]
  congr 1
  funext there
  cases there
  · rfl
  · exact whole_once _

/-- **A call that is not cut does what the method does.** -/
theorem whole_call [Crates] (c : ShelfCall) : whole (call c) = FsShelf.steps c := by
  cases c with
  | stageCreate upload => simp only [call, FsShelf.steps, whole_bind, whole_pure, whole_stageCreate]
  | stageWrite upload content announced =>
    simp only [call, FsShelf.steps, whole_bind, whole_pure, whole_write]
  | stageWriteHashed upload content announced =>
    simp only [call, FsShelf.steps, whole_bind, whole_pure, whole_write]
  | stageRemove upload => simp only [call, FsShelf.steps, whole_bind, whole_pure, whole_stageRemove]
  | publish upload generation id envelope =>
    simp only [call, FsShelf.steps, whole_bind, whole_pure, whole_publish]
  | remove generation id => simp only [call, FsShelf.steps, whole_bind, whole_pure, whole_remove]
  | dropGeneration generation =>
    simp only [call, FsShelf.steps, whole_bind, whole_pure, whole_dropGeneration]
  | stageDigest | stageSize | staged | get | openContent | openContentFrom | ids | generations
  | bytes => exact whole_once _

end Whole

/-! ## What only reads -/

/-- A method that leaves everything as it is. -/
def Reads {α : Type} (m : Steps α) : Prop := ∀ s, (m s).2 = s

section Reads

variable {α β : Type}

theorem reads_pure (a : α) : Reads (pure a : Steps α) := fun _ => rfl

theorem reads_throw (e : ApiError) : Reads (throw e : Steps α) := fun _ => rfl

theorem reads_look (f : Disk → α) : Reads (look f) := fun _ => rfl

theorem Reads.bind {m : Steps α} {f : α → Steps β} (hm : Reads m) (hf : ∀ a, Reads (f a)) :
    Reads (m >>= f) := by
  intro s
  rcases hrun : m s with ⟨e | a, s'⟩
  · rw [bind_error hrun]
    exact (congrArg Prod.snd hrun).symm.trans (hm s)
  · rw [bind_ok hrun, hf a s']
    exact (congrArg Prod.snd hrun).symm.trans (hm s)

theorem reads_found (f : Disk → Except DiskError α) : Reads (found f) := by
  intro s
  unfold found
  split <;> rfl

theorem reads_fetch (f : Disk → Except DiskError α) : Reads (fetch f) := by
  intro s
  unfold fetch
  split <;> rfl

theorem reads_syncDir (path : Path) : Reads (syncDir path) := by
  intro s
  unfold syncDir
  split <;> rfl

theorem reads_listing (path : Path) : Reads (listing path) :=
  (reads_found _).bind fun _ => reads_pure _

theorem reads_stageDigest (upload : UploadId) : Reads (stageDigest upload) :=
  (reads_found _).bind fun _ => reads_pure _

theorem reads_stageSize (upload : UploadId) : Reads (stageSize upload) :=
  (reads_found _).bind fun _ => reads_pure _

theorem reads_ids (g : Nat) : Reads (ids g) :=
  (reads_listing _).bind fun _ => (reads_look _).bind fun _ => reads_pure _

theorem reads_staged : Reads staged := (reads_listing _).bind fun _ => reads_pure _

theorem reads_openContentFrom (g : Nat) (id : ItemId) (offset : Nat) :
    Reads (openContentFrom g id offset) := by
  refine (reads_found _).bind fun content => ?_
  cases content with
  | none => exact reads_pure _
  | some content =>
    dsimp only
    split_ifs
    · exact reads_throw _
    · exact reads_pure _

theorem reads_holding (names : List String) : Reads (holding names) := by
  induction names with
  | nil => exact reads_pure _
  | cons name names ih =>
    unfold holding
    split
    · exact ih
    · exact (reads_ids _).bind fun _ => ih.bind fun _ => reads_pure _

theorem reads_generations : Reads generations :=
  (reads_listing _).bind fun _ => (reads_holding _).bind fun _ => reads_pure _

theorem reads_sizes (g : Nat) (here : List ItemId) : Reads (sizes g here) := by
  induction here with
  | nil => exact reads_pure _
  | cons id here ih => exact (reads_fetch _).bind fun _ => ih.bind fun _ => reads_pure _

theorem reads_bytes (g : Nat) : Reads (bytes g) := (reads_ids g).bind fun _ => reads_sizes g _

variable [ServerJson]

theorem reads_readItem (dir : Path) : Reads (readItem dir) := by
  refine (reads_found _).bind fun content => ?_
  cases content with
  | none => exact reads_pure _
  | some content =>
    refine (reads_fetch _).bind fun metaJson => (reads_fetch _).bind fun server => ?_
    split
    · exact reads_throw _
    · split
      · exact reads_throw _
      · exact reads_pure _
      · exact reads_pure _

end Reads

/-! ## What the steps do -/

/-- A file has been written, and nothing else has changed. -/
def Wrote (path : Path) (bytes : Bytes) (s s' : FsShelf) : Prop :=
  ∀ q, s'.disk.get q = if path = q then some (.file bytes) else s.disk.get q

/-- Directories may have been made on the way down a path. -/
def Made (path : Path) (s s' : FsShelf) : Prop :=
  ∀ q, s'.disk.get q = s.disk.get q ∨
    q <+: path ∧ s'.disk.get q = some ((s.disk.get q).getD .dir)

/-- A note is gone, and nothing beside it has changed. -/
def Unnoted (upload : UploadId) (s s' : FsShelf) : Prop :=
  s'.disk.get (digestFile upload) = none ∧
    ∀ q, ¬digestFile upload <+: q → s'.disk.get q = s.disk.get q

/-- A path is gone with everything under it, and nothing outside the trash has changed. -/
def Gone (path : Path) (s s' : FsShelf) : Prop :=
  ∀ q, ¬trash <+: q → s'.disk.get q = if path <+: q then none else s.disk.get q

/-- Nothing outside the trash has changed. -/
def Emptied (s s' : FsShelf) : Prop := ∀ q, ¬trash <+: q → s'.disk.get q = s.disk.get q

section Rules

variable {α : Type} {T : Terms FsShelf} {Q : Except ApiError α → FsShelf → Prop}
  {R : Except ApiError Unit → FsShelf → Prop} {s : FsShelf}

/-- A step that only reads. -/
theorem keeps_reads {m : Steps α} (hm : Reads m)
    (h : ∀ s₁, T.rely s s₁ → T.inv s₁ → Q (m s₁).1 s₁) : (once m).Keeps T Q s := by
  refine Prog.keeps_atom fun s₁ hrely hinv => ?_
  rw [hm s₁]
  exact ⟨⟨hinv, T.may_refl s₁⟩, h s₁ hrely hinv⟩

theorem keeps_look {f : Disk → α} (h : ∀ s₁, T.rely s s₁ → T.inv s₁ → Q (.ok (f s₁.disk)) s₁) :
    (once (look f)).Keeps T Q s :=
  keeps_reads (reads_look f) h

theorem keeps_change {f : Disk → Except DiskError Disk}
    (h : ∀ s₁, T.rely s s₁ → T.inv s₁ →
      (∀ disk, f s₁.disk = .ok disk → T.Fine s₁ { s₁ with disk } ∧ R (.ok ()) { s₁ with disk }) ∧
        R (.error .serviceUnavailable) s₁) : (once (change f)).Keeps T R s := by
  refine Prog.keeps_atom fun s₁ hrely hinv => ?_
  obtain ⟨hok, herror⟩ := h s₁ hrely hinv
  cases hf : f s₁.disk with
  | ok disk =>
    rw [change_ok hf]
    exact hok disk hf
  | error e =>
    have hchange : change f s₁ = (.error .serviceUnavailable, s₁) := by simp only [change, hf]
    rw [hchange]
    exact ⟨⟨hinv, T.may_refl s₁⟩, herror⟩

theorem keeps_createFile {path : Path}
    (h : ∀ s₁, T.rely s s₁ → T.inv s₁ →
      (∀ s₂, Wrote path [] s₁ s₂ → T.Fine s₁ s₂ ∧ R (.ok ()) s₂) ∧
        R (.error .serviceUnavailable) s₁) : (once (createFile path)).Keeps T R s := by
  refine keeps_change fun s₁ hrely hinv => ?_
  obtain ⟨hok, herror⟩ := h s₁ hrely hinv
  exact ⟨fun disk hdisk => hok _ (Tree.get_of_create hdisk), herror⟩

/-- A write that is cut leaves what was written so far. -/
theorem keeps_append {path : Path} {bytes : Bytes}
    (h : ∀ s₁, T.rely s s₁ → T.inv s₁ → ∃ content : Bytes,
      s₁.disk.get path = some (.file content) ∧
        (∀ n s₂, Wrote path (content ++ bytes.take n) s₁ s₂ → T.Fine s₁ s₂) ∧
        ∀ s₂, Wrote path (content ++ bytes) s₁ s₂ → R (.ok ()) s₂) :
    (append path bytes).Keeps T R s := by
  refine Prog.keeps_tornAtom fun s₁ hrely hinv => ?_
  obtain ⟨content, hfile, hfine, hR⟩ := h s₁ hrely hinv
  have hwrite : ∀ more, change (·.append path more) s₁ =
      (.ok (), { s₁ with disk := s₁.disk.set path (.file (content ++ more)) }) := by
    intro more
    refine change_ok ?_
    simp only [Tree.append, hfile]
  have hwrote : ∀ more, Wrote path (content ++ more) s₁
      { s₁ with disk := s₁.disk.set path (.file (content ++ more)) } :=
    fun more q => Tree.get_set _ _ _ _
  refine ⟨fun n => ?_, ?_, ?_⟩
  · rw [hwrite]
    exact hfine n _ (hwrote _)
  · rw [hwrite]
    refine hfine bytes.length _ ?_
    rw [List.take_length]
    exact hwrote bytes
  · rw [hwrite]
    exact hR _ (hwrote bytes)

/-- A file of one's own is written: `P` is what is known while it is. -/
theorem keeps_writeFile {path : Path} {bytes : Bytes} {P : FsShelf → Prop} (hs : P s)
    (hrely : ∀ s₁ s₂, T.rely s₁ s₂ → P s₁ → P s₂ ∧ s₂.disk.get path = s₁.disk.get path)
    (hpart : ∀ n s₁ s₂, P s₁ → T.inv s₁ → Wrote path (bytes.take n) s₁ s₂ → T.Fine s₁ s₂ ∧ P s₂)
    (hR : ∀ s₂, P s₂ → s₂.disk.get path = some (.file bytes) → R (.ok ()) s₂)
    (herror : ∀ s₁, P s₁ → R (.error .serviceUnavailable) s₁) :
    (writeFile path bytes).Keeps T R s := by
  refine Prog.keeps_bind (keeps_createFile fun s₁ hs₁ hinv => ?_)
  obtain ⟨hP, -⟩ := hrely _ _ hs₁ hs
  refine ⟨fun created hcreated => ?_, herror _ hP⟩
  obtain ⟨hfine, hPcreated⟩ := hpart 0 _ _ hP hinv hcreated
  have hfile : created.disk.get path = some (.file []) := by rw [hcreated, if_pos rfl]
  refine ⟨hfine, keeps_append fun s₂ hs₂ hinv₂ => ?_⟩
  obtain ⟨hP₂, hsame⟩ := hrely _ _ hs₂ hPcreated
  refine ⟨[], hsame.trans hfile, fun n s₃ hwrote => (hpart n _ _ hP₂ hinv₂ hwrote).1,
    fun s₃ hwrote => ?_⟩
  have hwhole : Wrote path (bytes.take bytes.length) s₂ s₃ := by
    rw [List.take_length]
    exact hwrote
  exact hR _ (hpart _ _ _ hP₂ hinv₂ hwhole).2 (by rw [hwrote, if_pos rfl]; rfl)

theorem keeps_makeDir {path : Path}
    (h : ∀ s₁, T.rely s s₁ → T.inv s₁ → ∀ s₂, Made path s₁ s₂ → T.Fine s₁ s₂ ∧
      ∀ answer, (answer = .ok () → ∃ node, s₂.disk.get path = some node) → R answer s₂) :
    (makeDir path).Keeps T R s := by
  refine Prog.keeps_tornAtom fun s₁ hrely hinv => ?_
  have hwhole : Made path s₁ (FsShelf.makeDir path s₁).2 ∧
      ((FsShelf.makeDir path s₁).1 = .ok () →
        ∃ node, (FsShelf.makeDir path s₁).2.disk.get path = some node) := by
    unfold FsShelf.makeDir change
    split
    · next disk hdisk =>
      have hget := Tree.get_of_makeDirAll hdisk
      refine ⟨fun q => ?_, fun _ => ⟨_, (hget path).trans (if_pos (List.prefix_refl _))⟩⟩
      dsimp only
      rw [hget q]
      split_ifs with hq
      · exact .inr ⟨hq, rfl⟩
      · exact .inl rfl
    · exact ⟨fun q => .inl rfl, by simp⟩
  obtain ⟨hfine, hR⟩ := h s₁ hrely hinv _ hwhole.1
  exact ⟨fun n => (h s₁ hrely hinv _ fun q => Tree.get_some_ensureDir s₁.disk path q n).1, hfine,
    hR _ hwhole.2⟩

theorem keeps_removeDigest {upload : UploadId}
    (h : ∀ s₁, T.rely s s₁ → T.inv s₁ → s₁.disk.get (digestFile upload) ≠ some .dir ∧
      ∀ s₂, Unnoted upload s₁ s₂ → T.Fine s₁ s₂ ∧ R (.ok ()) s₂) :
    (once (removeDigest upload)).Keeps T R s := by
  refine Prog.keeps_atom fun s₁ hrely hinv => ?_
  obtain ⟨hdir, hunnoted⟩ := h s₁ hrely hinv
  have hremove : ∃ s₂, removeDigest upload s₁ = (.ok (), s₂) ∧ Unnoted upload s₁ s₂ := by
    unfold removeDigest removed
    dsimp only
    cases hnote : s₁.disk.get (digestFile upload) with
    | none =>
      have habsent : s₁.disk.unlink (digestFile upload) = .error .notFound := by
        simp only [Tree.unlink, hnote]
      rw [habsent]
      exact ⟨s₁, rfl, hnote, fun q _ => rfl⟩
    | some node =>
      cases node with
      | dir => exact absurd hnote hdir
      | file bytes =>
        have hfile : s₁.disk.unlink (digestFile upload) =
            .ok (s₁.disk.removeUnder (digestFile upload)) := by
          simp only [Tree.unlink, hnote]
        rw [hfile]
        refine ⟨_, rfl, ?_, fun q hq => ?_⟩
        · exact (Tree.get_removeUnder _ _ _).trans (if_pos (List.prefix_refl _))
        · exact (Tree.get_removeUnder _ _ _).trans (if_neg hq)
  obtain ⟨s₂, hrun, hs₂⟩ := hremove
  rw [hrun]
  exact hunnoted s₂ hs₂

/-- Whatever becomes of a removal in the trash, nothing else changes. -/
theorem keeps_removeTree {path : Path} (hpath : trash <+: path)
    (h : ∀ s₁, T.rely s s₁ → T.inv s₁ → ∀ s₂, Emptied s₁ s₂ →
      T.Fine s₁ s₂ ∧ ∀ answer, R answer s₂) : (removeTree path).Keeps T R s := by
  have hout : ∀ {q : Path}, ¬trash <+: q → ¬path <+: q := fun hq hpre => hq (hpath.trans hpre)
  refine Prog.keeps_tornAtom fun s₁ hrely hinv => ?_
  have hwhole : Emptied s₁ (FsShelf.removeTree path s₁).2 := by
    intro q hq
    unfold FsShelf.removeTree removed
    split
    · next hdisk => exact (Tree.get_of_removeAll hdisk q).trans (if_neg (hout hq))
    · rfl
    · rfl
  obtain ⟨hfine, hR⟩ := h s₁ hrely hinv _ hwhole
  exact ⟨fun n => (h s₁ hrely hinv _ fun q hq => Tree.get_removeSome n (hout hq)).1, hfine, hR _⟩

/-- What is discarded is gone at once, or nothing is. `P` holds from then on. -/
theorem keeps_discard {path : Path} {P : FsShelf → Prop}
    {D : Except ApiError Bool → FsShelf → Prop}
    (h : ∀ s₁, T.rely s s₁ → T.inv s₁ →
      (∀ s₂, s₂.disk = s₁.disk → T.Fine s₁ s₂ ∧ P s₂) ∧
        ∀ s₂, Gone path s₁ s₂ → T.Fine s₁ s₂ ∧ P s₂)
    (hrely : ∀ s₁ s₂, T.rely s₁ s₂ → P s₁ → P s₂)
    (hempty : ∀ s₁ s₂, P s₁ → T.inv s₁ → Emptied s₁ s₂ → T.Fine s₁ s₂ ∧ P s₂)
    (hD : ∀ answer s₂, P s₂ → D answer s₂) : (discard path).Keeps T D s := by
  refine Prog.keeps_bind (Prog.keeps_atom fun s₁ hs₁ hinv => ?_)
  obtain ⟨hsame, hgone⟩ := h s₁ hs₁ hinv
  have hmove := moveToTrash_eq path s₁
  generalize hbin : (["trash", toString s₁.process ++ "-" ++ toString s₁.trashed] : Path) = bin
    at hmove
  have htrash : trash <+: bin := by
    rw [← hbin]
    exact ⟨_, rfl⟩
  cases hrename : s₁.disk.rename path bin with
  | error e =>
    rw [hrename] at hmove
    cases e with
    | notFound =>
      rw [hmove]
      obtain ⟨hfine, hP⟩ := hsame { s₁ with trashed := s₁.trashed + 1 } rfl
      exact ⟨hfine, hD _ _ hP⟩
    | notADirectory | isADirectory | directoryNotEmpty | invalid =>
      rw [hmove]
      obtain ⟨hfine, hP⟩ := hsame { s₁ with trashed := s₁.trashed + 1 } rfl
      exact ⟨hfine, hD _ _ hP⟩
  | ok disk =>
    rw [hrename] at hmove
    obtain ⟨rfl, -, -⟩ := Tree.of_rename hrename
    rw [hmove]
    obtain ⟨hfine, hP⟩ := hgone
      { s₁ with disk := s₁.disk.move path bin, trashed := s₁.trashed + 1 } fun q hq => by
        rw [Tree.get_move, if_neg fun hpre => hq (htrash.trans hpre)]
    refine ⟨hfine, Prog.keeps_bind (keeps_removeTree htrash fun s₂ hs₂ hinv₂ s₃ hs₃ => ?_)⟩
    obtain ⟨hfine₃, hP₃⟩ := hempty _ _ (hrely _ _ hs₂ hP) hinv₂ hs₃
    refine ⟨hfine₃, fun answer => ?_⟩
    cases answer <;> exact hD _ _ hP₃

end Rules

end Script

end FsShelf

end Passalong
