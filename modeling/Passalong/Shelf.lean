import Passalong.Lib.Map
import Passalong.Ids

/-!
# The shelf (`shelf/mod.rs`, `shelf/memory.rs`)

Where items are kept: staging places by upload id, and items by generation and
item id. `MemoryShelf` is the repository's reference implementation of the
`ItemShelf` trait, the one the filesystem shelf is held to; each of its methods
is one step, as each is one step of a POSIX filesystem.

- `pump` reads a content stream piece by piece and refuses more than was
  announced.
- `MemoryShelf.generation s g` is the map of the items of one generation, empty
  when the shelf has none. Every method is characterized by what it does to
  `generation` and to `staging`, and the rules are reasoned about through these
  characterizations only.

SHA-256 and the JSON reader come from third-party crates; `Crates` stands for
them.
-/

namespace Passalong

open Lib

abbrev Bytes : Type := List UInt8

/-- A SHA-256, by the number its thirty-two bytes spell. -/
structure Digest where
  number : Fin (2 ^ 256)
  deriving DecidableEq, Repr

/-- The sixty-four lower-case hex digits of a digest. -/
def Digest.hex (digest : Digest) : String :=
  String.ofList ((List.range 64).map fun i =>
    Nat.digitChar (digest.number.val / 16 ^ (63 - i) % 16))

/-- The first twelve hex digits of a digest: its content key. -/
def Digest.contentKey (digest : Digest) : Fin (2 ^ 48) :=
  ⟨digest.number.val / 2 ^ 208, by have := digest.number.isLt; omega⟩

/-- What the server looks for in a `meta` document. -/
structure MetaFields where
  /-- The member `sha256`, if it is there and a string. -/
  sha256 : Option String
  /-- The member `size`, if it is there and a `u64`. -/
  size : Option Nat
  deriving DecidableEq, Repr

/-- The third-party code the rules call: the hash of `sha2`, and `serde_json` as
far as it is asked for two members of a document. -/
class Crates where
  sha256 : Bytes → Digest
  /-- `none` when the bytes are not a JSON document. -/
  readMeta : Bytes → Option MetaFields

/-! ## Content streams -/

/-- What one `read` of a content stream gives. -/
inductive Read where
  | piece (bytes : Bytes)
  | interrupted
  | failed
  deriving DecidableEq, Repr

/-- A content stream: what its reads give, one after the other, and from then on
the end of the stream. -/
abbrev Source : Type := List Read

/-- Reads `content` to its end, handing each piece to the sink, and refuses more
than `announced` bytes. The answer, and what the sink was handed. -/
def pump (announced : Nat) : Source → Nat → Except ApiError Nat × List Bytes
  | [], total => (.ok total, [])
  | .interrupted :: rest, total => pump announced rest total
  | .failed :: _, _ =>
    (.error (.invalidRequest "the content could not be read to its end"), [])
  | .piece bytes :: rest, total =>
    -- a read of no bytes is the end of the stream
    if bytes = [] then (.ok total, [])
    else if announced < total + bytes.length then (.error .contentMismatch, [])
    else
      let (answer, sunk) := pump announced rest (total + bytes.length)
      (answer, bytes :: sunk)

/-! ## The reference shelf -/

/-- What the server records beside an item's content. -/
structure Envelope where
  /-- The client's opaque `meta.json`. -/
  metaJson : Bytes
  /-- The data key the item was uploaded under; `none` for plaintext. -/
  under : Option KeyId
  /-- When the server published the item, by its own clock. -/
  receivedAt : Nat
  deriving DecidableEq, Repr

/-- A published item, without its content. -/
structure StoredItem where
  size : Nat
  envelope : Envelope
  deriving DecidableEq, Repr

/-- A published item. -/
structure Item where
  content : Bytes
  envelope : Envelope
  deriving DecidableEq, Repr

/-- A staging place: what was sent, and the server's note of its SHA-256. -/
structure Staged where
  content : Bytes
  digest : Option Digest
  deriving DecidableEq, Repr

/-- The reference shelf. -/
@[ext] structure MemoryShelf where
  staging : Map UploadId Staged
  items : Map Nat (Map ItemId Item)

def Item.stored (item : Item) : StoredItem :=
  ⟨item.content.length, item.envelope⟩

namespace MemoryShelf

/-- A shelf with nothing on it. -/
def empty : MemoryShelf := ⟨∅, ∅⟩

/-- The items of one generation. -/
def generation (s : MemoryShelf) (g : Nat) : Map ItemId Item :=
  s.items[g]?.getD ∅

/-- Creates the staging place of an upload; harmless when it exists. -/
def stageCreate (s : MemoryShelf) (upload : UploadId) : MemoryShelf :=
  match s.staging[upload]? with
  | some _ => s
  | none => { s with staging := s.staging.insert upload ⟨[], none⟩ }

section
variable [Crates]

/-- Replaces the staged content with what `content` yields, or empties the
staging place when that is refused. -/
def write (s : MemoryShelf) (upload : UploadId) (content : Source) (announced : Nat)
    (hashed : Bool) : Except ApiError Nat × MemoryShelf :=
  if s.staging.contains upload then
    let (written, sunk) := pump announced content 0
    let staged : Staged :=
      match written with
      | .ok _ =>
        ⟨sunk.flatten, if hashed then some (Crates.sha256 sunk.flatten) else none⟩
      | .error _ => ⟨[], none⟩
    (written, { s with staging := s.staging.insert upload staged })
  else (.error .notFound, s)

def stageWrite (s : MemoryShelf) (upload : UploadId) (content : Source) (announced : Nat) :
    Except ApiError Nat × MemoryShelf :=
  s.write upload content announced false

/-- As `stageWrite`, and remembers the SHA-256 of what was written. -/
def stageWriteHashed (s : MemoryShelf) (upload : UploadId) (content : Source)
    (announced : Nat) : Except ApiError Nat × MemoryShelf :=
  s.write upload content announced true

end

def stageDigest (s : MemoryShelf) (upload : UploadId) : Option Digest :=
  s.staging[upload]?.bind Staged.digest

/-- The staged content's size, or `none` when nothing is staged. -/
def stageSize (s : MemoryShelf) (upload : UploadId) : Option Nat :=
  s.staging[upload]?.map fun staged => staged.content.length

def stageRemove (s : MemoryShelf) (upload : UploadId) : MemoryShelf :=
  { s with staging := s.staging.erase upload }

/-- Every staging place, for the janitor and for leak checks. -/
def staged (s : MemoryShelf) : List UploadId := s.staging.keys

/-- Turns a staged upload into the item `id` of generation `g`, in one step,
unless that item exists. -/
def publish (s : MemoryShelf) (upload : UploadId) (g : Nat) (id : ItemId)
    (envelope : Envelope) : Except ApiError Bool × MemoryShelf :=
  match s.staging[upload]? with
  | none => (.error .notFound, s)
  | some staged =>
    if (s.generation g).contains id then (.ok false, s)
    else
      (.ok true,
        { staging := s.staging.erase upload
          items := s.items.insert g
            ((s.generation g).insert id ⟨staged.content, envelope⟩) })

/-- One item, without its content. -/
def get (s : MemoryShelf) (g : Nat) (id : ItemId) : Option StoredItem :=
  (s.generation g)[id]?.map Item.stored

/-- One item's content from `offset` on. -/
def openContentFrom (s : MemoryShelf) (g : Nat) (id : ItemId) (offset : Nat) : Option Bytes :=
  (s.generation g)[id]?.map fun item => item.content.drop offset

/-- A generation's ids, newest first. -/
def ids (s : MemoryShelf) (g : Nat) : List ItemId := (s.generation g).keys.reverse

/-- Removes one item and returns what it was. -/
def remove (s : MemoryShelf) (g : Nat) (id : ItemId) : Option StoredItem × MemoryShelf :=
  match s.items[g]? with
  | none => (none, s)
  | some items =>
    (items[id]?.map Item.stored, { s with items := s.items.insert g (items.erase id) })

def dropGeneration (s : MemoryShelf) (g : Nat) : MemoryShelf :=
  { s with items := s.items.erase g }

/-- The generations that hold anything. -/
def generations (s : MemoryShelf) : List Nat :=
  (s.items.toList.filter fun e => !e.2.isEmpty).map Prod.fst

/-- The content bytes a generation holds. -/
def bytes (s : MemoryShelf) (g : Nat) : Nat :=
  ((Map.vals (s.generation g)).map fun item => item.content.length).sum

end MemoryShelf

/-- The oldest item of generation `g` whose content key is `contentKey`. -/
def findIn (s : MemoryShelf) (g : Nat) (contentKey : Fin (2 ^ 48)) : Option ItemId :=
  (s.ids g).reverse.find? fun id => id.contentKey = contentKey

/-! ## What the methods do, in terms of `staging` and `generation` -/

namespace MemoryShelf

variable (s : MemoryShelf)

@[simp] theorem generation_empty (g : Nat) : MemoryShelf.empty.generation g = ∅ := by
  simp [MemoryShelf.empty, generation]

@[simp] theorem stageCreate_generation (u : UploadId) (g : Nat) :
    (s.stageCreate u).generation g = s.generation g := by
  unfold stageCreate
  split <;> rfl

/-- A staging place that is there keeps what it holds; a new one is empty. -/
theorem stageCreate_staging (u v : UploadId) :
    (s.stageCreate u).staging[v]? =
      if u = v then some (s.staging[u]?.getD ⟨[], none⟩) else s.staging[v]? := by
  unfold stageCreate
  split
  · rename_i staged h
    by_cases e : u = v
    · subst e
      rw [if_pos rfl, h]
      rfl
    · rw [if_neg e]
  · rename_i h
    show (s.staging.insert u ⟨[], none⟩)[v]? = _
    rw [Map.get_insert, h]
    rfl

/-- A staging place after a creation is the new one, or was there. -/
theorem staging_of_stageCreate {u v : UploadId} {staged : Staged}
    (h : (s.stageCreate v).staging[u]? = some staged) :
    v = u ∨ s.staging[u]? = some staged := by
  rw [stageCreate_staging] at h
  split at h
  · rename_i e
    exact .inl e
  · exact .inr h

@[simp] theorem stageRemove_generation (u : UploadId) (g : Nat) :
    (s.stageRemove u).generation g = s.generation g := rfl

theorem stageRemove_staging (u v : UploadId) :
    (s.stageRemove u).staging[v]? = if u = v then none else s.staging[v]? :=
  Map.get_erase _ _ _

@[simp] theorem write_generation [Crates] (u : UploadId) (content : Source)
    (announced : Nat) (hashed : Bool) (g : Nat) :
    (s.write u content announced hashed).2.generation g = s.generation g := by
  unfold write
  split <;> rfl

/-- A write touches its own staging place only, and never makes one. -/
theorem write_staging_of_ne [Crates] {u v : UploadId} (h : u ≠ v) (content : Source)
    (announced : Nat) (hashed : Bool) :
    (s.write u content announced hashed).2.staging[v]? = s.staging[v]? := by
  unfold write
  split
  · exact Map.get_insert_of_ne _ _ h
  · rfl

theorem write_staging_isSome [Crates] (u v : UploadId) (content : Source)
    (announced : Nat) (hashed : Bool) :
    (s.write u content announced hashed).2.staging[v]?.isSome = s.staging[v]?.isSome := by
  by_cases e : u = v
  · subst e
    unfold write
    split
    · rename_i h
      obtain ⟨staged, hs⟩ := Map.contains_iff_get.mp h
      rw [hs]
      show (s.staging.insert u _)[u]?.isSome = true
      rw [Map.get_insert_self]
      rfl
    · rfl
  · rw [s.write_staging_of_ne e]

/-- A put makes no staging place, and takes none away. -/
theorem write_staging_eq_none [Crates] (u v : UploadId) (content : Source)
    (announced : Nat) (hashed : Bool) :
    (s.write u content announced hashed).2.staging[v]? = none ↔ s.staging[v]? = none := by
  rw [← Option.isNone_iff_eq_none, ← Option.not_isSome, write_staging_isSome, Option.not_isSome,
    Option.isNone_iff_eq_none]

theorem dropGeneration_generation (g h : Nat) :
    (s.dropGeneration g).generation h = if g = h then ∅ else s.generation h := by
  show ((s.items.erase g)[h]?).getD ∅ = _
  rw [Map.get_erase]
  split <;> rfl

@[simp] theorem remove_staging (g : Nat) (id : ItemId) :
    (s.remove g id).2.staging = s.staging := by
  unfold remove
  split <;> rfl

theorem remove_answer (g : Nat) (id : ItemId) : (s.remove g id).1 = s.get g id := by
  unfold remove get generation
  cases s.items[g]? with
  | none =>
    rw [Option.getD_none, Std.ExtTreeMap.getElem?_empty]
    rfl
  | some items => rfl

theorem remove_generation (g h : Nat) (id : ItemId) :
    (s.remove g id).2.generation h =
      if g = h then (s.generation g).erase id else s.generation h := by
  unfold remove
  split
  · rename_i hg
    by_cases e : g = h
    · subst e
      rw [if_pos rfl, generation, hg, Option.getD_none,
        Map.erase_same Std.ExtTreeMap.getElem?_empty]
    · rw [if_neg e]
  · rename_i items hg
    show ((s.items.insert g (items.erase id))[h]?).getD ∅ = _
    rw [Map.get_insert]
    by_cases e : g = h
    · rw [if_pos e, if_pos e, generation, hg]
      rfl
    · rw [if_neg e, if_neg e]
      rfl

/-- Removing what is not there changes nothing. -/
theorem remove_of_get_eq_none {g : Nat} {id : ItemId} (h : s.get g id = none) :
    (s.remove g id).2 = s := by
  unfold remove
  split
  · rfl
  · rename_i items hg
    have hid : items[id]? = none := by
      rw [get, generation, hg] at h
      exact Option.map_eq_none_iff.mp h
    show { s with items := s.items.insert g (items.erase id) } = s
    rw [Map.erase_same hid, Map.insert_same hg]

/-- **What a publish does**: nothing without a staging place or onto an item that
exists; otherwise the staging place becomes the item. -/
theorem publish_cases (u : UploadId) (g : Nat) (id : ItemId) (envelope : Envelope) :
    (s.staging[u]? = none ∧ s.publish u g id envelope = (.error .notFound, s)) ∨
    (∃ staged, s.staging[u]? = some staged ∧ (∃ item, (s.generation g)[id]? = some item) ∧
      s.publish u g id envelope = (.ok false, s)) ∨
    (∃ staged s', s.staging[u]? = some staged ∧ (s.generation g)[id]? = none ∧
      s.publish u g id envelope = (.ok true, s') ∧
      s'.staging = s.staging.erase u ∧
      ∀ h, s'.generation h =
        if g = h then (s.generation g).insert id ⟨staged.content, envelope⟩
        else s.generation h) := by
  unfold publish
  split
  · rename_i h
    exact .inl ⟨h, rfl⟩
  · rename_i staged h
    split
    · rename_i hc
      exact .inr (.inl ⟨staged, h, Map.contains_iff_get.mp hc, rfl⟩)
    · rename_i hc
      refine .inr (.inr ⟨staged, _, h, Map.contains_eq_false_iff.mp (Bool.eq_false_iff.mpr hc),
        rfl, rfl, fun k => ?_⟩)
      show ((s.items.insert g _)[k]?).getD ∅ = _
      rw [Map.get_insert]
      split <;> rfl

/-- The ids of a generation are those of its items. -/
theorem mem_ids {g : Nat} {id : ItemId} :
    id ∈ s.ids g ↔ ∃ item, (s.generation g)[id]? = some item := by
  rw [ids, List.mem_reverse, Map.mem_keys_iff]

/-- A generation without ids is empty. -/
theorem ids_isEmpty_iff {g : Nat} : (s.ids g).isEmpty = true ↔ s.generation g = ∅ := by
  rw [List.isEmpty_iff, ids, List.reverse_eq_nil_iff, Std.ExtTreeMap.keys_eq_nil_iff]

theorem mem_staged {u : UploadId} : u ∈ s.staged ↔ ∃ staged, s.staging[u]? = some staged :=
  Map.mem_keys_iff

/-- The generations that hold anything are those that are not empty. -/
theorem mem_generations {g : Nat} : g ∈ s.generations ↔ s.generation g ≠ ∅ := by
  rw [generations, List.mem_map]
  constructor
  · rintro ⟨⟨h, items⟩, hmem, rfl⟩
    obtain ⟨hin, hne⟩ := List.mem_filter.mp hmem
    rw [generation, Map.mem_toList_iff.mp hin, Option.getD_some]
    rintro rfl
    simp at hne
  · intro hne
    cases hg : s.items[g]? with
    | none => exact absurd (by rw [generation, hg]; rfl) hne
    | some items =>
      rw [generation, hg, Option.getD_some] at hne
      refine ⟨(g, items), List.mem_filter.mpr ⟨Map.mem_toList_iff.mpr hg, ?_⟩, rfl⟩
      have hfalse : items.isEmpty = false := by
        rw [Bool.eq_false_iff]
        exact fun hi => hne (Std.ExtTreeMap.isEmpty_iff.mp hi)
      show (!items.isEmpty) = true
      rw [hfalse]
      rfl

/-- The bytes of a generation, as a weight. -/
theorem bytes_eq (g : Nat) :
    s.bytes g = Map.weigh (fun _ item => item.content.length) (s.generation g) :=
  Map.sum_vals _ _

theorem bytes_congr {s t : MemoryShelf} {g : Nat} (h : s.generation g = t.generation g) :
    s.bytes g = t.bytes g := by
  rw [bytes_eq, bytes_eq, h]

theorem bytes_of_empty {g : Nat} (h : s.generation g = ∅) : s.bytes g = 0 := by
  rw [bytes_eq, h, Map.weigh_empty]

end MemoryShelf

/-- Nothing is found exactly when no item of the generation has the content key. -/
theorem findIn_eq_none_iff {s : MemoryShelf} {g : Nat} {key : Fin (2 ^ 48)} :
    findIn s g key = none ↔
      ∀ (id : ItemId) (item : Item),
        (s.generation g)[id]? = some item → id.contentKey ≠ key := by
  rw [findIn, List.find?_eq_none]
  constructor
  · intro h id item hid
    have := h id (List.mem_reverse.mpr (s.mem_ids.mpr ⟨item, hid⟩))
    simpa using this
  · intro h id hid
    obtain ⟨item, hitem⟩ := s.mem_ids.mp (List.mem_reverse.mp hid)
    simpa using h id item hitem

/-- Where no item has the content key of `id`, there is none under `id`. -/
theorem get_of_findIn_eq_none {s : MemoryShelf} {g : Nat} {id : ItemId}
    (h : findIn s g id.contentKey = none) : (s.generation g)[id]? = none := by
  cases hitem : (s.generation g)[id]? with
  | none => rfl
  | some item => exact absurd rfl (findIn_eq_none_iff.mp h _ item hitem)

/-- What is found is an item of the generation with the content key. -/
theorem findIn_eq_some {s : MemoryShelf} {g : Nat} {key : Fin (2 ^ 48)} {id : ItemId}
    (h : findIn s g key = some id) :
    (∃ item, (s.generation g)[id]? = some item) ∧ id.contentKey = key := by
  rw [findIn] at h
  refine ⟨s.mem_ids.mp (List.mem_reverse.mp (List.mem_of_find?_eq_some h)), ?_⟩
  simpa using List.find?_some h

/-- Looking for content depends on the generation alone. -/
theorem findIn_congr {s t : MemoryShelf} {g : Nat} (h : s.generation g = t.generation g)
    (key : Fin (2 ^ 48)) : findIn s g key = findIn t g key := by
  rw [findIn, findIn, MemoryShelf.ids, MemoryShelf.ids, h]

end Passalong
