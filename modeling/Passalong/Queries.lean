import Passalong.Listing
import Passalong.Served

/-!
# Reads over any shelf (`workspace.rs`, `rewrite.rs`, `upload.rs`)

What `Engine::read` runs, as programs over the calls of the trait, and what they answer with
the shelf in memory (`Query.program_served`). No read changes anything, and its calls are in range
(`Query.program_inRange`).
-/

namespace Passalong

open Lib

/-- The reads of an engine, with their arguments. -/
inductive Query where
  | encryption
  | sessionView
  | itemIdsAfter (partition : Partition) (after : Option ItemId)
  | itemsAfter (partition : Partition) (after : Option ItemId)
  | resolveItem (input : String)
  | item (partition : Partition) (id : ItemId)
  | itemContentFrom (partition : Partition) (id : ItemId) (offset : Nat)
  | findByContentKey (contentKey : String)
  | stagedItemIds (caller : Caller)
  | stagedItem (caller : Caller) (id : ItemId)
  | stagedItemContentFrom (caller : Caller) (id : ItemId) (offset : Nat)
  | uploadState (caller : Caller) (upload : UploadId)
  | usedBytes
  | reservedBytes
  | pendingUploads
  deriving DecidableEq, Repr

/-- What a read answers when it succeeds. -/
inductive Fetched where
  | encryption (view : EncryptionView)
  | session (view : Option SessionView)
  | ids (ids : List ItemId)
  | items (items : List (ItemId × StoredItem))
  | resolved (resolved : Resolved)
  | item (item : Option StoredItem)
  | content (content : Option Bytes)
  | found (id : Option ItemId)
  | upload (state : UploadState)
  | count (n : Nat)
  deriving DecidableEq, Repr

/-- What a read answers with the shelf in memory. -/
def Query.answer (r : Rules) : Query → Except ApiError Fetched
  | .encryption => .ok (.encryption r.encryption)
  | .sessionView => .ok (.session r.sessionView)
  | .itemIdsAfter partition after => .ok (.ids (r.itemIdsAfter partition after))
  | .itemsAfter partition after => .ok (.items (r.itemsAfter partition after))
  | .resolveItem input => .ok (.resolved (r.resolveItem input))
  | .item partition id => .ok (.item (r.item partition id))
  | .itemContentFrom partition id offset => .ok (.content (r.itemContentFrom partition id offset))
  | .findByContentKey contentKey => .ok (.found (r.findByContentKey contentKey))
  | .stagedItemIds caller => (r.stagedItemIds caller).map .ids
  | .stagedItem caller id => (r.stagedItem caller id).map fun item => .item (some item)
  | .stagedItemContentFrom caller id offset =>
    (r.stagedItemContentFrom caller id offset).map fun content => .content (some content)
  | .uploadState caller upload => (r.uploadState caller upload).map .upload
  | .usedBytes => .ok (.count r.record.usedBytes)
  | .reservedBytes => .ok (.count (r.record.reservedBy r.now false))
  | .pendingUploads => .ok (.count r.record.tickets.size)

namespace Work

open Shelves

/-! ## The programs -/

def itemIds (w : Work) (partition : Partition) : ShelfProgram (List ItemId) :=
  match w.record.generationOf partition with
  | some g => ids g
  | none => return []

def itemIdsAfter (w : Work) (partition : Partition) (after : Option ItemId) :
    ShelfProgram (List ItemId) := do
  let here ← w.itemIds partition
  match after with
  | none => return here
  | some after => return here.filter fun id => after < id

def item (w : Work) (partition : Partition) (id : ItemId) : ShelfProgram (Option StoredItem) :=
  match w.record.generationOf partition with
  | some g => get g id
  | none => return none

/-- The items of some ids, one after another. -/
def eachItem (w : Work) (partition : Partition) :
    List ItemId → ShelfProgram (List (ItemId × StoredItem))
  | [] => return []
  | id :: rest => do
    let found ← w.item partition id
    let items ← w.eachItem partition rest
    -- an item deleted between the listing and the look is left out
    match found with
    | some item => return (id, item) :: items
    | none => return items

def itemsAfter (w : Work) (partition : Partition) (after : Option ItemId) :
    ShelfProgram (List (ItemId × StoredItem)) := do
  let here ← w.itemIdsAfter partition after
  w.eachItem partition here

def resolveItem (w : Work) (input : String) : ShelfProgram Resolved :=
  let typed := typedText input
  if !wellFormed typed then return .invalidPrefix
  else do
    let here ← w.itemIds .current
    match here.filter fun id => typed.isPrefixOf (id.sought typed) with
    | [] => return .notFound
    | [id] => return .id id
    | ids => return .ambiguous ids

def itemContentFrom (w : Work) (partition : Partition) (id : ItemId) (offset : Nat) :
    ShelfProgram (Option Bytes) :=
  match w.record.generationOf partition with
  | some g => openContentFrom g id offset
  | none => return none

def findByContentKey (w : Work) (contentKey : String) : ShelfProgram (Option ItemId) := do
  let here ← ids w.record.generation
  return here.reverse.find? fun id => id.contentKeyStr = contentKey

def stagedItemIds (w : Work) (caller : Caller) : ShelfProgram (List ItemId) := do
  let session ← Calls.check (w.record.heldSession caller)
  ids session.stagedGeneration

def stagedItem (w : Work) (caller : Caller) (id : ItemId) : ShelfProgram StoredItem := do
  let session ← Calls.check (w.record.heldSession caller)
  match ← get session.stagedGeneration id with
  | some item => return item
  | none => .stop .notFound

def stagedItemContentFrom (w : Work) (caller : Caller) (id : ItemId) (offset : Nat) :
    ShelfProgram Bytes := do
  let session ← Calls.check (w.record.heldSession caller)
  match ← openContentFrom session.stagedGeneration id offset with
  | some content => return content
  | none => .stop .notFound

/-- A read's own answer as one of the answers of all reads. -/
def fetching {α : Type} (f : α → Fetched) (p : ShelfProgram α) : ShelfProgram Fetched := do
  let a ← p
  return f a

end Work

/-- A read, over any shelf. -/
def Query.program (w : Work) : Query → ShelfProgram Fetched
  | .encryption => Work.fetching .encryption w.encryption
  | .sessionView => Work.fetching .session w.sessionView
  | .itemIdsAfter partition after => Work.fetching .ids (w.itemIdsAfter partition after)
  | .itemsAfter partition after => Work.fetching .items (w.itemsAfter partition after)
  | .resolveItem input => Work.fetching .resolved (w.resolveItem input)
  | .item partition id => Work.fetching .item (w.item partition id)
  | .itemContentFrom partition id offset =>
    Work.fetching .content (w.itemContentFrom partition id offset)
  | .findByContentKey contentKey => Work.fetching .found (w.findByContentKey contentKey)
  | .stagedItemIds caller => Work.fetching .ids (w.stagedItemIds caller)
  | .stagedItem caller id => Work.fetching (fun item => .item (some item)) (w.stagedItem caller id)
  | .stagedItemContentFrom caller id offset =>
    Work.fetching (fun content => .content (some content))
      (w.stagedItemContentFrom caller id offset)
  | .uploadState caller upload =>
    Work.fetching .upload (Calls.check ((w.on .empty).uploadState caller upload))
  | .usedBytes => return .count w.record.usedBytes
  | .reservedBytes => return .count (w.record.reservedBy w.now false)
  | .pendingUploads => return .count w.record.tickets.size

/-! ## With the shelf in memory -/

namespace Work

open Shelves

section

variable [Crates] (w : Work) (s : MemoryShelf)

theorem run_itemIds (partition : Partition) :
    (w.itemIds partition).run MemoryShelf.serve s = (.ok ((w.on s).itemIds partition), s) := by
  unfold itemIds Rules.itemIds
  dsimp only [on]
  cases w.record.generationOf partition <;> rfl

theorem run_itemIdsAfter (partition : Partition) (after : Option ItemId) :
    (w.itemIdsAfter partition after).run MemoryShelf.serve s =
      (.ok ((w.on s).itemIdsAfter partition after), s) := by
  unfold itemIdsAfter
  rw [Calls.run_bind, run_itemIds]
  cases after <;> rfl

theorem run_item (partition : Partition) (id : ItemId) :
    (w.item partition id).run MemoryShelf.serve s = (.ok ((w.on s).item partition id), s) := by
  unfold item Rules.item
  dsimp only [on]
  cases w.record.generationOf partition <;> rfl

theorem run_eachItem (partition : Partition) (here : List ItemId) :
    (w.eachItem partition here).run MemoryShelf.serve s =
      (.ok (here.filterMap fun id => ((w.on s).item partition id).map (Prod.mk id)), s) := by
  induction here with
  | nil => rfl
  | cons id rest ih =>
    unfold eachItem
    rw [Calls.run_bind, run_item, Calls.thread_ok, Calls.run_bind, ih, Calls.thread_ok,
      List.filterMap_cons]
    cases (w.on s).item partition id <;> rfl

theorem run_itemsAfter (partition : Partition) (after : Option ItemId) :
    (w.itemsAfter partition after).run MemoryShelf.serve s =
      (.ok ((w.on s).itemsAfter partition after), s) := by
  unfold itemsAfter
  rw [Calls.run_bind, run_itemIdsAfter, Calls.thread_ok, run_eachItem]
  rfl

theorem run_resolveItem (input : String) :
    (w.resolveItem input).run MemoryShelf.serve s = (.ok ((w.on s).resolveItem input), s) := by
  unfold resolveItem Rules.resolveItem
  dsimp only
  cases wellFormed (typedText input) with
  | false => rfl
  | true =>
    rw [if_neg (by decide), if_neg (by decide), Calls.run_bind, run_itemIds, Calls.thread_ok]
    generalize ((w.on s).itemIds .current).filter (fun id =>
      (typedText input).isPrefixOf (id.sought (typedText input))) = found
    rcases found with _ | ⟨id, _ | ⟨id', ids⟩⟩ <;> rfl

theorem run_itemContentFrom (partition : Partition) (id : ItemId) (offset : Nat) :
    (w.itemContentFrom partition id offset).run MemoryShelf.serve s =
      (.ok ((w.on s).itemContentFrom partition id offset), s) := by
  unfold itemContentFrom Rules.itemContentFrom
  dsimp only [on]
  cases w.record.generationOf partition <;> rfl

theorem run_stagedItemIds (caller : Caller) :
    (w.stagedItemIds caller).run MemoryShelf.serve s = ((w.on s).stagedItemIds caller, s) := by
  unfold stagedItemIds Rules.stagedItemIds
  dsimp only [on]
  cases w.record.heldSession caller <;> rfl

theorem run_stagedItem (caller : Caller) (id : ItemId) :
    (w.stagedItem caller id).run MemoryShelf.serve s = ((w.on s).stagedItem caller id, s) := by
  unfold stagedItem Rules.stagedItem
  dsimp only [on]
  cases w.record.heldSession caller with
  | error e => rfl
  | ok session =>
    show Calls.thread (.ok (s.get session.stagedGeneration id), s) _ = _
    dsimp only [Calls.thread_ok]
    cases s.get session.stagedGeneration id <;> rfl

theorem run_stagedItemContentFrom (caller : Caller) (id : ItemId) (offset : Nat) :
    (w.stagedItemContentFrom caller id offset).run MemoryShelf.serve s =
      ((w.on s).stagedItemContentFrom caller id offset, s) := by
  unfold stagedItemContentFrom Rules.stagedItemContentFrom
  dsimp only [on]
  cases w.record.heldSession caller with
  | error e => rfl
  | ok session =>
    show Calls.thread (.ok (s.openContentFrom session.stagedGeneration id offset), s) _ = _
    dsimp only [Calls.thread_ok]
    cases s.openContentFrom session.stagedGeneration id offset <;> rfl

variable {w s} in
theorem run_fetching {α : Type} {f : α → Fetched} {p : ShelfProgram α} {answer : Except ApiError α}
    (h : p.run MemoryShelf.serve s = (answer, s)) :
    (fetching f p).run MemoryShelf.serve s = (answer.map f, s) := by
  unfold fetching
  rw [Calls.run_bind, h]
  cases answer <;> rfl

end

end Work

section
variable [Crates]

/-- **With the shelf in memory a read is answered as its rule says**, and changes nothing. -/
theorem Query.program_served (q : Query) (w : Work) (s : MemoryShelf) :
    (q.program w).run MemoryShelf.serve s = (q.answer (w.on s), s) := by
  cases q with
  | encryption => exact Work.run_fetching (w.run_encryption s)
  | sessionView => exact Work.run_fetching (w.run_sessionView s)
  | itemIdsAfter => exact Work.run_fetching (w.run_itemIdsAfter s _ _)
  | itemsAfter => exact Work.run_fetching (w.run_itemsAfter s _ _)
  | resolveItem => exact Work.run_fetching (w.run_resolveItem s _)
  | item => exact Work.run_fetching (w.run_item s _ _)
  | itemContentFrom => exact Work.run_fetching (w.run_itemContentFrom s _ _ _)
  | findByContentKey => rfl
  | stagedItemIds => exact Work.run_fetching (w.run_stagedItemIds s _)
  | stagedItem =>
    exact Work.run_fetching (f := fun item => .item (some item)) (w.run_stagedItem s _ _)
  | stagedItemContentFrom =>
    exact Work.run_fetching (f := fun content => .content (some content))
      (w.run_stagedItemContentFrom s _ _ _)
  | uploadState => exact Work.run_fetching (Calls.run_check _ _ _)
  | usedBytes => rfl
  | reservedBytes => rfl
  | pendingUploads => rfl

end

/-! ## Calls in range -/

/-- The offset a read asks for can be sought. -/
def Query.InRange : Query → Prop
  | .itemContentFrom _ _ offset | .stagedItemContentFrom _ _ offset => offset < 2 ^ 63
  | _ => True

namespace Work

variable (w : Work)

theorem all_fetching {α : Type} {P : ShelfCall → Prop} {f : α → Fetched} {p : ShelfProgram α}
    (h : p.All P) : (fetching f p).All P :=
  h.bind fun _ => Calls.all_pure _

theorem looks_itemIds (partition : Partition) : (w.itemIds partition).All Looks := by
  unfold itemIds
  cases w.record.generationOf partition with
  | none => exact Calls.all_pure _
  | some g => exact Calls.all_ask trivial

theorem looks_itemIdsAfter (partition : Partition) (after : Option ItemId) :
    (w.itemIdsAfter partition after).All Looks := by
  refine (w.looks_itemIds partition).bind fun here => ?_
  cases after <;> exact Calls.all_pure _

theorem looks_item (partition : Partition) (id : ItemId) : (w.item partition id).All Looks := by
  unfold item
  cases w.record.generationOf partition with
  | none => exact Calls.all_pure _
  | some g => exact Calls.all_ask trivial

theorem looks_eachItem (partition : Partition) (here : List ItemId) :
    (w.eachItem partition here).All Looks := by
  induction here with
  | nil => exact Calls.all_pure _
  | cons id rest ih =>
    refine (w.looks_item partition id).bind fun found => ih.bind fun items => ?_
    cases found <;> exact Calls.all_pure _

theorem looks_resolveItem (input : String) : (w.resolveItem input).All Looks := by
  refine Calls.all_ite (Calls.all_pure _) ((w.looks_itemIds .current).bind fun here => ?_)
  split <;> exact Calls.all_pure _

theorem looks_stagedItem (caller : Caller) (id : ItemId) : (w.stagedItem caller id).All Looks := by
  refine Calls.All.check_bind fun session _ => (Calls.all_ask trivial).bind fun found => ?_
  cases found with
  | none => exact Calls.all_stop _
  | some item => exact Calls.all_pure _

theorem inRange_itemContentFrom (partition : Partition) (id : ItemId) {offset : Nat}
    (h : offset < 2 ^ 63) : (w.itemContentFrom partition id offset).All ShelfCall.InRange := by
  unfold itemContentFrom
  cases w.record.generationOf partition with
  | none => exact Calls.all_pure _
  | some g => exact Calls.all_ask h

theorem inRange_stagedItemContentFrom (caller : Caller) (id : ItemId) {offset : Nat}
    (h : offset < 2 ^ 63) :
    (w.stagedItemContentFrom caller id offset).All ShelfCall.InRange := by
  refine Calls.All.check_bind fun session _ => ?_
  have hcall : (ShelfCall.openContentFrom session.stagedGeneration id offset).InRange := h
  refine (Calls.all_ask hcall).bind fun found => ?_
  cases found with
  | none => exact Calls.all_stop _
  | some content => exact Calls.all_pure _

end Work

/-- **The calls of a read are in range.** -/
theorem Query.program_inRange {q : Query} (h : q.InRange) (w : Work) :
    (q.program w).All ShelfCall.InRange := by
  cases q with
  | encryption =>
    exact Work.all_fetching
      (Work.looks_inRange ((Work.looks_sessionView w).bind fun _ => Calls.all_pure _))
  | sessionView => exact Work.all_fetching (Work.looks_inRange (Work.looks_sessionView w))
  | itemIdsAfter => exact Work.all_fetching (Work.looks_inRange (w.looks_itemIdsAfter _ _))
  | itemsAfter =>
    exact Work.all_fetching (Work.looks_inRange
      ((w.looks_itemIdsAfter _ _).bind fun here => w.looks_eachItem _ here))
  | resolveItem => exact Work.all_fetching (Work.looks_inRange (w.looks_resolveItem _))
  | item => exact Work.all_fetching (Work.looks_inRange (w.looks_item _ _))
  | itemContentFrom => exact Work.all_fetching (w.inRange_itemContentFrom _ _ h)
  | findByContentKey =>
    exact Work.all_fetching ((Calls.all_ask trivial).bind fun _ => Calls.all_pure _)
  | stagedItemIds =>
    exact Work.all_fetching (Calls.All.check_bind fun _ _ => Calls.all_ask trivial)
  | stagedItem =>
    exact Work.all_fetching (f := fun item => .item (some item))
      (Work.looks_inRange (w.looks_stagedItem _ _))
  | stagedItemContentFrom =>
    exact Work.all_fetching (f := fun content => .content (some content))
      (w.inRange_stagedItemContentFrom _ _ h)
  | uploadState => exact Work.all_fetching (Calls.all_check _)
  | usedBytes => exact Calls.all_pure _
  | reservedBytes => exact Calls.all_pure _
  | pendingUploads => exact Calls.all_pure _

end Passalong
