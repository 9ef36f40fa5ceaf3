import Passalong.Cleanups
import Passalong.Texts

/-!
# Reading an item's content (`handlers/items.rs`, `bridge.rs`)

`getItemContent` takes two looks at the workspace, each over a copy of the record
that it loads first: one at the item, for its size and the range, and one at its
content. Any events may come between the loads and the looks.

- `oneRange` reads the `Range` header, given the size the first look saw.
- `streamOut` sends so many bytes of what the second look opened.
- `Served` is what a client gets. It is one item's (`served_run`) when the second
  look found an item of the size the first one saw, one that ends before what is
  to be sent, or none; which it does if nothing was deleted and no generation was
  switched meanwhile (`sameSize_run`).

An opened content is what the item held when it was opened: a file that was
removed since is read on.
-/

namespace Passalong

open Lib

/-! ## Ranges -/

/-- What a `Range` header means for content of so many bytes. -/
inductive Ranged where
  /-- The whole content, which is also the answer to what is not understood. -/
  | whole
  /-- Inclusive offsets. -/
  | part (first last : Nat)
  /-- The range lies beyond the content. -/
  | beyond
  deriving DecidableEq, Repr

/-- The offsets one range spec names, if it is understood. -/
def rangeOf (first last : List Char) (size : Nat) : Option (Nat × Nat) :=
  match parseU64 (trim first), parseU64 (trim last) with
  | some a, some b => if a ≤ b then some (a, min b (size - 1)) else none
  | some a, none => if trim last = [] then some (a, size - 1) else none
  -- the last `n` bytes
  | none, some n => if trim first = [] ∧ 0 < n then some (size - n, size - 1) else none
  | none, none => none

/-- One range of `bytes=…`. -/
def oneRange (header : Option (List Char)) (size : Nat) : Ranged :=
  match header.bind fun value => (trim value).dropPrefix? "bytes=".toList with
  | none => .whole
  | some spec =>
    if ',' ∈ spec then .whole
    else
      match splitOnce '-' (trim spec) with
      | none => .whole
      | some (first, last) =>
        match rangeOf first last size with
        | none => .whole
        | some range => if size = 0 ∨ size ≤ range.1 then .beyond else .part range.1 range.2

example : (oneRange (some "bytes=-2".toList) 10, oneRange (some "bytes=8-99".toList) 10,
    oneRange (some "bytes=0-1,4-5".toList) 10, oneRange (some "bytes=10-".toList) 10) =
    (.part 8 9, .part 8 9, .whole, .beyond) := by
  decide +kernel

/-- Each way to name a range ends it at the last byte or before. -/
theorem rangeOf_bounds {first last : List Char} {size : Nat} {range : Nat × Nat}
    (h : rangeOf first last size = some range) (hstart : range.1 < size) :
    range.1 ≤ range.2 ∧ range.2 < size := by
  unfold rangeOf at h
  split at h
  · split at h
    · cases h
      simp only at hstart ⊢
      omega
    · cases h
  · split at h
    · cases h
      simp only at hstart ⊢
      omega
    · cases h
  · split at h
    · cases h
      simp only at hstart ⊢
      omega
    · cases h
  · cases h

/-- A range that is understood lies within the content. -/
theorem oneRange_part {header : Option (List Char)} {size first last : Nat}
    (h : oneRange header size = .part first last) : first ≤ last ∧ last < size := by
  unfold oneRange at h
  split at h
  · cases h
  split at h
  · cases h
  split at h
  · cases h
  split at h
  · cases h
  rename_i range hrange
  split at h
  · cases h
  rename_i hin
  obtain ⟨rfl, rfl⟩ := Ranged.part.inj h
  exact rangeOf_bounds hrange (by omega)

/-! ## Sending -/

/-- What one `read` of an opened content gives. -/
inductive Took where
  /-- Some bytes, at least one and at most so many more, if there are any. -/
  | bytes (more : Nat)
  | interrupted
  | failed
  deriving DecidableEq, Repr

/-- How much is read at a time. -/
def pieceSize : Nat := 64 * 1024

/-- Sends exactly `left` bytes of `content`: the body, if it ends without an error.
With no read left to make, it is still being sent. -/
def streamOut : Bytes → Nat → List Took → Option Bytes
  | _, 0, _ => some []
  | _, _ + 1, [] => none
  | content, left + 1, .interrupted :: reads => streamOut content (left + 1) reads
  | _, _ + 1, .failed :: _ => none
  | content, left + 1, .bytes more :: reads =>
    let piece := content.take (min (more + 1) (min (left + 1) pieceSize))
    -- shorter than its size said: the item changed under us
    if piece = [] then none
    else
      (streamOut (content.drop piece.length) (left + 1 - piece.length) reads).map (piece ++ ·)

/-- A body that ends without an error is the start of the content, of the length asked
for. -/
theorem streamOut_eq {content body : Bytes} {left : Nat} {reads : List Took}
    (h : streamOut content left reads = some body) :
    body = content.take left ∧ body.length = left := by
  induction reads generalizing content left body with
  | nil =>
    cases left with
    | zero =>
      cases h
      exact ⟨rfl, rfl⟩
    | succ left => cases h
  | cons read reads ih =>
    cases left with
    | zero =>
      cases h
      exact ⟨rfl, rfl⟩
    | succ left =>
      cases read with
      | interrupted => exact ih h
      | failed => cases h
      | bytes more =>
        simp only [streamOut] at h
        split at h
        · cases h
        rename_i hpiece
        obtain ⟨rest, hrest, rfl⟩ := Option.map_eq_some_iff.mp h
        obtain ⟨heq, hlength⟩ := ih hrest
        generalize hp : content.take (min (more + 1) (min (left + 1) pieceSize)) = piece at *
        have hlen : piece.length ≤ left + 1 := by
          rw [← hp, List.length_take]
          omega
        have htake : piece = content.take piece.length := by
          rw [← hp, List.length_take]
          simp
        constructor
        · calc piece ++ rest
              = content.take piece.length ++
                  (content.drop piece.length).take (left + 1 - piece.length) := by
                rw [← htake, heq]
            _ = content.take (piece.length + (left + 1 - piece.length)) :=
                List.take_add.symm
            _ = content.take (left + 1) := by rw [Nat.add_sub_cancel' hlen]
        · rw [List.length_append, hlength]
          omega

/-! ## The two looks -/

/-- Which items `getItemContent` is asked about. -/
inductive Which where
  | current
  | plain
  | staged
  deriving DecidableEq, Repr

/-- A `getItemContent` request. -/
structure Asked where
  caller : Caller
  which : Which
  id : ItemId
  /-- The `Range` header. -/
  header : Option (List Char)
  deriving DecidableEq, Repr

namespace Rules

/-- `getItem`: the envelope and the size. -/
def item (r : Rules) (partition : Partition) (id : ItemId) : Option StoredItem :=
  match r.record.generationOf partition with
  | some g => r.shelf.get g id
  | none => none

/-- `getItemContent` with `Range`: the bytes from `offset` on. -/
def itemContentFrom (r : Rules) (partition : Partition) (id : ItemId) (offset : Nat) :
    Option Bytes :=
  match r.record.generationOf partition with
  | some g => r.shelf.openContentFrom g id offset
  | none => none

/-- `getItemContent` with `partition=staged` and `Range`. -/
def stagedItemContentFrom (r : Rules) (caller : Caller) (id : ItemId) (offset : Nat) :
    Except ApiError Bytes :=
  match r.record.heldSession caller with
  | .error e => .error e
  | .ok session =>
    match r.shelf.openContentFrom session.stagedGeneration id offset with
    | some content => .ok content
    | none => .error .notFound

/-- The first look. -/
def look (r : Rules) (asked : Asked) : Except ApiError StoredItem :=
  match asked.which with
  | .current => (r.item .current asked.id).elim (.error .notFound) .ok
  | .plain => (r.item .plain asked.id).elim (.error .notFound) .ok
  | .staged => r.stagedItem asked.caller asked.id

/-- The second look. -/
def openFrom (r : Rules) (asked : Asked) (first : Nat) : Except ApiError Bytes :=
  match asked.which with
  | .current => (r.itemContentFrom .current asked.id first).elim (.error .notFound) .ok
  | .plain => (r.itemContentFrom .plain asked.id first).elim (.error .notFound) .ok
  | .staged => r.stagedItemContentFrom asked.caller asked.id first

/-- The generation a request is about. -/
def generationAsked (r : Rules) (asked : Asked) : Option Nat :=
  match asked.which with
  | .current => r.record.generationOf .current
  | .plain => r.record.generationOf .plain
  | .staged => (r.record.heldSession asked.caller).toOption.map Session.stagedGeneration

/-- The item a request is about. -/
def itemAsked (r : Rules) (asked : Asked) : Option Item :=
  (r.generationAsked asked).bind fun g => (r.shelf.generation g)[asked.id]?

/-- The first look sees that item. -/
theorem look_eq (r : Rules) (asked : Asked) :
    (r.look asked).toOption = (r.itemAsked asked).map Item.stored := by
  have hpartition : ∀ partition, (r.item partition asked.id) =
      ((r.record.generationOf partition).bind fun g =>
        (r.shelf.generation g)[asked.id]?).map Item.stored := by
    intro partition
    unfold item
    cases r.record.generationOf partition <;> rfl
  have helim : ∀ o : Option StoredItem,
      (o.elim (.error .notFound) .ok : Except ApiError StoredItem).toOption = o := by
    intro o
    cases o <;> rfl
  unfold look itemAsked generationAsked
  split
  · rw [helim, hpartition]
  · rw [helim, hpartition]
  · unfold stagedItem MemoryShelf.get
    cases r.record.heldSession asked.caller with
    | error e => rfl
    | ok session =>
      cases hget : (r.shelf.generation session.stagedGeneration)[asked.id]? <;>
        simp [Except.toOption, hget]

/-- The second look opens its content. -/
theorem openFrom_eq (r : Rules) (asked : Asked) (first : Nat) :
    (r.openFrom asked first).toOption =
      (r.itemAsked asked).map fun item => item.content.drop first := by
  have hpartition : ∀ partition, (r.itemContentFrom partition asked.id first) =
      ((r.record.generationOf partition).bind fun g =>
        (r.shelf.generation g)[asked.id]?).map fun item => item.content.drop first := by
    intro partition
    unfold itemContentFrom
    cases r.record.generationOf partition <;> rfl
  have helim : ∀ o : Option Bytes,
      (o.elim (.error .notFound) .ok : Except ApiError Bytes).toOption = o := by
    intro o
    cases o <;> rfl
  unfold openFrom itemAsked generationAsked
  split
  · rw [helim, hpartition]
  · rw [helim, hpartition]
  · unfold stagedItemContentFrom MemoryShelf.openContentFrom
    cases r.record.heldSession asked.caller with
    | error e => rfl
    | ok session =>
      cases hget : (r.shelf.generation session.stagedGeneration)[asked.id]? <;>
        simp [Except.toOption, hget]

end Rules

/-! ## The answer -/

/-- What the two looks come to. -/
inductive Opened where
  /-- 416, with the size. -/
  | unsatisfiable (size : Nat)
  /-- A reader, the size, the range, and how many bytes to send. -/
  | content (reader : Bytes) (size : Nat) (range : Option (Nat × Nat)) (length : Nat)
  deriving DecidableEq, Repr

/-- `get_item_content`, up to the sending: the first look is over `r₁` and the second
over `r₂`. -/
def getItemContent (r₁ r₂ : Rules) (asked : Asked) : Except ApiError Opened :=
  match r₁.look asked with
  | .error e => .error e
  | .ok item =>
    let opened (range : Option (Nat × Nat)) (first last : Nat) : Except ApiError Opened :=
      match r₂.openFrom asked first with
      | .error e => .error e
      | .ok reader =>
        .ok (.content reader item.size range (if item.size = 0 then 0 else last - first + 1))
    match oneRange asked.header item.size with
    | .beyond => .ok (.unsatisfiable item.size)
    | .part first last => opened (some (first, last)) first last
    | .whole => opened none 0 (item.size - 1)

/-- What a client is answered. -/
structure Served where
  /-- 206 and not 200: `Content-Range`, as first byte, last byte and size. -/
  contentRange : Option (Nat × Nat × Nat)
  contentLength : Nat
  /-- The body, once it ended without an error. -/
  body : Option Bytes
  deriving DecidableEq, Repr

/-- `get_item_content`, with what the reads of the opened content give. -/
def served (reads : List Took) : Opened → Option Served
  | .unsatisfiable _ => none
  | .content reader size range length => some
    { contentRange := range.map fun r => (r.1, r.2, size)
      contentLength := length
      body := if length = 0 then some [] else streamOut reader length reads }

/-- An answer is that of one item: it announces the item's size, and the body is the
range that was asked for, of that item's content. -/
def Served.IsOf (s : Served) (header : Option (List Char)) (content body : Bytes) : Prop :=
  match oneRange header content.length with
  | .beyond => False
  | .whole => s.contentRange = none ∧ s.contentLength = content.length ∧ body = content
  | .part first last =>
    s.contentRange = some (first, last, content.length) ∧
      s.contentLength = last - first + 1 ∧
      body = (content.drop first).take (last - first + 1) ∧
      body.length = last - first + 1

instance (s : Served) (header : Option (List Char)) (content body : Bytes) :
    Decidable (s.IsOf header content body) :=
  match hrange : oneRange header content.length with
  | .beyond => .isFalse (by simp [Served.IsOf, hrange])
  | .whole =>
    decidable_of_iff
      (s.contentRange = none ∧ s.contentLength = content.length ∧ body = content)
      (by simp [Served.IsOf, hrange])
  | .part first last =>
    decidable_of_iff
      (s.contentRange = some (first, last, content.length) ∧
        s.contentLength = last - first + 1 ∧
        body = (content.drop first).take (last - first + 1) ∧
        body.length = last - first + 1)
      (by simp [Served.IsOf, hrange])

/-- Whether content of `found` bytes ends before what is to be sent of `measured` ones. The
body then ends with an error. -/
def Ranged.EndsEarly (measured found : Nat) : Ranged → Prop
  | .whole => found < measured
  | .part _ last => found ≤ last
  | .beyond => True

/-- Whether the second look finds as much as the first one measured, too little to send, or
nothing. -/
def SameSize (r₁ r₂ : Rules) (asked : Asked) : Prop :=
  ∀ item₁ item₂, r₁.itemAsked asked = some item₁ → r₂.itemAsked asked = some item₂ →
    item₂.content.length = item₁.content.length ∨
      (oneRange asked.header item₁.content.length).EndsEarly item₁.content.length
        item₂.content.length

/-- What was opened: the content of the item of the second look, and the size of that of
the first. -/
theorem getItemContent_content {r₁ r₂ : Rules} {asked : Asked} {reader : Bytes}
    {size length : Nat} {range : Option (Nat × Nat)}
    (h : getItemContent r₁ r₂ asked = .ok (.content reader size range length)) :
    ∃ item₁ item₂, r₁.itemAsked asked = some item₁ ∧ r₂.itemAsked asked = some item₂ ∧
      size = item₁.content.length ∧
      ((oneRange asked.header size = .whole ∧ range = none ∧ reader = item₂.content ∧
          length = size) ∨
        ∃ first last, oneRange asked.header size = .part first last ∧
          range = some (first, last) ∧ reader = item₂.content.drop first ∧
          length = last - first + 1) := by
  have hopened : ∀ {first : Nat}, r₂.openFrom asked first = .ok reader →
      ∃ item₂, r₂.itemAsked asked = some item₂ ∧ reader = item₂.content.drop first := by
    intro first hopen
    have heq := r₂.openFrom_eq asked first
    rw [hopen] at heq
    obtain ⟨item₂, hitem₂, hreader⟩ := Option.map_eq_some_iff.mp heq.symm
    exact ⟨item₂, hitem₂, hreader.symm⟩
  unfold getItemContent at h
  split at h
  · cases h
  rename_i seen hlook
  have heq := r₁.look_eq asked
  rw [hlook] at heq
  obtain ⟨item₁, hitem₁, hseen⟩ := Option.map_eq_some_iff.mp heq.symm
  have hsize : seen.size = item₁.content.length := by
    rw [← hseen]
    rfl
  simp only at h
  split at h
  · cases h
  · rename_i first last hrange
    split at h
    · cases h
    rename_i content hopen
    obtain ⟨rfl, rfl, rfl, rfl⟩ := Opened.content.inj (Except.ok.inj h)
    obtain ⟨item₂, hitem₂, hreader⟩ := hopened hopen
    -- a range lies within the content, which is then not empty
    have hin := oneRange_part hrange
    refine ⟨item₁, item₂, hitem₁, hitem₂, hsize, .inr ⟨first, last, hrange, rfl, hreader, ?_⟩⟩
    rw [if_neg (by omega)]
  · rename_i hrange
    split at h
    · cases h
    rename_i content hopen
    obtain ⟨rfl, rfl, rfl, rfl⟩ := Opened.content.inj (Except.ok.inj h)
    obtain ⟨item₂, hitem₂, hreader⟩ := hopened hopen
    refine ⟨item₁, item₂, hitem₁, hitem₂, hsize, .inl ⟨hrange, rfl, hreader, ?_⟩⟩
    split <;> omega

/-- Two looks that see one item see as much. -/
theorem SameSize.of_eq {r₁ r₂ : Rules} {asked : Asked}
    (h : ∀ item₁ item₂, r₁.itemAsked asked = some item₁ → r₂.itemAsked asked = some item₂ →
      item₂ = item₁) : SameSize r₁ r₂ asked := by
  intro item₁ item₂ h₁ h₂
  rw [h item₁ item₂ h₁ h₂]
  exact .inl rfl

/-- **An answer is one item's**, if the two looks see items of one size, or the second one
too little to send. -/
theorem served_isOf {r₁ r₂ : Rules} {asked : Asked} {reads : List Took} {opened : Opened}
    {s : Served} {body : Bytes} (hsame : SameSize r₁ r₂ asked)
    (h : getItemContent r₁ r₂ asked = .ok opened) (hserved : served reads opened = some s)
    (hbody : s.body = some body) :
    ∃ item, r₂.itemAsked asked = some item ∧ s.IsOf asked.header item.content body := by
  cases opened with
  | unsatisfiable size => cases hserved
  | content reader size range length =>
    obtain ⟨item₁, item₂, hitem₁, hitem₂, hsize, hranged⟩ := getItemContent_content h
    refine ⟨item₂, hitem₂, ?_⟩
    cases hserved
    -- what is sent is the start of what was opened
    have hsent : body = reader.take length ∧ body.length = length := by
      simp only at hbody
      split at hbody
      · rename_i hzero
        cases hbody
        rw [hzero]
        exact ⟨rfl, rfl⟩
      · exact streamOut_eq hbody
    have hsame' : item₂.content.length = item₁.content.length := by
      rcases hsame item₁ item₂ hitem₁ hitem₂ with heq | hearly
      · exact heq
      -- what ends early is not sent to its end
      exfalso
      have hle : length ≤ reader.length := by
        have hlength := congrArg List.length hsent.1
        rw [List.length_take] at hlength
        omega
      rw [← hsize] at hearly
      rcases hranged with ⟨hrange, -, hreader, hlength⟩ | ⟨first, last, hrange, -, hreader, hlength⟩
      · rw [hrange] at hearly
        have hshort : item₂.content.length < size := hearly
        rw [hreader] at hle
        omega
      · rw [hrange] at hearly
        have hshort : item₂.content.length ≤ last := hearly
        have hin := oneRange_part hrange
        rw [hreader, List.length_drop] at hle
        omega
    unfold Served.IsOf
    rw [hsame', ← hsize]
    rcases hranged with ⟨hrange, rfl, rfl, rfl⟩ | ⟨first, last, hrange, rfl, rfl, rfl⟩
    · rw [hrange]
      refine ⟨rfl, rfl, ?_⟩
      rw [hsent.1, hsize, ← hsame', List.take_length]
    · rw [hrange]
      exact ⟨rfl, rfl, hsent.1, hsent.2⟩

/-! ## Reads in a run -/

/-- A workspace's events around the four steps of a read: the two loads of the record,
and the looks that follow them. -/
structure Interleaving where
  beforeLoad : List Event
  beforeLook : List Event
  beforeReload : List Event
  beforeOpen : List Event

/-- Events that can move the pointer to the current generation, or take an item from
it. -/
def Event.disturbs (id : ItemId) : Event → Bool
  | .request _ (.freshStart ..) | .request _ (.commitRewrite ..) => true
  | .request _ (.deleteItem _ _ id' _) | .cut _ (.deleteItem _ _ id' _) _ => id' = id
  | _ => false

section
variable [Crates]

/-- The pointer to the current generation is moved by a fresh start or the commit of a
rewrite only. -/
theorem Change.generation_eq {r : Rules} {op : Op} {a : Answer} {rec : WorkspaceRecord}
    {shelf : MemoryShelf} {after : List Cleanup} (h : Change r op a rec shelf after)
    {id : ItemId} {call : Call} (hquiet : (Event.request call op).disturbs id = false) :
    rec.generation = r.record.generation := by
  cases h with
  | setAside _ => cases hquiet
  | switched _ _ _ _ _ => cases hquiet
  | _ => rfl

namespace World

variable {limits : Limits} {w w' : World} {e : Event}

/-- The rules over a copy of the record that was loaded before. -/
def reading (w : World) (limits : Limits) (call : Call) (loaded : WorkspaceRecord) : Rules :=
  { w.rules limits call with record := loaded }

/-- What the first look of a read works on. -/
def firstLook (limits : Limits) (call : Call) (i : Interleaving) : Rules :=
  let loaded := initial.run limits i.beforeLoad
  (loaded.run limits i.beforeLook).reading limits call loaded.record

/-- What the second look works on. -/
def secondLook (limits : Limits) (call : Call) (i : Interleaving) : Rules :=
  let loaded := initial.run limits (i.beforeLoad ++ i.beforeLook ++ i.beforeReload)
  (loaded.run limits i.beforeOpen).reading limits call loaded.record

/-- **No torn reads.** In every run around a read, if the second look finds an item of
the size the first one saw, one that ends before what is to be sent, or none, then an
answer whose body ends without an error is that of one item: the one that was there when
the content was opened. -/
theorem served_run (limits : Limits) (call : Call) (i : Interleaving) (asked : Asked)
    (reads : List Took) (opened : Opened) (s : Served) (body : Bytes)
    (hsame : SameSize (firstLook limits call i) (secondLook limits call i) asked)
    (hread : getItemContent (firstLook limits call i) (secondLook limits call i) asked =
      .ok opened)
    (hserved : served reads opened = some s) (hbody : s.body = some body) :
    ∃ item, (secondLook limits call i).itemAsked asked = some item ∧
      s.IsOf asked.header item.content body :=
  served_isOf hsame hread hserved hbody

theorem Step.generation_eq (h : Step limits w e w') {id : ItemId}
    (hquiet : e.disturbs id = false) : w'.record.generation = w.record.generation := by
  cases h with
  | done _ hchange => exact hchange.generation_eq hquiet
  | _ => rfl

/-- An item of the current generation stays through an event that does not disturb
it. -/
theorem Step.keeps_current (hl : w.Laid) (h : Step limits w e w') {id : ItemId} {item : Item}
    (hquiet : e.disturbs id = false)
    (hitem : (w.shelf.generation w.record.generation)[id]? = some item) :
    w'.record.generation = w.record.generation ∧
      (w'.shelf.generation w'.record.generation)[id]? = some item := by
  have hgeneration := h.generation_eq hquiet
  refine ⟨hgeneration, ?_⟩
  rw [hgeneration]
  by_contra hgone
  obtain ⟨call, caller, partition, expected, hruns, -⟩ :=
    spares_items hl h (.inl List.mem_cons_self) hitem hgone
  rcases hruns with rfl | ⟨steps, rfl⟩
  · simp [Event.disturbs] at hquiet
  · simp [Event.disturbs] at hquiet

/-- So through every run that does not. -/
theorem keeps_current_run (hl : w.Laid) {id : ItemId} {item : Item} {es : List Event}
    (hquiet : ∀ e ∈ es, e.disturbs id = false)
    (hitem : (w.shelf.generation w.record.generation)[id]? = some item) :
    (w.run limits es).record.generation = w.record.generation ∧
      ((w.run limits es).shelf.generation (w.run limits es).record.generation)[id]? =
        some item := by
  refine (Runs.invariant (exec limits) (P := fun _ e => e.disturbs id = false)
    (I := fun v => v.Laid ∧ v.record.generation = w.record.generation ∧
      (v.shelf.generation v.record.generation)[id]? = some item) ?_ ⟨hl, rfl, hitem⟩
    (Runs.along_of_forall _ hquiet)).2
  rintro v e ⟨hlaid, hgeneration, hitem⟩ he
  obtain ⟨hsame, hkept⟩ := (v.exec_step limits e).keeps_current hlaid he hitem
  exact ⟨hlaid.step (v.exec_step limits e), hsame.trans hgeneration, hkept⟩

/-- Nor does such a run move the pointer. -/
theorem keeps_generation_run {id : ItemId} {es : List Event}
    (hquiet : ∀ e ∈ es, e.disturbs id = false) :
    (w.run limits es).record.generation = w.record.generation := by
  refine Runs.invariant (exec limits) (P := fun _ e => e.disturbs id = false)
    (I := fun v => v.record.generation = w.record.generation) ?_ rfl
    (Runs.along_of_forall _ hquiet)
  intro v e hv he
  exact ((v.exec_step limits e).generation_eq he).trans hv

/-- **A read that nothing disturbs sees one item twice.** -/
theorem sameSize_run (limits : Limits) (call : Call) (i : Interleaving) (asked : Asked)
    (hwhich : asked.which = .current)
    (hquiet : ∀ e ∈ i.beforeLook ++ (i.beforeReload ++ i.beforeOpen),
      e.disturbs asked.id = false) :
    SameSize (firstLook limits call i) (secondLook limits call i) asked := by
  obtain ⟨hlook, hrest⟩ := List.forall_mem_append.mp hquiet
  obtain ⟨hreload, -⟩ := List.forall_mem_append.mp hrest
  refine .of_eq fun item₁ item₂ h₁ h₂ => ?_
  simp only [Rules.itemAsked, Rules.generationAsked, hwhich, firstLook, secondLook, reading,
    rules, WorkspaceRecord.generationOf, Option.bind_some, run, Runs.run_append] at h₁ h₂
  generalize hloaded : Runs.run (exec limits) initial i.beforeLoad = loaded at h₁ h₂
  generalize hlooked : Runs.run (exec limits) loaded i.beforeLook = looked at h₁ h₂
  have hlaid : loaded.Laid := by
    rw [← hloaded]
    exact laid_run laid_initial i.beforeLoad
  have hgeneration : looked.record.generation = loaded.record.generation := by
    rw [← hlooked]
    exact keeps_generation_run hlook
  -- from the first look on, the pointer and the item stay
  have hlaid' : looked.Laid := by
    rw [← hlooked]
    exact laid_run hlaid i.beforeLook
  rw [← hgeneration] at h₁
  obtain ⟨hsame, hkept⟩ := keeps_current_run hlaid' hrest h₁
  have hreloaded : (Runs.run (exec limits) looked i.beforeReload).record.generation =
      looked.record.generation := keeps_generation_run hreload
  rw [hsame, run, Runs.run_append] at hkept
  rw [hreloaded, hkept] at h₂
  cases h₂
  rfl

end World

end

/-! ## Evaluated reads -/

namespace Sample

/-- A note of two bytes is stored under a first key and rewritten under a second one, up
to the commit of the rewrite. -/
def restaging (rewritten : Bytes) : List Event :=
  [.request (call 0 []) (.enableEncryption laptop keyA []),
    .request (call 0 [1]) (.beginUpload laptop (request 2 (some keyA))),
    .request (call 0 []) (.putUploadContent laptop (upload 1) [.piece [1, 2]]),
    .request (call 0 []) (.commitUpload laptop (upload 1)),
    .request (call 0 []) (.beginRewrite laptop ⟨.rotate, some keyA, keyB, []⟩),
    .request (call 0 [2]) (.beginUpload laptop (restaged rewritten.length keyB)),
    .request (call 0 []) (.putUploadContent laptop (upload 2) [.piece rewritten]),
    .request (call 0 []) (.commitUpload laptop (upload 2))]

/-- The rewrite is committed between the two looks of a read. -/
def switching (rewritten : Bytes) : Interleaving where
  beforeLoad := restaging rewritten
  beforeLook := []
  beforeReload := [.request (call 0 []) (.commitRewrite laptop keyB)]
  beforeOpen := []

/-- The whole note is asked for. -/
def asked : Asked := ⟨laptop, .current, note, none⟩

end Sample

/-- A note of two bytes is rewritten as one of three: the client is sent the first two
of the three, and told that they are the note. No item that ever was on the shelf is
what it got. -/
theorem World.served_torn :
    let es := Sample.restaging [3, 4, 5] ++ (Sample.switching [3, 4, 5]).beforeReload
    let s : Served := ⟨none, 2, some [3, 4]⟩
    (getItemContent
      (@World.firstLook Sample.crates Sample.limits (Sample.call 0 [])
        (Sample.switching [3, 4, 5]))
      (@World.secondLook Sample.crates Sample.limits (Sample.call 0 [])
        (Sample.switching [3, 4, 5]))
      Sample.asked).toOption.bind (served [.bytes 1]) = some s ∧
    ∀ n ∈ List.range (es.length + 1),
      ∀ items ∈ (@World.run Sample.crates Sample.limits .initial (es.take n)).shelf.items.toList,
        ∀ item ∈ items.2.toList, ¬s.IsOf Sample.asked.header item.2.content [3, 4] := by
  decide +kernel

/-- Rewritten as a note of two bytes, it is read whole. -/
theorem World.served_rewritten :
    ∃ item, (@World.secondLook Sample.crates Sample.limits (Sample.call 0 [])
        (Sample.switching [3, 4])).itemAsked Sample.asked = some item ∧
      Served.IsOf ⟨none, 2, some [3, 4]⟩ Sample.asked.header item.content [3, 4] :=
  @served_run Sample.crates Sample.limits (Sample.call 0 []) (Sample.switching [3, 4])
    Sample.asked [.bytes 1] (.content [3, 4] 2 none 2) ⟨none, 2, some [3, 4]⟩ [3, 4]
    (by
      intro item₁ item₂ h₁ h₂
      have hlook : (@World.firstLook Sample.crates Sample.limits (Sample.call 0 [])
          (Sample.switching [3, 4])).itemAsked Sample.asked =
            some ⟨[1, 2], ⟨[], some Sample.keyA, 0⟩⟩ := by decide +kernel
      have hopen : (@World.secondLook Sample.crates Sample.limits (Sample.call 0 [])
          (Sample.switching [3, 4])).itemAsked Sample.asked =
            some ⟨[3, 4], ⟨[], some Sample.keyB, 0⟩⟩ := by decide +kernel
      rw [hlook] at h₁
      rw [hopen] at h₂
      cases h₁
      cases h₂
      exact .inl rfl)
    (by decide +kernel) (by decide) rfl

end Passalong
