import Passalong.Engine

/-!
# One upload's files (`shelf/fs.rs`)

`FsShelf` keeps an upload's content in a file of its staging directory, and a note of
its SHA-256 beside the directory; a publish renames the directory. Puts run outside
any transaction, so their file steps interleave with each other's and with those of a
commit, and a handle that was opened before the rename still names the file.

- `Putting` is a put on its way through `FsShelf::write`, one file step at a time, and
  `Commit` a commit on its way through `commit_upload` and `FsShelf::publish`.
- `orderly` is the condition under which this is safe: puts do not overlap, no put
  opens the content between a commit's look at its size and the rename, and a commit
  does not look at content whose put is under way or died.
- `published_run`: then an item's content is what one put read, to the end of its
  stream, from the publish on. `MemoryShelf` takes a put or a publish for one step, and
  rests on this.

Directories and the files of the envelope are not modelled: nothing but the commit
itself writes them. The staging place is there from the start.
-/

namespace Passalong

open Lib

namespace FsShelf

/-- Where the directory with the upload's content is. -/
inductive Place where
  | staged
  | published
  /-- Moved into the trash. -/
  | gone
  deriving DecidableEq, Repr

/-- A put between two file steps. -/
inductive Put where
  /-- The staging place was there. -/
  | entering (content : Source)
  /-- The note of what was there before is removed. -/
  | opening (content : Source)
  /-- The content is open at `position`, and `sunk` was written. -/
  | writing (position : Nat) (content : Source) (sunk : List Bytes)
  /-- Refused, and the content is yet to be emptied. -/
  | refusing
  /-- The stream was read to its end, and the note is yet to be written. -/
  | noting (sunk : List Bytes)
  | finished (sunk : List Bytes)
  | refused
  /-- Its process stopped, or the filesystem failed it. -/
  | stopped
  deriving DecidableEq, Repr

/-- Whether a put holds the content open and will write, empty or describe it. -/
def Put.underWay : Put → Bool
  | .writing .. | .refusing | .noting _ => true
  | _ => false

/-- Whether a put came to its end. -/
def Put.ended : Put → Bool
  | .finished _ | .refused => true
  | _ => false

def Put.isFinished : Put → Bool
  | .finished _ => true
  | _ => false

/-- A put with the stream it was sent. -/
structure Putting where
  sent : Source
  now : Put
  deriving DecidableEq, Repr

/-- A commit between two file steps. -/
inductive Commit where
  | idle
  /-- The content has the announced size. -/
  | looked
  /-- The note is honest, or need not be. -/
  | sure
  /-- The directory is renamed, and the note is yet to be removed. -/
  | renamed
  deriving DecidableEq, Repr

/-- One upload's files, and who is at work on them. -/
structure Files where
  /-- What the content file holds. -/
  content : Bytes
  /-- The put that opened the content last. -/
  opener : Option Nat
  place : Place
  note : Option Digest
  puts : Map Nat Putting
  commit : Commit

/-- A staging place as `stage_create` leaves it. -/
def Files.initial : Files := ⟨[], none, .staged, none, ∅, .idle⟩

/-- What can happen next. -/
inductive Event where
  /-- A put that found a live ticket in its copy of the record sees whether the staging
  place is there. -/
  | arrive (p : Nat) (content : Source)
  /-- A put takes its next step. -/
  | step (p : Nat)
  /-- A write fails after some bytes. -/
  | failWrite (p : Nat) (written : Nat)
  | stop (p : Nat)
  /-- A commit looks at the content's size. -/
  | look
  /-- It reads the note. -/
  | check
  /-- It finds the content stored already, or publishes. -/
  | settle (stored : Bool)
  /-- It removes the note. -/
  | forget
  | stopCommit
  /-- The item, or the staging place, is removed. -/
  | remove
  deriving DecidableEq, Repr

/-- `write` through a handle at a position: what lies before it and was never written
reads as zeros. -/
def writeAt (content : Bytes) (position : Nat) (piece : Bytes) : Bytes :=
  (content ++ List.replicate (position - content.length) 0).take position ++ piece ++
    content.drop (position + piece.length)

/-- At the end, it appends. -/
@[simp] theorem writeAt_length (content piece : Bytes) :
    writeAt content content.length piece = content ++ piece := by
  simp [writeAt]

section
variable [Crates] (request : UploadRequest) (checked : Bool)

/-- The check of a commit, given the note. -/
def honest (note : Option Digest) : Bool :=
  match Crates.readMeta request.metaJson with
  | none => false
  | some fields =>
    match note, fields.sha256, fields.size with
    | some digest, some saidSha, some saidSize =>
      digest.hex = saidSha && saidSize = request.size &&
        request.id.contentKey = digest.contentKey
    | _, _, _ => false

/-- It is that of `checkPlaintext`, which reads the note from the shelf. -/
theorem honest_iff (r : Rules) (u : UploadId) :
    honest request (r.shelf.stageDigest u) = true ↔ r.checkPlaintext u request = .ok () := by
  unfold honest Rules.checkPlaintext
  cases Crates.readMeta request.metaJson with
  | none => simp
  | some fields =>
    obtain ⟨saidSha, saidSize⟩ := fields
    cases r.shelf.stageDigest u <;> cases saidSha <;> cases saidSize <;> simp [and_assoc]

namespace Files

/-- A put takes a step to `now`. -/
def set (s : Files) (p : Nat) (put : Putting) (now : Put) : Files :=
  { s with puts := s.puts.insert p { put with now } }

/-- A put has read its stream to the end. -/
def endPut (s : Files) (p : Nat) (put : Putting) (sunk : List Bytes) : Files :=
  s.set p put (if checked then .noting sunk else .finished sunk)

/-- The next step of `FsShelf::write`. -/
def stepPut (s : Files) (p : Nat) (put : Putting) : Files :=
  match put.now with
  | .entering content => { s.set p put (.opening content) with note := none }
  | .opening content =>
    match s.place with
    | .staged => { s.set p put (.writing 0 content []) with content := [], opener := some p }
    -- the path leads nowhere
    | .published | .gone => s.set p put .refused
  | .writing position content sunk =>
    match content with
    | [] => s.endPut checked p put sunk
    | .interrupted :: rest => s.set p put (.writing position rest sunk)
    | .failed :: _ => s.set p put .refusing
    | .piece bytes :: rest =>
      if bytes = [] then s.endPut checked p put sunk
      else if request.size < sunk.flatten.length + bytes.length then s.set p put .refusing
      else
        { s.set p put (.writing (position + bytes.length) rest (sunk ++ [bytes])) with
          content := writeAt s.content position bytes }
  | .refusing => { s.set p put .refused with content := [] }
  | .noting sunk =>
    { s.set p put (.finished sunk) with note := some (Crates.sha256 sunk.flatten) }
  | .finished _ | .refused | .stopped => s

/-- One event. -/
def exec (s : Files) : Event → Files
  | .arrive p content =>
    if s.puts.contains p then s
    else s.set p ⟨content, .refused⟩ (if s.place = .staged then .entering content else .refused)
  | .step p =>
    match s.puts[p]? with
    | none => s
    | some put => s.stepPut request checked p put
  | .failWrite p written =>
    match s.puts[p]? with
    | some put =>
      match put.now with
      | .writing position (.piece bytes :: _) sunk =>
        if bytes = [] ∨ request.size < sunk.flatten.length + bytes.length then s
        else
          { s.set p put .refusing with
            content := writeAt s.content position (bytes.take written) }
      | _ => s
    | none => s
  | .stop p =>
    match s.puts[p]? with
    | some put => if put.now.ended ∨ put.now = .stopped then s else s.set p put .stopped
    | none => s
  | .look =>
    { s with
      commit :=
        if s.place = .staged ∧ s.content.length = request.size then .looked else .idle }
  | .check =>
    match s.commit with
    | .looked =>
      { s with commit := if checked ∧ honest request s.note = false then .idle else .sure }
    | _ => s
  | .settle stored =>
    match s.commit with
    | .sure =>
      if stored ∨ s.place ≠ .staged then { s with commit := .idle }
      else { s with place := .published, commit := .renamed }
    | _ => s
  | .forget =>
    match s.commit with
    | .renamed => { s with note := none, commit := .idle }
    | _ => s
  | .stopCommit => { s with commit := .idle }
  | .remove => { s with place := .gone }

/-- A whole run. -/
def run : Files → List Event → Files := Runs.run (exec request checked)

/-- Whether the put that opened the content last is in such a state, if any did. -/
def openerIs (s : Files) (q : Put → Bool) : Bool :=
  (s.opener.bind fun p => s.puts[p]?).all fun put => q put.now

/-- The condition on each step: a put opens the content only when no other put is under
way and no commit is between its look and its rename; and a commit looks at content of
the announced size only when the put that opened it last has ended, and, if that size
is nothing, some put has read its stream to the end. -/
def orderly (s : Files) : Event → Bool
  | .step p =>
    match s.puts[p]? with
    | some ⟨_, .opening _⟩ =>
      s.place ≠ .staged ||
        s.openerIs (fun put => !put.underWay) && s.commit ≠ .looked && s.commit ≠ .sure
    | _ => true
  | .look =>
    s.place ≠ .staged || s.content.length ≠ request.size ||
      s.openerIs Put.ended &&
        (request.size ≠ 0 || s.puts.toList.any fun e => e.2.now.isFinished)
  | _ => true

/-! ## The item -/

/-- A put has read its stream to the end, and this is what it read. -/
def Whole (s : Files) (bytes : Bytes) : Prop :=
  ∃ (p : Nat) (sent : Source) (sunk : List Bytes), s.puts[p]? = some ⟨sent, .finished sunk⟩ ∧
    pump request.size sent 0 = (.ok bytes.length, sunk) ∧ sunk.flatten = bytes

/-- What a checked item is: its `meta` names the SHA-256 of its content, and its id
begins with it. -/
def Checks (bytes : Bytes) : Prop :=
  ∃ fields, Crates.readMeta request.metaJson = some fields ∧
    fields.sha256 = some (Crates.sha256 bytes).hex ∧
    request.id.contentKey = (Crates.sha256 bytes).contentKey

/-- What a published item has to be. -/
structure Sound (s : Files) : Prop where
  whole : s.Whole request s.content
  size : s.content.length = request.size
  checks : checked = true → Checks request s.content

/-! ## The invariant -/

variable {request checked}

/-- A put and its stream: what it wrote is what it read. -/
def Fits (request : UploadRequest) (put : Putting) : Prop :=
  match put.now with
  | .entering content | .opening content => content = put.sent
  | .writing _ content sunk =>
    sunk.flatten.length ≤ request.size ∧
      pump request.size put.sent 0 =
        ((pump request.size content sunk.flatten.length).1,
          sunk ++ (pump request.size content sunk.flatten.length).2)
  | .noting sunk | .finished sunk =>
    sunk.flatten.length ≤ request.size ∧
      pump request.size put.sent 0 = (.ok sunk.flatten.length, sunk)
  | _ => True

/-- What the put that opened the content last left in it. -/
def Holds (checked : Bool) (s : Files) : Put → Prop
  | .writing position _ sunk => s.content = sunk.flatten ∧ position = s.content.length
  | .noting sunk => s.content = sunk.flatten
  | .finished sunk =>
    s.content = sunk.flatten ∧
      (checked = true → ∀ d, s.note = some d → d = Crates.sha256 s.content)
  | .refused => s.content = []
  | .refusing | .stopped => True
  | .entering _ | .opening _ => False

/-- What holds between the steps of an orderly run, until the content is removed. -/
structure Tidy (request : UploadRequest) (checked : Bool) (s : Files) : Prop where
  fits : ∀ (p : Nat) (put : Putting), s.puts[p]? = some put → Fits request put
  /-- Only the put that opened the content last is under way. -/
  underWay : ∀ (p : Nat) (put : Putting), s.puts[p]? = some put → put.now.underWay = true →
    s.opener = some p
  holds : ∀ (p : Nat) (put : Putting), s.opener = some p → s.puts[p]? = some put →
    s.Holds checked put.now
  known : ∀ p, s.opener = some p → ∃ put, s.puts[p]? = some put
  unopened : s.opener = none → s.content = []
  /-- A note, of whichever put, is of content that is not too long. -/
  noted : ∀ d, s.note = some d → ∃ bytes : Bytes, d = Crates.sha256 bytes ∧
    bytes.length ≤ request.size
  /-- Between a commit's look and its rename, the content is whole and left alone. -/
  window : s.commit = .looked ∨ s.commit = .sure → s.place = .staged →
    s.openerIs Put.ended = true ∧ s.content.length = request.size ∧
      s.Whole request s.content
  sure : s.commit = .sure → s.place = .staged → checked = true → Checks request s.content
  published : s.place = .published →
    s.openerIs (fun put => !put.underWay) = true ∧ s.Sound request checked

section
variable {s : Files} {p : Nat}

omit [Crates] in
theorem openerIs_iff {q : Put → Bool} :
    s.openerIs q = true ↔
      ∀ (p : Nat) (put : Putting), s.opener = some p → s.puts[p]? = some put →
        q put.now = true := by
  unfold openerIs
  cases s.opener with
  | none => simp
  | some p =>
    constructor
    · intro h q put hq hput
      cases hq
      rw [Option.bind_some, hput] at h
      exact h
    · intro h
      cases hput : s.puts[p]? with
      | none => simp [hput]
      | some put =>
        rw [Option.bind_some, hput]
        exact h p put rfl hput

omit [Crates] in
/-- What a put read stays read, as long as it stays finished. -/
theorem Whole.mono {s' : Files} {bytes : Bytes} (h : s.Whole request bytes)
    (hkept : ∀ (p : Nat) (put : Putting), s.puts[p]? = some put → put.now.isFinished = true →
      s'.puts[p]? = some put) : s'.Whole request bytes := by
  obtain ⟨p, sent, sunk, hput, hpump, hbytes⟩ := h
  exact ⟨p, sent, sunk, hkept p _ hput rfl, hpump, hbytes⟩

/-- A finished put makes its bytes whole. -/
theorem Tidy.whole (h : s.Tidy request checked) {put : Putting} {sunk : List Bytes}
    (hput : s.puts[p]? = some put) (hnow : put.now = .finished sunk) :
    s.Whole request sunk.flatten ∧ sunk.flatten.length ≤ request.size := by
  obtain ⟨sent, now⟩ := put
  subst hnow
  obtain ⟨hsize, hpump⟩ := h.fits p _ hput
  exact ⟨⟨p, sent, sunk, hput, hpump, rfl⟩, hsize⟩

/-- When nobody is under way who opened the content last, nobody is. -/
theorem Tidy.nobody (h : s.Tidy request checked)
    (hopener : s.openerIs (fun put => !put.underWay) = true) {put : Putting}
    (hput : s.puts[p]? = some put) : put.now.underWay = false := by
  cases hunder : put.now.underWay with
  | false => rfl
  | true =>
    have hidle := openerIs_iff.mp hopener p put (h.underWay p put hput hunder) hput
    rw [hunder] at hidle
    cases hidle

/-- While a put is under way, no commit is between its look and its rename, and nothing
is published. -/
theorem Tidy.busy (h : s.Tidy request checked) {put : Putting}
    (hput : s.puts[p]? = some put) (hunder : put.now.underWay = true) :
    s.opener = some p ∧ ¬((s.commit = .looked ∨ s.commit = .sure) ∧ s.place = .staged) ∧
      s.place ≠ .published := by
  have hopener := h.underWay p put hput hunder
  refine ⟨hopener, ?_, ?_⟩
  · rintro ⟨hcommit, hplace⟩
    have hended := openerIs_iff.mp (h.window hcommit hplace).1 p put hopener hput
    cases hnow : put.now <;> rw [hnow] at hunder hended <;> cases hunder <;> cases hended
  · intro hplace
    rw [h.nobody (h.published hplace).1 hput] at hunder
    cases hunder

/-- A put that has not opened the content takes a step that leaves it alone. -/
theorem Tidy.aside (h : s.Tidy request checked) {put : Putting} {note : Option Digest}
    (hother : s.opener ≠ some p)
    (hold : ∀ old, s.puts[p]? = some old → old.now.isFinished = false)
    (hfits : Fits request put) (hnow : put.now.underWay = false)
    (hnote : note = s.note ∨ note = none) :
    Tidy request checked { s with puts := s.puts.insert p put, note } := by
  -- the put is not the one that holds the content open
  have hget : ∀ q, s.opener = some q → (s.puts.insert p put)[q]? = s.puts[q]? := by
    intro q hq
    refine Map.get_insert_of_ne _ _ ?_
    rintro rfl
    exact hother hq
  have hnoted : ∀ d, note = some d → s.note = some d := by
    rintro d rfl
    rcases hnote with hnote | hnote
    · exact hnote.symm
    · cases hnote
  -- what a finished put wrote whole is still written whole by it
  have hwhole : ∀ bytes, s.Whole request bytes →
      Whole request { s with puts := s.puts.insert p put, note } bytes := by
    intro bytes hwhole
    refine hwhole.mono fun q other hq hfinished => ?_
    have hne : p ≠ q := by
      rintro rfl
      rw [hold other hq] at hfinished
      cases hfinished
    show (s.puts.insert p put)[q]? = some other
    rw [Map.get_insert_of_ne _ _ hne]
    exact hq
  have hopenerIs : ∀ q, s.openerIs q = true →
      openerIs { s with puts := s.puts.insert p put, note } q = true := by
    intro q hq
    refine openerIs_iff.mpr fun r other hr hother' => ?_
    change (s.puts.insert p put)[r]? = some other at hother'
    rw [hget r hr] at hother'
    exact openerIs_iff.mp hq r other hr hother'
  -- then field by field: only the put's own entry is another
  refine ⟨?_, ?_, ?_, ?_, h.unopened, fun d hd => h.noted d (hnoted d hd), ?_, h.sure, ?_⟩
  · intro q other hq
    change (s.puts.insert p put)[q]? = some other at hq
    rw [Map.get_insert] at hq
    split at hq
    · cases hq
      exact hfits
    · exact h.fits q other hq
  · intro q other hq hunder
    change (s.puts.insert p put)[q]? = some other at hq
    rw [Map.get_insert] at hq
    split at hq
    · cases hq
      rw [hnow] at hunder
      cases hunder
    · exact h.underWay q other hq hunder
  · intro q other hq hget'
    change (s.puts.insert p put)[q]? = some other at hget'
    rw [hget q hq] at hget'
    have hholds := h.holds q other hq hget'
    cases hstate : other.now with
    | finished sunk =>
      rw [hstate] at hholds
      exact ⟨hholds.1, fun hchecked d hd => hholds.2 hchecked d (hnoted d hd)⟩
    | _ =>
      rw [hstate] at hholds
      exact hholds
  · intro q hq
    obtain ⟨other, hother'⟩ := h.known q hq
    exact ⟨other, (hget q hq).trans hother'⟩
  · intro hcommit hplace
    obtain ⟨hended, hsize, hw⟩ := h.window hcommit hplace
    exact ⟨hopenerIs _ hended, hsize, hwhole _ hw⟩
  · intro hplace
    obtain ⟨hidle, hsound⟩ := h.published hplace
    exact ⟨hopenerIs _ hidle, hwhole _ hsound.whole, hsound.size, hsound.checks⟩

/-- The put that is under way takes a step. -/
theorem Tidy.work (h : s.Tidy request checked) {old put : Putting} {content : Bytes}
    {note : Option Digest} (hold : s.puts[p]? = some old) (hunder : old.now.underWay = true)
    (hfits : Fits request put)
    (hholds : Holds checked { s with puts := s.puts.insert p put, content, note } put.now)
    (hnoted : ∀ d, note = some d → ∃ bytes : Bytes, d = Crates.sha256 bytes ∧
      bytes.length ≤ request.size) :
    Tidy request checked { s with puts := s.puts.insert p put, content, note } := by
  -- a put under way is the one that holds the content open
  obtain ⟨hopener, hwindow, hplace⟩ := h.busy hold hunder
  refine ⟨?_, ?_, ?_, ?_, ?_, hnoted, ?_, ?_, ?_⟩
  · intro q other hq
    change (s.puts.insert p put)[q]? = some other at hq
    rw [Map.get_insert] at hq
    split at hq
    · cases hq
      exact hfits
    · exact h.fits q other hq
  · intro q other hq hunder'
    change (s.puts.insert p put)[q]? = some other at hq
    rw [Map.get_insert] at hq
    split at hq
    · rename_i e
      subst e
      exact hopener
    · exact h.underWay q other hq hunder'
  · intro q other hq hget
    change s.opener = some q at hq
    rw [hopener] at hq
    cases hq
    change (s.puts.insert p put)[p]? = some other at hget
    rw [Map.get_insert_self] at hget
    cases hget
    exact hholds
  · intro q hq
    change s.opener = some q at hq
    rw [hopener] at hq
    cases hq
    exact ⟨put, Map.get_insert_self _ _ _⟩
  · intro hnone
    change s.opener = none at hnone
    rw [hopener] at hnone
    cases hnone
  · intro hcommit hstaged
    exact absurd ⟨hcommit, hstaged⟩ hwindow
  · intro hcommit hstaged
    exact absurd ⟨.inr hcommit, hstaged⟩ hwindow
  · intro hpublished
    exact absurd hpublished hplace

/-! ## Steps of a put -/

omit [Crates] in
/-- The stream of a put that is writing, after an interrupted read. -/
theorem Fits.interrupted {sent rest : Source} {position : Nat} {sunk : List Bytes}
    (h : Fits request ⟨sent, .writing position (.interrupted :: rest) sunk⟩) :
    Fits request ⟨sent, .writing position rest sunk⟩ := h

omit [Crates] in
/-- After a piece is written. -/
theorem Fits.piece {sent rest : Source} {position position' : Nat} {bytes : Bytes}
    {sunk : List Bytes}
    (h : Fits request ⟨sent, .writing position (.piece bytes :: rest) sunk⟩)
    (hbytes : bytes ≠ []) (hsize : sunk.flatten.length + bytes.length ≤ request.size) :
    Fits request ⟨sent, .writing position' rest (sunk ++ [bytes])⟩ := by
  obtain ⟨-, hpump⟩ := h
  have hlength : (sunk ++ [bytes]).flatten.length = sunk.flatten.length + bytes.length := by
    simp
  refine ⟨by omega, ?_⟩
  rw [hpump, hlength]
  simp only [pump]
  rw [if_neg hbytes, if_neg (by omega)]
  simp

omit [Crates] in
/-- At the end of the stream. -/
theorem Fits.ended {sent content : Source} {position : Nat} {sunk : List Bytes}
    (h : Fits request ⟨sent, .writing position content sunk⟩)
    (hend : content = [] ∨ ∃ rest, content = .piece [] :: rest) :
    sunk.flatten.length ≤ request.size ∧
      pump request.size sent 0 = (.ok sunk.flatten.length, sunk) := by
  obtain ⟨hsize, hpump⟩ := h
  refine ⟨hsize, ?_⟩
  rw [hpump]
  rcases hend with rfl | ⟨rest, rfl⟩
  · simp [pump]
  · simp [pump]

/-- A put reads the end of its stream. -/
theorem Tidy.endPut (h : s.Tidy request checked) {sent content : Source} {position : Nat}
    {sunk : List Bytes} (hput : s.puts[p]? = some ⟨sent, .writing position content sunk⟩)
    (hend : content = [] ∨ ∃ rest, content = .piece [] :: rest) :
    Tidy request checked
      (s.endPut checked p ⟨sent, .writing position content sunk⟩ sunk) := by
  have hopener := h.underWay p _ hput rfl
  obtain ⟨hcontent, -⟩ := h.holds p _ hopener hput
  have hfits := (h.fits p _ hput).ended hend
  cases checked with
  | true => exact h.work hput rfl hfits hcontent h.noted
  | false => exact h.work hput rfl hfits ⟨hcontent, fun hchecked => by cases hchecked⟩ h.noted

/-- A put opens the content, when nobody else is at it. -/
theorem Tidy.openContent (h : s.Tidy request checked) {sent content : Source}
    (hplace : s.place = .staged) (hidle : s.openerIs (fun put => !put.underWay) = true)
    (hcommit : s.commit ≠ .looked ∧ s.commit ≠ .sure)
    (hfits : Fits request ⟨sent, .opening content⟩) :
    Tidy request checked
      { s.set p ⟨sent, .opening content⟩ (.writing 0 content []) with
        content := [], opener := some p } := by
  -- no commit is between its check and its rename
  have hwindow : ¬(s.commit = .looked ∨ s.commit = .sure) := by
    rintro (hc | hc)
    · exact hcommit.1 hc
    · exact hcommit.2 hc
  refine ⟨?_, ?_, ?_, ?_, ?_, h.noted, ?_, ?_, ?_⟩
  · intro q other hq
    change (s.puts.insert p _)[q]? = some other at hq
    rw [Map.get_insert] at hq
    split at hq
    · cases hq
      change content = sent at hfits
      subst hfits
      exact ⟨Nat.zero_le _, rfl⟩
    · exact h.fits q other hq
  -- the put that opens is the only one under way
  · intro q other hq hunder
    change (s.puts.insert p _)[q]? = some other at hq
    rw [Map.get_insert] at hq
    split at hq
    · rename_i e
      subst e
      rfl
    · rw [h.nobody hidle hq] at hunder
      cases hunder
  · intro q other hq hget
    cases hq
    change (s.puts.insert p _)[p]? = some other at hget
    rw [Map.get_insert_self] at hget
    cases hget
    exact ⟨rfl, rfl⟩
  · intro q hq
    cases hq
    exact ⟨_, Map.get_insert_self _ _ _⟩
  · intro hnone
    cases hnone
  · intro hc
    exact absurd hc hwindow
  · intro hc
    exact absurd (.inr hc) hwindow
  · intro hpublished
    change s.place = .published at hpublished
    rw [hplace] at hpublished
    cases hpublished

/-- **One step of a put**, orderly if it opens the content. -/
theorem Tidy.stepPut (h : s.Tidy request checked) {put : Putting}
    (hput : s.puts[p]? = some put) (horderly : s.orderly request (.step p) = true) :
    Tidy request checked (s.stepPut request checked p put) := by
  obtain ⟨sent, now⟩ := put
  -- a put that has not opened the content yet is not the one that opened it last
  have hother : s.Holds checked now = False → s.opener ≠ some p := by
    intro hfalse hopener
    have hholds := h.holds p _ hopener hput
    rw [hfalse] at hholds
    exact hholds
  have hold : now.isFinished = false →
      ∀ old, s.puts[p]? = some old → old.now.isFinished = false := by
    intro hnow old hget
    rw [hput] at hget
    cases hget
    exact hnow
  have hfits := h.fits p _ hput
  cases now with
  | entering content => exact h.aside (hother rfl) (hold rfl) hfits rfl (.inr rfl)
  | opening content =>
    simp only [Files.stepPut]
    cases hplace : s.place with
    | staged =>
      simp only [Files.orderly, hput, hplace] at horderly
      have hidle : s.openerIs (fun put => !put.underWay) = true ∧ s.commit ≠ .looked ∧
          s.commit ≠ .sure := by
        simpa [and_assoc] using horderly
      exact h.openContent hplace hidle.1 hidle.2 hfits
    | published => exact h.aside (hother rfl) (hold rfl) trivial rfl (.inl rfl)
    | gone => exact h.aside (hother rfl) (hold rfl) trivial rfl (.inl rfl)
  | writing position content sunk =>
    have hopener := h.underWay p _ hput rfl
    obtain ⟨hcontent, hposition⟩ := h.holds p _ hopener hput
    cases content with
    | nil => exact h.endPut hput (.inl rfl)
    | cons read rest =>
      cases read with
      | interrupted => exact h.work hput rfl hfits.interrupted ⟨hcontent, hposition⟩ h.noted
      | failed => exact h.work hput rfl trivial trivial h.noted
      | piece bytes =>
        simp only [Files.stepPut]
        split
        · rename_i hbytes
          subst hbytes
          exact h.endPut hput (.inr ⟨rest, rfl⟩)
        · rename_i hbytes
          split
          · exact h.work hput rfl trivial trivial h.noted
          · rename_i hsize
            refine h.work hput rfl (hfits.piece hbytes (by omega)) ?_ h.noted
            rw [hposition, writeAt_length, hcontent]
            exact ⟨by simp, by simp⟩
  | refusing => exact h.work hput rfl trivial rfl h.noted
  | noting sunk =>
    have hopener := h.underWay p _ hput rfl
    have hcontent : s.content = sunk.flatten := h.holds p _ hopener hput
    refine h.work hput rfl hfits ⟨hcontent, ?_⟩ ?_
    · rintro - d hd
      cases hd
      show Crates.sha256 sunk.flatten = Crates.sha256 s.content
      rw [hcontent]
    · rintro d hd
      cases hd
      exact ⟨sunk.flatten, rfl, hfits.1⟩
  | finished sunk => exact h
  | refused => exact h
  | stopped => exact h

/-! ## Steps of a commit -/

/-- A step of a commit, which touches neither the content nor a put. -/
theorem Tidy.committing (h : s.Tidy request checked) {place : Place} {note : Option Digest}
    {commit : Commit} (hnote : note = s.note ∨ note = none)
    (hwindow : commit = .looked ∨ commit = .sure → place = .staged →
      s.openerIs Put.ended = true ∧ s.content.length = request.size ∧
        s.Whole request s.content)
    (hsure : commit = .sure → place = .staged → checked = true → Checks request s.content)
    (hpublished : place = .published →
      s.openerIs (fun put => !put.underWay) = true ∧ s.Sound request checked) :
    Tidy request checked { s with place, note, commit } := by
  have hnoted : ∀ d, note = some d → s.note = some d := by
    rintro d rfl
    rcases hnote with hnote | hnote
    · exact hnote.symm
    · cases hnote
  refine ⟨h.fits, h.underWay, ?_, h.known, h.unopened, fun d hd => h.noted d (hnoted d hd),
    hwindow, hsure, ?_⟩
  · intro q put hq hput
    have hholds := h.holds q put hq hput
    cases hstate : put.now with
    | finished sunk =>
      rw [hstate] at hholds
      exact ⟨hholds.1, fun hchecked d hd => hholds.2 hchecked d (hnoted d hd)⟩
    | _ =>
      rw [hstate] at hholds
      exact hholds
  · intro hplace
    obtain ⟨hidle, hsound⟩ := hpublished hplace
    exact ⟨hidle, hsound.whole, hsound.size, hsound.checks⟩

/-- Content of no bytes that a put once read whole is whole. -/
theorem Tidy.whole_empty (h : s.Tidy request checked) (hsize : request.size = 0)
    (hany : s.puts.toList.any (fun e => e.2.now.isFinished) = true) :
    s.Whole request [] := by
  obtain ⟨⟨q, put⟩, hmem, hfinished⟩ := List.any_eq_true.mp hany
  have hput := Map.mem_toList_iff.mp hmem
  cases hnow : put.now with
  | finished sunk =>
    obtain ⟨hwhole, hlength⟩ := h.whole hput hnow
    have hnil : sunk.flatten = [] := List.eq_nil_of_length_eq_zero (by omega)
    rw [hnil] at hwhole
    exact hwhole
  | _ =>
    simp only [hnow] at hfinished
    cases hfinished

/-- **The look.** Content of the announced size, whose put has ended, is whole. -/
theorem Tidy.look (h : s.Tidy request checked)
    (horderly : s.orderly request .look = true) :
    Tidy request checked (s.exec request checked .look) := by
  refine h.committing (.inl rfl) ?_ ?_ h.published
  · intro hcommit hplace
    have hsize : s.content.length = request.size := by
      by_contra hne
      rcases hcommit with hc | hc
      · rw [if_neg (fun hand => hne hand.2)] at hc
        cases hc
      · rw [if_neg (fun hand => hne hand.2)] at hc
        cases hc
    have hcond : s.openerIs Put.ended = true ∧ (request.size = 0 →
        s.puts.toList.any (fun e => e.2.now.isFinished) = true) := by
      simp only [Files.orderly, hplace, hsize] at horderly
      simpa [imp_iff_not_or] using horderly
    obtain ⟨hended, hany⟩ := hcond
    refine ⟨hended, hsize, ?_⟩
    have hempty : s.content = [] → s.Whole request s.content := by
      intro hnil
      rw [hnil] at hsize ⊢
      exact h.whole_empty hsize.symm (hany hsize.symm)
    cases hopener : s.opener with
    | none => exact hempty (h.unopened hopener)
    | some q =>
      obtain ⟨put, hput⟩ := h.known q hopener
      have hends := openerIs_iff.mp hended q put hopener hput
      have hholds := h.holds q put hopener hput
      cases hnow : put.now with
      | finished sunk =>
        rw [hnow] at hholds
        rw [hholds.1]
        exact (h.whole hput hnow).1
      | refused =>
        rw [hnow] at hholds
        exact hempty hholds
      | _ =>
        rw [hnow] at hends
        cases hends
  · intro hcommit
    split at hcommit <;> cases hcommit

/-- An honest note is that of the content, while the put that opened it last has
ended. -/
theorem Tidy.checks (h : s.Tidy request checked) (hchecked : checked = true)
    (hended : s.openerIs Put.ended = true) (hsize : s.content.length = request.size)
    (hhonest : honest request s.note = true) : Checks request s.content := by
  have hnote : ∀ d, s.note = some d → d = Crates.sha256 s.content := by
    intro d hd
    have hempty : s.content = [] → d = Crates.sha256 s.content := by
      intro hnil
      obtain ⟨bytes, rfl, hbytes⟩ := h.noted d hd
      rw [hnil] at hsize
      have hbytesnil : bytes = [] := by
        refine List.eq_nil_of_length_eq_zero ?_
        simp only [List.length_nil] at hsize
        omega
      rw [hnil, hbytesnil]
    cases hopener : s.opener with
    | none => exact hempty (h.unopened hopener)
    | some q =>
      obtain ⟨put, hput⟩ := h.known q hopener
      have hends := openerIs_iff.mp hended q put hopener hput
      have hholds := h.holds q put hopener hput
      cases hnow : put.now with
      | finished sunk =>
        rw [hnow] at hholds
        exact hholds.2 hchecked d hd
      | refused =>
        rw [hnow] at hholds
        exact hempty hholds
      | _ =>
        rw [hnow] at hends
        cases hends
  unfold honest at hhonest
  split at hhonest
  · cases hhonest
  rename_i fields hfields
  split at hhonest
  · rename_i digest saidSha saidSize hdigest hsha _
    simp only [Bool.and_eq_true, decide_eq_true_eq] at hhonest
    have hdigest' := hnote digest hdigest
    subst hdigest'
    refine ⟨fields, hfields, ?_, hhonest.2⟩
    rw [hhonest.1.1]
    exact hsha
  · cases hhonest

/-- A put stops. -/
theorem Tidy.stop (h : s.Tidy request checked) {put : Putting}
    (hput : s.puts[p]? = some put) (hgoing : ¬(put.now.ended = true ∨ put.now = .stopped)) :
    Tidy request checked (s.set p put .stopped) := by
  cases hunder : put.now.underWay with
  | true => exact h.work hput hunder trivial trivial h.noted
  | false =>
    -- it has not opened the content yet
    have hearly : s.Holds checked put.now = False ∧ put.now.isFinished = false := by
      cases hnow : put.now with
      | entering content => exact ⟨rfl, rfl⟩
      | opening content => exact ⟨rfl, rfl⟩
      | finished sunk => exact absurd (.inl (by rw [hnow]; rfl)) hgoing
      | refused => exact absurd (.inl (by rw [hnow]; rfl)) hgoing
      | stopped => exact absurd (.inr hnow) hgoing
      | _ =>
        rw [hnow] at hunder
        cases hunder
    refine h.aside ?_ ?_ trivial rfl (.inl rfl)
    · intro hopener
      have hholds := h.holds p put hopener hput
      rw [hearly.1] at hholds
      exact hholds
    · intro old hold
      rw [hput] at hold
      cases hold
      exact hearly.2

/-- A put arrives, under a number that is new. -/
theorem Tidy.arrive (h : s.Tidy request checked) (p : Nat) (content : Source) :
    Tidy request checked (s.exec request checked (.arrive p content)) := by
  simp only [Files.exec]
  split
  · exact h
  · rename_i hnew
    have hnone : s.puts[p]? = none := Map.contains_eq_false_iff.mp (Bool.eq_false_iff.mpr hnew)
    -- so it has not opened the content
    have hother : s.opener ≠ some p := by
      intro hopener
      obtain ⟨put, hput⟩ := h.known p hopener
      rw [hnone] at hput
      cases hput
    refine h.aside hother ?_ ?_ ?_ (.inl rfl)
    · intro old hold
      rw [hnone] at hold
      cases hold
    · split
      · rfl
      · trivial
    · split <;> rfl

/-- A write fails, with some of its bytes written. -/
theorem Tidy.failWrite (h : s.Tidy request checked) (p written : Nat) :
    Tidy request checked (s.exec request checked (.failWrite p written)) := by
  simp only [Files.exec]
  split
  · rename_i put hput
    split
    · rename_i position bytes rest sunk hnow
      split
      · exact h
      · exact h.work hput (by rw [hnow]; rfl) trivial trivial h.noted
    · exact h
  · exact h

/-- A commit looks at the note. -/
theorem Tidy.check (h : s.Tidy request checked) :
    Tidy request checked (s.exec request checked .check) := by
  simp only [Files.exec]
  split
  · rename_i hlooked
    refine h.committing (.inl rfl) (fun _ hplace => h.window (.inl hlooked) hplace) ?_
      h.published
    intro hsure hplace hchecked
    obtain ⟨hended, hsize, -⟩ := h.window (.inl hlooked) hplace
    refine h.checks hchecked hended hsize ?_
    -- with a note that is not honest it would not be sure
    by_contra hno
    rw [if_pos ⟨hchecked, by simpa using hno⟩] at hsure
    cases hsure
  · exact h

/-- A commit renames the directory, unless the item is there or the directory is gone. -/
theorem Tidy.settle (h : s.Tidy request checked) (stored : Bool) :
    Tidy request checked (s.exec request checked (.settle stored)) := by
  simp only [Files.exec]
  split
  · rename_i hsure
    split
    · exact h.committing (.inl rfl) (by rintro (hc | hc) <;> cases hc) (by rintro ⟨⟩)
        h.published
    · rename_i hnew
      have hplace : s.place = .staged := by
        by_contra hne
        exact hnew (.inr hne)
      -- what the window and the check have found is what is published
      obtain ⟨hended, hsize, hwhole⟩ := h.window (.inr hsure) hplace
      refine h.committing (.inl rfl) (by rintro (hc | hc) <;> cases hc) (by rintro ⟨⟩)
        fun _ => ⟨?_, hwhole, hsize, h.sure hsure hplace⟩
      -- a put that has ended is not under way
      refine openerIs_iff.mpr fun q put hq hput => ?_
      have hends := openerIs_iff.mp hended q put hq hput
      cases hnow : put.now <;> rw [hnow] at hends <;> first | rfl | cases hends
  · exact h

/-- **Every orderly step keeps the files tidy.** -/
theorem Tidy.exec (h : s.Tidy request checked) {e : Event}
    (horderly : s.orderly request e = true) : Tidy request checked (s.exec request checked e) := by
  cases e with
  | arrive p content => exact h.arrive p content
  | step p =>
    simp only [Files.exec]
    split
    · exact h
    · rename_i put hput
      exact h.stepPut hput horderly
  | failWrite p written => exact h.failWrite p written
  | stop p =>
    simp only [Files.exec]
    split
    · rename_i put hput
      split
      · exact h
      · rename_i hgoing
        exact h.stop hput hgoing
    · exact h
  | look => exact h.look horderly
  | check => exact h.check
  | settle stored => exact h.settle stored
  | forget =>
    -- the note goes, and nothing else
    simp only [Files.exec]
    split
    · exact h.committing (.inr rfl) (by rintro (hc | hc) <;> cases hc) (by rintro ⟨⟩) h.published
    · exact h
  | stopCommit =>
    exact h.committing (.inl rfl) (by rintro (hc | hc) <;> cases hc) (by rintro ⟨⟩) h.published
  | remove =>
    exact h.committing (.inl rfl) (by rintro _ ⟨⟩) (by rintro _ ⟨⟩) (by rintro ⟨⟩)

theorem tidy_initial (request : UploadRequest) (checked : Bool) :
    Tidy request checked Files.initial where
  fits := by
    intro q put hput
    rw [show Files.initial.puts = ∅ from rfl, Std.ExtTreeMap.getElem?_empty] at hput
    cases hput
  underWay := by
    intro q put hput
    rw [show Files.initial.puts = ∅ from rfl, Std.ExtTreeMap.getElem?_empty] at hput
    cases hput
  holds := by rintro q put ⟨⟩
  known := by rintro q ⟨⟩
  unopened := fun _ => rfl
  noted := by rintro d ⟨⟩
  window := by rintro (hc | hc) <;> cases hc
  sure := by rintro ⟨⟩
  published := by rintro ⟨⟩

/-- Published content stays as it is, until it is removed. -/
theorem Tidy.keeps (h : s.Tidy request checked) {e : Event} (hplace : s.place = .published) :
    (s.exec request checked e).place = .gone ∨
      ((s.exec request checked e).place = .published ∧
        (s.exec request checked e).content = s.content) := by
  have hidle : ∀ (q : Nat) (put : Putting), s.puts[q]? = some put → put.now.underWay = false :=
    fun q put hput => h.nobody (h.published hplace).1 hput
  cases e with
  | arrive p content =>
    simp only [Files.exec]
    split <;> exact .inr ⟨hplace, rfl⟩
  | step p =>
    -- no put is under way, so a step opens nothing and writes nothing
    simp only [Files.exec]
    split
    · exact .inr ⟨hplace, rfl⟩
    · rename_i put hput
      have hunder := hidle p put hput
      obtain ⟨sent, now⟩ := put
      cases now with
      | opening content =>
        simp only [Files.stepPut, hplace]
        exact .inr ⟨hplace, rfl⟩
      | writing position content sunk => cases hunder
      | refusing => cases hunder
      | noting sunk => cases hunder
      | _ => exact .inr ⟨hplace, rfl⟩
  | failWrite p written =>
    simp only [Files.exec]
    split
    · rename_i put hput
      split
      · rename_i hnow
        have hunder := hidle p put hput
        rw [hnow] at hunder
        cases hunder
      · exact .inr ⟨hplace, rfl⟩
    · exact .inr ⟨hplace, rfl⟩
  | stop p =>
    simp only [Files.exec]
    split
    · split <;> exact .inr ⟨hplace, rfl⟩
    · exact .inr ⟨hplace, rfl⟩
  | look => exact .inr ⟨hplace, rfl⟩
  | check =>
    simp only [Files.exec]
    split <;> exact .inr ⟨hplace, rfl⟩
  | settle stored =>
    -- another commit does not find the place staged
    simp only [Files.exec]
    split
    · rw [if_pos (.inr (by rw [hplace]; decide))]
      exact .inr ⟨hplace, rfl⟩
    · exact .inr ⟨hplace, rfl⟩
  | forget =>
    simp only [Files.exec]
    split <;> exact .inr ⟨hplace, rfl⟩
  | stopCommit => exact .inr ⟨hplace, rfl⟩
  | remove => exact .inl rfl

/-- A put moves nothing. -/
theorem stepPut_place (put : Putting) :
    (s.stepPut request checked p put).place = s.place := by
  unfold stepPut endPut
  split
  · rfl
  · split <;> rfl
  · split
    · rfl
    · rfl
    · rfl
    · split
      · rfl
      · split <;> rfl
  · rfl
  · rfl
  · rfl
  · rfl
  · rfl

/-- What is gone does not come back. -/
theorem exec_gone {e : Event} (hplace : s.place = .gone) :
    (s.exec request checked e).place = .gone := by
  cases e with
  | arrive p content =>
    simp only [Files.exec]
    split <;> exact hplace
  | step p =>
    simp only [Files.exec]
    split
    · exact hplace
    · rw [stepPut_place]
      exact hplace
  | failWrite p written =>
    simp only [Files.exec]
    split
    · split
      · split <;> exact hplace
      · exact hplace
    · exact hplace
  | stop p =>
    simp only [Files.exec]
    split
    · split <;> exact hplace
    · exact hplace
  | check =>
    simp only [Files.exec]
    split <;> exact hplace
  | settle stored =>
    simp only [Files.exec]
    split
    · rw [if_pos (.inr (by rw [hplace]; decide))]
      exact hplace
    · exact hplace
  | forget =>
    simp only [Files.exec]
    split <;> exact hplace
  | remove => rfl
  | _ => exact hplace

theorem tidy_run {es : List Event} (h : s.Tidy request checked)
    (horderly : Runs.Along (Files.exec request checked)
      (fun s e => s.orderly request e = true) s es) :
    Tidy request checked (s.run request checked es) :=
  Runs.invariant (Files.exec request checked) (fun _ _ h he => h.exec he) h horderly

/-- So through every orderly run. -/
theorem keeps_run {es : List Event} (h : s.Tidy request checked) (hplace : s.place = .published)
    (horderly : Runs.Along (Files.exec request checked)
      (fun s e => s.orderly request e = true) s es) :
    (s.run request checked es).place = .gone ∨
      ((s.run request checked es).place = .published ∧
        (s.run request checked es).content = s.content) := by
  refine (Runs.invariant (Files.exec request checked)
    (I := fun t => t.Tidy request checked ∧
      (t.place = .gone ∨ (t.place = .published ∧ t.content = s.content))) ?_
    ⟨h, .inr ⟨hplace, rfl⟩⟩ horderly).2
  rintro t e ⟨ht, hkept⟩ he
  refine ⟨ht.exec he, ?_⟩
  rcases hkept with hgone | ⟨hthere, hsame⟩
  · exact .inl (exec_gone hgone)
  · rcases ht.keeps (e := e) hthere with hgone | ⟨hstill, hcontent⟩
    · exact .inl hgone
    · exact .inr ⟨hstill, hcontent.trans hsame⟩

end

/-- **A published item is what one put read.** In every orderly run, an item that is
there has as content what one put read, to the end of its stream, of the announced size
and, where it is checked, as its `meta` and its id say; and that content never changes
until the item is removed. -/
theorem published_run (request : UploadRequest) (checked : Bool) (es later : List Event)
    (horderly : Runs.Along (Files.exec request checked)
      (fun s e => s.orderly request e = true) initial (es ++ later)) :
    let s := initial.run request checked es
    let s' := initial.run request checked (es ++ later)
    s.place = .published → s.Sound request checked ∧
      (s'.place = .gone ∨ (s'.place = .published ∧ s'.content = s.content)) := by
  intro s s' hplace
  obtain ⟨hbefore, hafter⟩ := (Runs.along_append _).mp horderly
  have htidy : s.Tidy request checked := tidy_run (tidy_initial request checked) hbefore
  refine ⟨(htidy.published hplace).2, ?_⟩
  rw [show s' = s.run request checked later from Runs.run_append _ _ _ _]
  exact keeps_run htidy hplace hafter

end Files

end

/-! ## The reference shelf -/

section
variable [Crates] {request : UploadRequest} {checked : Bool}

namespace Files

/-- What a staging place holds, as the reference shelf has it. -/
def staged (s : Files) : Staged := ⟨s.content, s.note⟩

/-- A put that is done takes no more steps. -/
theorem run_ended {s : Files} {p : Nat} {put : Putting} (hput : s.puts[p]? = some put)
    (hended : put.now.ended = true) (n : Nat) :
    s.run request checked (List.replicate n (.step p)) = s := by
  have hstep : s.exec request checked (.step p) = s := by
    simp only [Files.exec, hput]
    unfold stepPut
    cases hnow : put.now <;> rw [hnow] at hended <;> first | rfl | cases hended
  induction n with
  | zero => rfl
  | succ n ih =>
    show run request checked (s.exec request checked (.step p)) _ = s
    rw [hstep]
    exact ih

/-- What a put leaves whose stream comes to this. -/
def leaves (checked : Bool) (sunk : List Bytes) : Except ApiError Nat × List Bytes → Staged
  | (.ok _, more) =>
    ⟨(sunk ++ more).flatten,
      if checked then some (Crates.sha256 (sunk ++ more).flatten) else none⟩
  | (.error _, _) => ⟨[], none⟩

/-- A put takes its next step, and then others. -/
theorem run_step {s : Files} {p : Nat} {put : Putting} (hput : s.puts[p]? = some put)
    (n : Nat) :
    s.run request checked (List.replicate (n + 1) (.step p)) =
      (s.stepPut request checked p put).run request checked (List.replicate n (.step p)) := by
  show run request checked (s.exec request checked (.step p)) _ = _
  simp only [Files.exec, hput]

/-- A refused put empties the content. -/
theorem refusing_alone {s : Files} {p n : Nat} {sent : Source}
    (hput : s.puts[p]? = some ⟨sent, .refusing⟩) (hnote : s.note = none) :
    (s.run request checked (List.replicate (n + 1) (.step p))).staged = ⟨[], none⟩ := by
  rw [run_step hput, run_ended (Map.get_insert_self _ _ _) rfl]
  show (⟨[], s.note⟩ : Staged) = _
  rw [hnote]

/-- A put that read its stream to the end notes the digest, if it is to. -/
theorem ended_alone {s : Files} {p n : Nat} {put : Putting} {sunk : List Bytes}
    (hcontent : s.content = sunk.flatten) (hnote : s.note = none) :
    ((s.endPut checked p put sunk).run request checked
      (List.replicate (n + 1) (.step p))).staged =
        ⟨sunk.flatten, if checked then some (Crates.sha256 sunk.flatten) else none⟩ := by
  cases checked with
  | true =>
    have hput : (s.endPut true p put sunk).puts[p]? = some { put with now := .noting sunk } :=
      Map.get_insert_self _ _ _
    rw [run_step hput, run_ended (Map.get_insert_self _ _ _) rfl]
    show (⟨s.content, _⟩ : Staged) = _
    rw [hcontent]
    rfl
  | false =>
    have hput : (s.endPut false p put sunk).puts[p]? = some { put with now := .finished sunk } :=
      Map.get_insert_self _ _ _
    rw [run_ended hput rfl]
    show (⟨s.content, s.note⟩ : Staged) = _
    rw [hcontent, hnote]
    rfl

/-- A put that is writing and is left alone reads its stream to the end or is refused. -/
theorem writing_alone {content : Source} {s : Files} {p n : Nat} {sent : Source}
    {sunk : List Bytes}
    (hput : s.puts[p]? = some ⟨sent, .writing s.content.length content sunk⟩)
    (hcontent : s.content = sunk.flatten) (hnote : s.note = none)
    (hn : content.length + 2 ≤ n) :
    (s.run request checked (List.replicate n (.step p))).staged =
      leaves checked sunk (pump request.size content sunk.flatten.length) := by
  induction content generalizing s sunk n with
  | nil =>
    obtain ⟨m, rfl⟩ : ∃ m, n = m + 2 := ⟨n - 2, by simp at hn; omega⟩
    rw [run_step hput]
    simp only [stepPut, pump, leaves, List.append_nil]
    exact ended_alone hcontent hnote
  | cons read rest ih =>
    obtain ⟨m, rfl⟩ : ∃ m, n = m + 2 := ⟨n - 2, by omega⟩
    have hm : rest.length + 2 ≤ m + 1 := by
      simp only [List.length_cons] at hn
      omega
    rw [run_step hput]
    cases read with
    | interrupted => exact ih (Map.get_insert_self _ _ _) hcontent hnote hm
    | failed => exact refusing_alone (Map.get_insert_self _ _ _) hnote
    | piece bytes =>
      simp only [stepPut, pump]
      split
      · simp only [leaves, List.append_nil]
        exact ended_alone hcontent hnote
      · split
        · exact refusing_alone (Map.get_insert_self _ _ _) hnote
        · -- the piece is appended, and the rest of the stream is read
          have hlength : (sunk ++ [bytes]).flatten.length =
              sunk.flatten.length + bytes.length := by simp
          have hrest := @ih
            { s.set p ⟨sent, .writing s.content.length (.piece bytes :: rest) sunk⟩
                (.writing (s.content.length + bytes.length) rest (sunk ++ [bytes])) with
              content := writeAt s.content s.content.length bytes }
            (m + 1) (sunk ++ [bytes]) ?_ ?_ hnote hm
          · rw [hlength] at hrest
            refine hrest.trans ?_
            cases pump request.size rest (sunk.flatten.length + bytes.length) with
            | mk answer more => cases answer <;> simp [leaves]
          · rw [writeAt_length, List.length_append]
            exact Map.get_insert_self _ _ _
          · rw [writeAt_length, hcontent]
            simp

/-- **A put that is left alone does what the reference shelf does in one step.** -/
theorem put_alone {s : Files} {p : Nat} (content : Source) (shelf : MemoryShelf)
    (u : UploadId) (hplace : s.place = .staged) (hnew : s.puts.contains p = false)
    (hthere : shelf.staging.contains u = true) :
    (shelf.write u content request.size checked).2.staging[u]? =
      some (s.run request checked
        (.arrive p content :: List.replicate (content.length + 4) (.step p))).staged := by
  have harrive : s.exec request checked (.arrive p content) =
      s.set p ⟨content, .refused⟩ (.entering content) := by
    simp only [Files.exec]
    rw [if_neg (by rw [hnew]; decide), if_pos hplace]
  show _ = some (run request checked (s.exec request checked (.arrive p content)) _).staged
  rw [harrive, run_step (Map.get_insert_self _ _ _), run_step (Map.get_insert_self _ _ _)]
  simp only [stepPut, set, hplace]
  rw [writing_alone (Map.get_insert_self _ _ _) rfl rfl (Nat.le_refl _)]
  unfold MemoryShelf.write
  rw [if_pos hthere]
  show (shelf.staging.insert u _)[u]? = _
  rw [Map.get_insert_self]
  show _ = some (leaves checked [] (pump request.size content 0))
  cases pump request.size content 0 with
  | mk answer sunk => cases answer <;> rfl

end Files

end

/-! ## Evaluated runs -/

namespace Files

/-- A put is sent two bytes and fails at the third read. In between, a commit finds
content of the announced size and publishes it: the put then empties the item. -/
def overtaken : List Event :=
  [.arrive 0 [.piece [1, 2], .failed], .step 0, .step 0, .step 0, .look, .check,
    .settle false, .step 0, .step 0]

/-- A put is sent two bytes and then the end, and is committed. -/
def inTurn : List Event :=
  [.arrive 0 [.piece [1, 2]], .step 0, .step 0, .step 0, .step 0, .look, .check, .settle false]

/-- The item of two bytes is published before its put is done, and emptied by it. And
where nothing is announced, nothing need be put. -/
theorem published_emptied :
    (let s := @Files.run Sample.crates (Sample.request 2 none) false .initial overtaken;
      s.place = .published ∧ s.content = [] ∧
        ¬@Sound Sample.crates (Sample.request 2 none) false s) ∧
    (let s := @Files.run Sample.crates (Sample.request 0 none) false .initial
        [.look, .check, .settle false];
      s.place = .published ∧ s.puts.toList = [] ∧
        ¬@Sound Sample.crates (Sample.request 0 none) false s) := by
  refine ⟨⟨by decide +kernel, by decide +kernel, fun h => ?_⟩,
    by decide +kernel, by decide +kernel, fun h => ?_⟩
  · have hsize := @Sound.size Sample.crates _ _ _ h
    revert hsize
    decide +kernel
  · obtain ⟨p, sent, sunk, hput, -⟩ := @Sound.whole Sample.crates _ _ _ h
    have hmem := Map.mem_toList_iff.mpr hput
    revert hmem
    rw [show (@Files.run Sample.crates (Sample.request 0 none) false .initial
      [.look, .check, .settle false]).puts.toList = [] by decide +kernel]
    exact List.not_mem_nil

/-- In turn, the item is what was sent, and a put that comes late does not change it. -/
theorem published_inTurn :
    let s := @Files.run Sample.crates (Sample.request 2 none) false .initial inTurn
    let s' := @Files.run Sample.crates (Sample.request 2 none) false .initial
      (inTurn ++ [.arrive 1 [.failed], .step 1, .forget])
    @Sound Sample.crates (Sample.request 2 none) false s ∧ s.content = [1, 2] ∧
      (s'.place = .gone ∨ (s'.place = .published ∧ s'.content = s.content)) := by
  obtain ⟨hsound, hkept⟩ := @published_run Sample.crates (Sample.request 2 none) false inTurn
    [.arrive 1 [.failed], .step 1, .forget] (by decide +kernel) (by decide +kernel)
  exact ⟨hsound, by decide +kernel, hkept⟩

end Files

end FsShelf

end Passalong
