import Passalong.Lib.Runs
import Passalong.Notes

/-!
# Runs with crashes (`shelf/fs.rs`, `upload.rs`)

Any number of methods and commits are under way on one shelf, their steps in any order; each
may be cut inside any of its steps, and the shelf may be opened anew at any time, which itself
may be cut. Two that change the files of one upload do not overlap (`Apart`).

A publish or a removal that is cut between the directory and its note leaves the note, until the
shelf is opened again or the upload is written again. `stage_create` does not look at it, so that
a place made there, which a begin that is sent again makes, has a note of other content
(`note_left`).

- `Good` is what holds of the shelf and of everything under way, and stays whatever happens
  next, if no place is made beside a note that was left (`Orderly`): `Good.exec`.
- `notes_run`: then a note tells the truth at every moment of every run, and where plaintext is
  checked, what is published under no key is what its `meta` says.
- `swept_reopen`: an opening that is not cut leaves no such note.
-/

namespace Passalong

open Lib

namespace FsShelf

namespace Script

/-- Whose files a program changes, and whether it makes their directory. -/
structure Label where
  own : Option UploadId
  creates : Bool
  deriving DecidableEq, Repr

/-- A shelf and what is under way on it. -/
structure Life where
  pool : Pool FsShelf ApiError Label

/-- What can happen next. -/
inductive Event where
  | start (a : Act)
  /-- A program takes its next step. -/
  | step (i : Nat)
  /-- A program is cut inside its next step. -/
  | cut (i n : Nat)
  /-- A process opens the shelf, and may be cut at that. Whatever was under way is over. -/
  | reopen (process : Nat) (cut : Option (Nat × Nat))

/-- Whether plaintext is checked before it is published. -/
def Event.checks : Event → Bool
  | .start a => a.checks
  | _ => true

namespace Life

/-- A shelf on which nothing is under way. -/
def idle (shelf : FsShelf) : Life := ⟨⟨shelf, []⟩⟩

def initial (process : Nat) : Life := idle (new process)

def shelf (life : Life) : FsShelf := life.pool.state

/-- The uploads whose files are being changed. -/
def busy (life : Life) : List UploadId :=
  life.pool.running.filterMap fun t => t.bind fun t => t.1.own

theorem mem_busy {life : Life} {u : UploadId} :
    u ∈ life.busy ↔ ∃ i t, life.pool.task i = some t ∧ t.1.own = some u := by
  unfold busy
  rw [List.mem_filterMap]
  constructor
  · rintro ⟨t, ht, hown⟩
    obtain ⟨t, rfl, hown⟩ := Option.bind_eq_some_iff.mp hown
    obtain ⟨i, hi⟩ := List.mem_iff_getElem?.mp ht
    exact ⟨i, t, Pool.task_eq_some.mpr hi, hown⟩
  · rintro ⟨i, t, hi, hown⟩
    exact ⟨some t, List.mem_of_getElem? (Pool.task_eq_some.mp hi), hown⟩

section
variable [Crates] [ServerJson]

/-- One event. -/
def exec (life : Life) : Event → Life
  | .start a => ⟨life.pool.start ⟨a.own, a.creates⟩ a.script⟩
  | .step i => ⟨life.pool.step i⟩
  | .cut i n => ⟨life.pool.cut i n⟩
  | .reopen process none => idle ((openAt process).run life.shelf).2
  | .reopen process (some (k, n)) => idle ((openAt process).cut k n life.shelf)

/-- What changes the files of one upload does not overlap, and times are `u64`. -/
def Apart (life : Life) : Event → Prop
  | .start a => (∀ u ∈ a.own, u ∉ life.busy) ∧ a.InTime
  | _ => True

instance (life : Life) (e : Event) : Decidable (life.Apart e) :=
  match e with
  | .start a =>
    inferInstanceAs (Decidable ((∀ u ∈ a.own, u ∉ life.busy) ∧ ∀ t ∈ a.time, t < u64Bound))
  | .step _ | .cut _ _ | .reopen _ _ => .isTrue trivial

/-- No staging place is begun to be made where a whole note was left without its directory. -/
def Clean (life : Life) : Event → Prop
  | .start a => a.creates = true → ∀ u ∈ a.own, noteLeft u life.shelf = false
  | _ => True

instance (life : Life) (e : Event) : Decidable (life.Clean e) :=
  match e with
  | .start a =>
    inferInstanceAs
      (Decidable (a.creates = true → ∀ u ∈ a.own, noteLeft u life.shelf = false))
  | .step _ | .cut _ _ | .reopen _ _ => .isTrue trivial

/-- A whole run. -/
def run (life : Life) (es : List Event) : Life := Runs.run exec life es

end

end Life

/-! ## What stays -/

section Runs

variable [Crates] [ServerJson]

/-- Only what makes a directory needs to know that no note is left of it. -/
def Label.Loose (label : Label) : Prop := label.creates = false

def Label.terms (checked : Prop) (label : Label) : Terms FsShelf :=
  Script.terms checked label.own label.Loose

/-- What holds at every moment: every program keeps to its terms, and what no program is
concerned with is in order. -/
structure Good (checked : Prop) (life : Life) : Prop where
  sound : life.pool.Sound (Label.terms checked) fun _ _ => True
  idle : ∀ u, u ∉ life.busy → KeptAt True u life.shelf
  honest : checked → Honest life.shelf
  apart : ∀ i j a b u, life.pool.task i = some a → life.pool.task j = some b →
    a.1.own = some u → b.1.own = some u → i = j

namespace Good

variable {life : Life} {checked : Prop} {u : UploadId}

/-- Of every upload it is known that its note is in order. -/
theorem kept (h : Good checked life) (u : UploadId) : KeptAt True u life.shelf := by
  by_cases hbusy : u ∈ life.busy
  · obtain ⟨i, t, hi, hown⟩ := Life.mem_busy.mp hbusy
    exact ((h.sound.inv i t hi).1 u hown).loosen fun _ => trivial
  · exact h.idle u hbusy

theorem of_idle {shelf : FsShelf} (hkept : ∀ u, KeptAt True u shelf)
    (hhonest : checked → Honest shelf) : Good checked (Life.idle shelf) where
  sound :=
    ⟨fun _ _ _ _ _ h => (nomatch h), fun _ _ h => (nomatch h), fun _ _ h => (nomatch h)⟩
  idle u _ := hkept u
  honest := hhonest
  apart _ _ _ _ _ h := nomatch h

theorem initial (process : Nat) : Good checked (Life.initial process) := by
  have hnone : ∀ q : Path, 2 ≤ q.length → (new process).disk.get q = none := by
    intro q hq
    rw [get_new, if_neg]
    rintro (rfl | rfl | rfl) <;> simp [FsShelf.staging, FsShelf.trash] at hq
  refine of_idle (fun u => .of_unnoted (hnone _ (le_refl 2)))
    fun _ g id content _ _ _ hcontent => ?_
  have habsent := hnone (itemDir g id ++ ["content"]) (by simp [itemDir])
  exact absurd (habsent.symm.trans hcontent) (by simp)

/-- Something is begun. -/
theorem start (hjson : checked → ReadsBack) (h : Good checked life) {a : Act}
    (happart : life.Apart (.start a)) (hclean : life.Clean (.start a))
    (hchecked : checked → a.checks = true) : Good checked (life.exec (.start a)) := by
  obtain ⟨hidle, htime⟩ := happart
  have htask : ∀ j, (life.exec (.start a)).pool.task j =
      if j = life.pool.running.length then some (⟨a.own, a.creates⟩, a.script)
      else life.pool.task j := Pool.task_start
  -- what makes a directory finds no note of it, and what makes none does not mind
  have hkept : ∀ u, a.own = some u → KeptAt (a.creates = false) u life.shelf := by
    intro u hu
    by_cases hcreates : a.creates = true
    · exact (h.kept u).of_not_left (hclean hcreates u hu)
    · exact (h.kept u).loosen fun _ => Bool.eq_false_of_not_eq_true hcreates
  refine ⟨h.sound.start ⟨hkept, h.honest⟩ ?_ fun i t hi => ?_, fun u hu => ?_, h.honest,
    fun i j b c u hi hj hb hc => ?_⟩
  · exact Act.keeps_script hjson htime hchecked
      (fun hcreates hloose => by cases hcreates.symm.trans hloose) (fun hloose => hloose) hkept
  · have hapart : ∀ u, a.own = some u → t.1.own ≠ some u :=
      fun u hu hown => hidle u hu (Life.mem_busy.mpr ⟨i, t, hi, hown⟩)
    exact ⟨terms_spares hapart, terms_spares fun u hown hu => hapart u hu hown⟩
  · refine h.idle u fun hbusy => hu ?_
    obtain ⟨i, t, hi, hown⟩ := Life.mem_busy.mp hbusy
    refine Life.mem_busy.mpr ⟨i, t, ?_, hown⟩
    rw [htask, if_neg (Nat.ne_of_lt (Pool.lt_of_task hi))]
    exact hi
  · rw [htask] at hi hj
    split_ifs at hi hj with hi' hj' hj'
    · exact hi'.trans hj'.symm
    · cases hi
      exact absurd (Life.mem_busy.mpr ⟨j, c, hj, hc⟩) (hidle u hb)
    · cases hj
      exact absurd (Life.mem_busy.mpr ⟨i, b, hi, hb⟩) (hidle u hc)
    · exact h.apart i j b c u hi hj hb hc

/-- One program moves on, or is over, and nothing else changes. -/
theorem moved (h : Good checked life) {i : Nat} {label : Label} {p : Script Unit}
    (hi : life.pool.task i = some (label, p)) {life' : Life}
    (hsound : life'.pool.Sound (Label.terms checked) fun _ _ => True)
    (hothers : ∀ j, i ≠ j → life'.pool.task j = life.pool.task j)
    (hfine : (label.terms checked).Fine life.shelf life'.shelf)
    (hown : ∀ t, life'.pool.task i = some t → t.1 = label) : Good checked life' := by
  have hlabel : ∀ j t, life'.pool.task j = some t → ∃ q, life.pool.task j = some (t.1, q) := by
    intro j t hj
    by_cases hij : i = j
    · subst hij
      rw [hown t hj]
      exact ⟨p, hi⟩
    · exact ⟨t.2, (hothers j hij).symm.trans hj⟩
  refine ⟨hsound, fun u hu => ?_, hfine.1.2, fun j k a b u hj hk ha hb => ?_⟩
  · by_cases hu' : label.own = some u
    · exact (hfine.1.1 u hu').loosen fun _ => trivial
    · refine (h.idle u fun hbusy => ?_).same (hfine.2 u hu')
      obtain ⟨j, t, hj, ht⟩ := Life.mem_busy.mp hbusy
      by_cases hij : i = j
      · subst hij
        cases hi.symm.trans hj
        exact hu' ht
      · exact hu (Life.mem_busy.mpr ⟨j, t, (hothers j hij).trans hj, ht⟩)
  · obtain ⟨q, hq⟩ := hlabel j a hj
    obtain ⟨r, hr⟩ := hlabel k b hk
    exact h.apart j k _ _ u hq hr ha hb

/-- A program takes a step, or is over. -/
theorem step (h : Good checked life) (i : Nat) : Good checked (life.exec (.step i)) := by
  show Good checked ⟨life.pool.step i⟩
  cases hi : life.pool.task i with
  | none =>
    have hstep : life.pool.step i = life.pool := by simp only [Pool.step, hi]
    rw [hstep]
    exact h
  | some t =>
    obtain ⟨label, p⟩ := t
    have hsound := h.sound.step (fun _ _ _ _ h => h) i
    rcases h.sound.step_cases hi with ⟨hstate, -, htask⟩ | ⟨hfine, q, -, htask⟩
    · refine h.moved hi hsound (fun j hij => (htask j).trans (if_neg hij)) ?_ fun t ht => ?_
      · show (label.terms checked).Fine life.pool.state (life.pool.step i).state
        rw [hstate]
        exact ⟨h.sound.inv i _ hi, (label.terms checked).may_refl _⟩
      · cases ((htask i).trans (if_pos rfl)).symm.trans ht
    · refine h.moved hi hsound (fun j hij => (htask j).trans (if_neg hij)) hfine fun t ht => ?_
      cases ((htask i).trans (if_pos rfl)).symm.trans ht
      rfl

/-- A program is cut. -/
theorem cut (h : Good checked life) (i n : Nat) : Good checked (life.exec (.cut i n)) := by
  show Good checked ⟨life.pool.cut i n⟩
  cases hi : life.pool.task i with
  | none =>
    have hcut : life.pool.cut i n = life.pool := by simp only [Pool.cut, hi]
    rw [hcut]
    exact h
  | some t =>
    obtain ⟨label, p⟩ := t
    obtain ⟨hfine, htask⟩ := h.sound.cut_cases hi n
    refine h.moved hi (h.sound.cut (fun _ _ _ _ h => h) i n)
      (fun j hij => (htask j).trans (if_neg hij)) hfine fun t ht => ?_
    cases ((htask i).trans (if_pos rfl)).symm.trans ht

/-- The shelf is opened anew, or was about to be. -/
theorem reopen (h : Good checked life) (process : Nat) (cut : Option (Nat × Nat)) :
    Good checked (life.exec (.reopen process cut)) := by
  have hfound : (opening checked).inv life.shelf := ⟨h.kept, h.honest⟩
  have hkeeps : (openAt process).Keeps (opening checked)
      (fun answer s' => answer = .ok () → ∀ u, KeptAt False u s') life.shelf :=
    keeps_openAt process
  cases cut with
  | some kn =>
    obtain ⟨hkept, hhonest⟩ := hkeeps.cut hfound kn.1 kn.2
    exact of_idle hkept hhonest
  | none =>
    obtain ⟨⟨hkept, hhonest⟩, -⟩ := hkeeps.run hfound
    exact of_idle hkept hhonest

/-- **Whatever happens next, everything is still in order.** -/
theorem exec (hjson : checked → ReadsBack) (h : Good checked life) {e : Event}
    (happart : life.Apart e) (hclean : life.Clean e) (hchecked : checked → e.checks = true) :
    Good checked (life.exec e) := by
  cases e with
  | start a => exact h.start hjson happart hclean hchecked
  | step i => exact h.step i
  | cut i n => exact h.cut i n
  | reopen process cut => exact h.reopen process cut

theorem run (hjson : checked → ReadsBack) (h : Good checked life) {es : List Event}
    (happart : Runs.Along Life.exec Life.Apart life es)
    (hclean : Runs.Along Life.exec Life.Clean life es)
    (hchecked : checked → ∀ e ∈ es, e.checks = true) : Good checked (life.run es) :=
  Runs.invariant (I := Good checked) Life.exec
    (P := fun life e => life.Apart e ∧ life.Clean e ∧ (checked → e.checks = true))
    (fun _ _ h he => h.exec hjson he.1 he.2.1 he.2.2) h
    (Runs.along_and _ happart (Runs.along_and _ hclean
      (Runs.along_of_forall _ fun e he h => hchecked h e he)))

end Good

/-- An opening that gets through leaves no note without its directory. -/
theorem swept_reopen (process : Nat) {es : List Event}
    (happart : Runs.Along Life.exec Life.Apart (Life.initial process) es)
    (hclean : Runs.Along Life.exec Life.Clean (Life.initial process) es) (next : Nat)
    (hopens : ((openAt next).run ((Life.initial process).run es).shelf).1 = .ok ())
    (u : UploadId) :
    noteLeft u (((Life.initial process).run es).exec (.reopen next none)).shelf = false := by
  have hgood : Good False ((Life.initial process).run es) :=
    (Good.initial process).run False.elim happart hclean False.elim
  have hkeeps : (openAt next).Keeps (opening False)
      (fun answer s' => answer = .ok () → ∀ u, KeptAt False u s')
      ((Life.initial process).run es).shelf := keeps_openAt next
  exact ((hkeeps.run ⟨hgood.kept, hgood.honest⟩).2 hopens u).not_left

end Runs

end Script

end FsShelf

namespace Sample

/-- The SHA-256 of `hello`. -/
def helloDigest : Digest :=
  ⟨20329878786436204988385760252021328656300425018755239228739303522659023427620⟩

def helloBytes : Bytes := [104, 101, 108, 108, 111]

/-- The `meta` of `hello`. -/
def helloMeta : Bytes :=
  ("\x7b\"sha256\":\"" ++ helloDigest.hex ++ "\",\"size\":5\x7d").toList.map fun c =>
    UInt8.ofNat c.toNat

/-- Hashes `hello`, and reads its `meta`, as the crates do. -/
@[reducible] def helloCrates : Crates where
  sha256 bytes := if bytes = helloBytes then helloDigest else ⟨0⟩
  readMeta bytes := if bytes = helloMeta then some ⟨some helloDigest.hex, some 5⟩ else none

def helloRequest : UploadRequest := ⟨⟨1, helloDigest.contentKey⟩, helloMeta, 5, none, false⟩

open FsShelf.Script.Event in
/-- Two uploads of `hello`, of which the first one's commit is cut after the rename, and the
second is sent again after the shelf was opened. -/
def crashes : List FsShelf.Script.Event :=
  start (.call (.stageCreate ⟨1⟩)) :: List.replicate 4 (step 0) ++
    [start (.call (.stageWriteHashed ⟨1⟩ [.piece helloBytes] 5)),
      start (.call (.stageCreate ⟨2⟩))] ++
    List.replicate 7 (step 1) ++ List.replicate 4 (step 2) ++
    [start (.commit ⟨1⟩ helloRequest 0 true 60),
      start (.call (.stageWriteHashed ⟨2⟩ [.piece [104]] 5))] ++
    List.replicate 11 (step 3) ++ List.replicate 5 (step 4) ++
    [cut 3 0, cut 4 1, reopen 8 none, start (.call (.stageCreate ⟨1⟩)),
      start (.call (.stageWriteHashed ⟨2⟩ [.piece helloBytes] 5))] ++ List.replicate 6 (step 1)

open FsShelf.Script.Event in
/-- An upload of `hello` whose commit is cut after the rename; the item is removed, and the begin
is sent again, which makes the staging place anew. -/
def begunAgain : List FsShelf.Script.Event :=
  start (.call (.stageCreate ⟨1⟩)) :: List.replicate 4 (step 0) ++
    start (.call (.stageWriteHashed ⟨1⟩ [.piece helloBytes] 5)) :: List.replicate 7 (step 1) ++
    start (.commit ⟨1⟩ helloRequest 0 true 60) :: List.replicate 11 (step 2) ++
    [cut 2 0, start (.call (.remove 0 helloRequest.id))] ++ List.replicate 5 (step 3) ++
    start (.call (.stageCreate ⟨1⟩)) :: List.replicate 4 (step 4)

end Sample

end Passalong
