import Passalong.ContentRead
import Passalong.Texts

/-!
# Reading the items of a workspace (`workspace.rs`, `Engine::read`)

A read loads the record and then asks the shelf, with no lock between: any events may
come in between. What it answers is what it would answer at a single moment of the
request (`atOnce_run`), unless the generation that it loaded is switched away from and
then dropped, or deleted from, before the shelf is asked.
-/

namespace Passalong

open Lib

/-! ## The reads -/

namespace Rules

variable (r : Rules)

/-- `listItemIds`: newest first. -/
def itemIds (partition : Partition) : List ItemId :=
  match r.record.generationOf partition with
  | some g => r.shelf.ids g
  | none => []

/-- `findByContentKey`: the oldest item with that content key. -/
def findByContentKey (contentKey : String) : Option ItemId :=
  (r.shelf.ids r.record.generation).reverse.find? fun id => id.contentKeyStr = contentKey

end Rules

/-- The reads that ask the shelf once, about the current generation. -/
inductive Ask where
  | itemIds
  | findByContentKey (contentKey : String)
  | item (id : ItemId)
  deriving DecidableEq, Repr

inductive Reply where
  | ids (ids : List ItemId)
  | found (id : Option ItemId)
  | item (item : Option StoredItem)
  deriving DecidableEq, Repr

def Ask.answer (r : Rules) : Ask → Reply
  | .itemIds => .ids (r.itemIds .current)
  | .findByContentKey contentKey => .found (r.findByContentKey contentKey)
  | .item id => .item (r.item .current id)

/-- What is answered depends on the items of the current generation alone. -/
theorem Ask.answer_congr (ask : Ask) {r₁ r₂ : Rules}
    (h : r₁.shelf.generation r₁.record.generation = r₂.shelf.generation r₂.record.generation) :
    ask.answer r₁ = ask.answer r₂ := by
  have hids : r₁.shelf.ids r₁.record.generation = r₂.shelf.ids r₂.record.generation := by
    rw [MemoryShelf.ids, MemoryShelf.ids, h]
  cases ask with
  | itemIds => exact congrArg Reply.ids hids
  | findByContentKey contentKey =>
    show Reply.found _ = Reply.found _
    rw [Rules.findByContentKey, Rules.findByContentKey, hids]
  | item id =>
    show Reply.item (r₁.shelf.get _ id) = Reply.item (r₂.shelf.get _ id)
    rw [MemoryShelf.get, MemoryShelf.get, h]

/-! ## Generations nothing is current in any more -/

/-- A generation that was current, or never came to be: uploads do not go there. -/
structure WorkspaceRecord.Past (rec : WorkspaceRecord) (g : Nat) : Prop where
  generation : g ≠ rec.generation
  staged : rec.stagedGeneration ≠ some g
  numbered : g < rec.nextGeneration

/-- What is past stays so. -/
theorem WorkspaceRecord.Past.move {rec rec' : WorkspaceRecord} {shelf shelf' : MemoryShelf}
    {g : Nat} (hp : rec.Past g) (h : Move rec shelf rec' shelf') : rec'.Past g := by
  have hgeneration := hp.generation
  have hnumbered := hp.numbered
  cases h with
  | same hsame =>
    refine ⟨?_, ?_, ?_⟩
    · rw [hsame.generation]
      exact hgeneration
    · rw [stagedGeneration, hsame.state]
      exact hp.staged
    · rw [hsame.nextGeneration]
      exact hnumbered
  | sealed _ _ => exact ⟨hgeneration, fun h => (by cases h), hnumbered⟩
  | setAside _ => exact ⟨Nat.ne_of_lt hnumbered, fun h => (by cases h), Nat.lt_succ_of_lt hnumbered⟩
  | reheaded _ => exact ⟨hgeneration, fun h => (by cases h), hnumbered⟩
  | @opened session _ _ _ hstaged _ _ =>
    refine ⟨hgeneration, fun h => ?_, Nat.lt_succ_of_lt hnumbered⟩
    have hg : session.stagedGeneration = g := Option.some.inj h
    omega
  | renewed hstate =>
    refine ⟨hgeneration, fun h => hp.staged ?_, hnumbered⟩
    exact (stagedGeneration_of_rewriting hstate).trans h
  | switched hstate =>
    refine ⟨fun h => hp.staged ?_, fun h => (by cases h), hnumbered⟩
    rw [stagedGeneration_of_rewriting hstate, h]
    rfl
  | restored _ => exact ⟨hgeneration, fun h => (by cases h), hnumbered⟩

/-- Where the pointer is moved away from is past, and the move leaves the shelf alone. -/
theorem Move.leaves {rec rec' : WorkspaceRecord} {shelf shelf' : MemoryShelf}
    (h : Move rec shelf rec' shelf') (hl : rec.Layout)
    (hmoved : rec'.generation ≠ rec.generation) :
    rec'.Past rec.generation ∧ shelf' = shelf := by
  have hlt := hl.live_lt rec.generation List.mem_cons_self
  cases h with
  | same hsame => exact absurd hsame.generation hmoved
  | setAside _ => exact ⟨⟨Nat.ne_of_lt hlt, fun h => (by cases h), Nat.lt_succ_of_lt hlt⟩, rfl⟩
  | switched hstate => exact ⟨⟨hmoved.symm, fun h => (by cases h), hlt⟩, rfl⟩
  | _ => exact absurd rfl hmoved

section
variable [Crates]

/-- Whether an event takes an item from a generation: it is there before, and not after. -/
def World.takes (limits : Limits) (g : Nat) (id : ItemId) (w : World) (e : Event) : Bool :=
  (w.shelf.generation g)[id]?.isSome && ((w.exec limits e).shelf.generation g)[id]?.isNone

/-- Whether an event takes any item from a generation. -/
def World.erases (limits : Limits) (g : Nat) (w : World) (e : Event) : Bool :=
  (w.shelf.ids g).any fun id => w.takes limits g id e

/-- An operation adds nothing to a generation that is past. -/
theorem ShelfStep.keeps_past {r : Rules} {op : Op} {shelf : MemoryShelf} {g : Nat}
    (h : ShelfStep r op shelf) (hp : r.record.Past g) {id : ItemId} {item : Item}
    (hitem : (shelf.generation g)[id]? = some item) :
    (r.shelf.generation g)[id]? = some item := by
  cases h with
  | same => exact hitem
  | removed _ =>
    rw [MemoryShelf.remove_generation] at hitem
    split at hitem
    · rename_i e
      subst e
      exact Map.get_of_get_erase hitem
    · exact hitem
  | fresh _ =>
    rw [MemoryShelf.stageCreate_generation] at hitem
    exact hitem
  | again _ =>
    rw [MemoryShelf.stageCreate_generation] at hitem
    exact hitem
  | probed _ =>
    rw [MemoryShelf.stageRemove_generation, MemoryShelf.stageCreate_generation] at hitem
    exact hitem
  | wrote =>
    rw [MemoryShelf.write_generation] at hitem
    exact hitem
  | published _ htarget _ _ _ _ hitems =>
    -- what is published goes to the staged generation, or to the current one
    rw [hitems, if_neg] at hitem
    · exact hitem
    rintro rfl
    cases htarget with
    | staged session hstate _ _ _ =>
      exact hp.staged (WorkspaceRecord.stagedGeneration_of_rewriting hstate)
    | current _ _ _ _ => exact hp.generation rfl

namespace World

variable {limits : Limits} {w w' : World} {e : Event} {g : Nat} {id : ItemId} {item : Item}

/-- An event that does not take an item leaves it as it is. -/
theorem item_of_not_takes (hitem : (w.shelf.generation g)[id]? = some item)
    (htakes : w.takes limits g id e = false) :
    ((w.exec limits e).shelf.generation g)[id]? = some item := by
  rcases (w.exec_step limits e).keeps_item hitem with hkept | ⟨hnone, -⟩
  · exact hkept
  · simp [takes, hitem, hnone] at htakes

theorem Step.keeps_past (h : Step limits w e w') (hp : w.record.Past g)
    (hitem : (w'.shelf.generation g)[id]? = some item) :
    (w.shelf.generation g)[id]? = some item := by
  cases h with
  | done _ hchange => exact hchange.shelfStep.keeps_past hp hitem
  | refused hshelf =>
    rcases hshelf with rfl | ⟨u, content, announced, hashed, rfl⟩
    · exact hitem
    · rw [MemoryShelf.write_generation] at hitem
      exact hitem
  | cut hshelf => exact hshelf.keeps_past hp hitem
  | @performed i c hpending =>
    cases c with
    | dropGeneration d =>
      change ((w.shelf.dropGeneration d).generation g)[id]? = some item at hitem
      rw [MemoryShelf.dropGeneration_generation] at hitem
      split at hitem
      · rw [Std.ExtTreeMap.getElem?_empty] at hitem
        cases hitem
      · exact hitem
    | removeStaging u => exact hitem
  | idle _ => exact hitem
  | lost => exact hitem
  | wroteLate =>
    rw [MemoryShelf.write_generation] at hitem
    exact hitem

/-- Nothing happens to a generation that is past in an event that takes nothing from it. -/
theorem keeps_past (hp : w.record.Past g) (hkept : w.erases limits g e = false) :
    (w.exec limits e).shelf.generation g = w.shelf.generation g := by
  refine Std.ExtTreeMap.ext_getElem? fun id => ?_
  cases hitem : (w.shelf.generation g)[id]? with
  | some item =>
    refine item_of_not_takes hitem ?_
    exact Bool.eq_false_iff.mpr
      (List.any_eq_false.mp hkept id ((MemoryShelf.mem_ids _).mpr ⟨item, hitem⟩))
  | none =>
    cases hnew : ((w.exec limits e).shelf.generation g)[id]? with
    | none => rfl
    | some item =>
      have hold := (w.exec_step limits e).keeps_past hp hnew
      rw [hitem] at hold
      cases hold

/-- So in a run of such events. -/
theorem keeps_past_run {es : List Event} (hp : w.record.Past g)
    (hkept : Runs.Along (exec limits)
      (fun v e => v.record.generation = g ∨ v.erases limits g e = false) w es) :
    (w.run limits es).shelf.generation g = w.shelf.generation g := by
  refine (Runs.invariant (exec limits)
    (I := fun v => v.record.Past g ∧ v.shelf.generation g = w.shelf.generation g) ?_
    ⟨hp, rfl⟩ hkept).2
  rintro v e ⟨hpast, hsame⟩ hcond
  refine ⟨hpast.move (v.exec_step limits e).move, (keeps_past hpast ?_).trans hsame⟩
  exact hcond.resolve_left hpast.generation.symm

/-- What a read is answered that loads the record after the events `before` and asks the
shelf after those `between`. -/
def asked (limits : Limits) (call : Call) (before between : List Event) (ask : Ask) : Reply :=
  let loaded := initial.run limits before
  ask.answer ((loaded.run limits between).reading limits call loaded.record)

/-- What the same read is answered at once, after so many of the events between. -/
def askedAt (limits : Limits) (call : Call) (before between : List Event) (n : Nat)
    (ask : Ask) : Reply :=
  ask.answer ((initial.run limits (before ++ between.take n)).rules limits call)

/-- As long as nothing takes items from what the pointer has left, there was a moment at which the
generation was current and as it is in the end. -/
theorem moment (hl : w.Laid) {es : List Event}
    (hkept : Runs.Along (exec limits)
      (fun v e => v.record.generation = w.record.generation ∨
        v.erases limits w.record.generation e = false) w es) :
    ∃ n ≤ es.length,
      (w.run limits (es.take n)).record.generation = w.record.generation ∧
      (w.run limits (es.take n)).shelf.generation w.record.generation =
        (w.run limits es).shelf.generation w.record.generation := by
  induction es generalizing w with
  | nil => exact ⟨0, Nat.le_refl 0, rfl, rfl⟩
  | cons e es ih =>
    have hstep := w.exec_step limits e
    by_cases hmoved : (w.exec limits e).record.generation = w.record.generation
    · -- still current: the moment is one of the rest
      have hrest := hkept.2
      rw [← hmoved] at hrest
      obtain ⟨n, hn, hgeneration, hitems⟩ := ih (hl.step hstep) hrest
      rw [hmoved] at hgeneration hitems
      exact ⟨n + 1, Nat.succ_le_succ hn, hgeneration, hitems⟩
    · -- it is left now: the moment is the one before
      obtain ⟨hpast, hshelf⟩ := hstep.move.leaves hl.layout hmoved
      refine ⟨0, Nat.zero_le _, rfl, ?_⟩
      have hsame := keeps_past_run hpast hkept.2
      rw [hshelf] at hsame
      exact hsame.symm

/-- **A read is answered as at one moment of it**, whatever else goes on, as long as
nothing takes an item from the generation that was loaded, by dropping it or by deleting,
once another one is current. -/
theorem atOnce_run (limits : Limits) (call : Call) (before between : List Event) (ask : Ask)
    (hkept : Runs.Along (exec limits)
      (fun w e => w.record.generation = (initial.run limits before).record.generation ∨
        w.erases limits (initial.run limits before).record.generation e = false)
      (initial.run limits before) between) :
    ∃ n ≤ between.length,
      asked limits call before between ask = askedAt limits call before between n ask := by
  obtain ⟨n, hn, hgeneration, hitems⟩ := moment (laid_run laid_initial before) hkept
  refine ⟨n, hn, ask.answer_congr ?_⟩
  have hrun : initial.run limits (before ++ between.take n) =
      (initial.run limits before).run limits (between.take n) := Runs.run_append _ _ _ _
  show _ = (initial.run limits (before ++ between.take n)).shelf.generation
    (initial.run limits (before ++ between.take n)).record.generation
  rw [hrun, hgeneration, hitems]
  rfl

end World

end

/-- A rewrite is committed while a listing is under way, and its old generation not yet
dropped. -/
theorem World.atOnce_switched :
    ∃ n ≤ 1, @World.asked Sample.crates Sample.limits (Sample.call 0 []) (Sample.restaging [3, 4])
        [.request (Sample.call 0 []) (.commitRewrite Sample.laptop Sample.keyB)] .itemIds =
      @World.askedAt Sample.crates Sample.limits (Sample.call 0 []) (Sample.restaging [3, 4])
        [.request (Sample.call 0 []) (.commitRewrite Sample.laptop Sample.keyB)] n .itemIds :=
  @World.atOnce_run Sample.crates Sample.limits (Sample.call 0 []) (Sample.restaging [3, 4])
    [.request (Sample.call 0 []) (.commitRewrite Sample.laptop Sample.keyB)] .itemIds
    (by decide +kernel)

/-- The old generation is dropped before the shelf is asked: a workspace that holds a note
at every moment is listed as empty. -/
theorem World.atOnce_dropped :
    let between : List Event :=
      [.request (Sample.call 0 []) (.commitRewrite Sample.laptop Sample.keyB), .cleanup 2]
    @World.asked Sample.crates Sample.limits (Sample.call 0 []) (Sample.restaging [3, 4]) between
        .itemIds = .ids [] ∧
      ∀ n ≤ between.length,
        @World.askedAt Sample.crates Sample.limits (Sample.call 0 []) (Sample.restaging [3, 4])
          between n .itemIds = .ids [Sample.note] := by
  decide +kernel

end Passalong
