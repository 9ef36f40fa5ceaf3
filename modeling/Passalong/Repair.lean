import Passalong.Layout

/-!
# Opening a workspace repairs it

`Engine::open` runs `reconcile` as one transaction and then performs the clean-ups
it asked for. Nothing is assumed of the record and the shelf it is given: not that
they were reached by a run, nor that they agree (`reopen_repairs`). Opening twice
is opening once, and so is opening after an opening that was stopped at any point,
because the rubbish is computed anew from the record and the shelf (`reopen_swept`).
-/

namespace Passalong

open Lib

/-! ## Performing clean-ups one after the other -/

/-- Performs clean-ups in order. -/
def sweep (s : MemoryShelf) (cs : List Cleanup) : MemoryShelf := cs.foldl Cleanup.perform s

theorem sweep_staging (s : MemoryShelf) (cs : List Cleanup) (u : UploadId) :
    (sweep s cs).staging[u]? =
      if Cleanup.removeStaging u ∈ cs then none else s.staging[u]? := by
  induction cs generalizing s with
  | nil => rfl
  | cons c cs ih =>
    show (sweep (c.perform s) cs).staging[u]? = _
    rw [ih]
    by_cases hmem : Cleanup.removeStaging u ∈ cs
    · rw [if_pos hmem, if_pos (List.mem_cons_of_mem _ hmem)]
    · rw [if_neg hmem]
      cases c with
      | dropGeneration g =>
        have hout : Cleanup.removeStaging u ∉ Cleanup.dropGeneration g :: cs := by
          simpa using hmem
        rw [if_neg hout]
        rfl
      | removeStaging v =>
        show (s.stageRemove v).staging[u]? = _
        rw [MemoryShelf.stageRemove_staging]
        by_cases e : v = u
        · subst e
          rw [if_pos rfl, if_pos List.mem_cons_self]
        · have hout : Cleanup.removeStaging u ∉ Cleanup.removeStaging v :: cs := by
            simp only [List.mem_cons, Cleanup.removeStaging.injEq, not_or]
            exact ⟨fun h => e h.symm, hmem⟩
          rw [if_neg e, if_neg hout]

theorem sweep_items (s : MemoryShelf) (cs : List Cleanup) (g : Nat) :
    (sweep s cs).items[g]? = if Cleanup.dropGeneration g ∈ cs then none else s.items[g]? := by
  induction cs generalizing s with
  | nil => rfl
  | cons c cs ih =>
    show (sweep (c.perform s) cs).items[g]? = _
    rw [ih]
    by_cases hmem : Cleanup.dropGeneration g ∈ cs
    · rw [if_pos hmem, if_pos (List.mem_cons_of_mem _ hmem)]
    · rw [if_neg hmem]
      cases c with
      | removeStaging u =>
        have hout : Cleanup.dropGeneration g ∉ Cleanup.removeStaging u :: cs := by
          simpa using hmem
        rw [if_neg hout]
        rfl
      | dropGeneration h =>
        show (s.items.erase h)[g]? = _
        rw [Map.get_erase]
        by_cases e : h = g
        · subst e
          rw [if_pos rfl, if_pos List.mem_cons_self]
        · have hout : Cleanup.dropGeneration g ∉ Cleanup.dropGeneration h :: cs := by
            simp only [List.mem_cons, Cleanup.dropGeneration.injEq, not_or]
            exact ⟨fun h => e h.symm, hmem⟩
          rw [if_neg e, if_neg hout]

theorem sweep_generation (s : MemoryShelf) (cs : List Cleanup) (g : Nat) :
    (sweep s cs).generation g =
      if Cleanup.dropGeneration g ∈ cs then ∅ else s.generation g := by
  unfold MemoryShelf.generation
  rw [sweep_items]
  split <;> rfl

/-! ## What `reconcile` does -/

/-- **The books after `reconcile`**: what the shelf holds for the live generations,
nothing for dead ones that hold something, the rest as before. -/
theorem Rules.reconcile_used (r : Rules) (g : Nat) :
    r.reconcile.2.record.used[g]? =
      if g ∈ r.record.liveGenerations then some (r.shelf.bytes g)
      else if r.shelf.generation g = ∅ then r.record.used[g]? else none := by
  have hdead : ∀ g, (r.shelf.generations.filter fun h =>
      !r.record.liveGenerations.contains h).contains g = true ↔
        r.shelf.generation g ≠ ∅ ∧ g ∉ r.record.liveGenerations := by
    intro g
    rw [List.contains_iff_mem, List.mem_filter, MemoryShelf.mem_generations,
      Bool.not_eq_true', ← Bool.not_eq_true, List.contains_iff_mem]
  show ((r.record.liveGenerations.foldl (fun used g => used.insert g (r.shelf.bytes g))
    r.record.used).filter fun g _ => !(r.shelf.generations.filter fun h =>
      !r.record.liveGenerations.contains h).contains g)[g]? = _
  rw [Map.get_filter, Map.get_foldl_insert]
  have hkeep : ∀ (o : Option Nat) (b : Bool), o.filter (fun _ => b) = if b then o else none := by
    intro o b
    cases o <;> cases b <;> rfl
  rw [hkeep]
  by_cases hlive : g ∈ r.record.liveGenerations
  · have hnot : ¬(r.shelf.generation g ≠ ∅ ∧ g ∉ r.record.liveGenerations) :=
      fun h => h.2 hlive
    rw [← hdead, Bool.not_eq_true] at hnot
    rw [hnot, if_pos hlive, if_pos hlive]
    rfl
  · rw [if_neg hlive, if_neg hlive]
    by_cases hempty : r.shelf.generation g = ∅
    · have hnot : ¬(r.shelf.generation g ≠ ∅ ∧ g ∉ r.record.liveGenerations) :=
        fun h => h.1 hempty
      rw [← hdead, Bool.not_eq_true] at hnot
      rw [hnot, if_pos hempty]
      rfl
    · rw [(hdead g).mpr ⟨hempty, hlive⟩, if_neg hempty]
      rfl

/-- It moves no pointer. -/
theorem Rules.reconcile_pointers (r : Rules) :
    r.record.SamePointers r.reconcile.2.record := ⟨rfl, rfl, rfl, rfl, rfl⟩

namespace World

/-! ## Opening -/

/-- `Engine::open` on what the last process left: its own clean-ups are lost with
it. -/
def reopen (limits : Limits) (now : Nat) (w : World) : World :=
  let w' := (Engine.write ⟨w.record, w.shelf, []⟩ limits ⟨now, []⟩ Rules.reconcile).2
  ⟨w'.record, sweep w'.shelf w'.pending, []⟩

/-- An opening that stops: at once, or with the record stored and so many clean-ups
performed. -/
def reopenCut (limits : Limits) (now : Nat) (w : World) : Nat → World
  | 0 => ⟨w.record, w.shelf, []⟩
  | k + 1 =>
    let w' := (Engine.write ⟨w.record, w.shelf, []⟩ limits ⟨now, []⟩ Rules.reconcile).2
    ⟨w'.record, sweep w'.shelf (w'.pending.take k), []⟩

/-- What an opening works on. -/
def opening (limits : Limits) (now : Nat) (w : World) : Rules :=
  (w.rules limits ⟨now, []⟩).reconcile.2

theorem reopen_eq (limits : Limits) (now : Nat) (w : World) :
    w.reopen limits now =
      ⟨(w.opening limits now).record, sweep w.shelf (w.opening limits now).after, []⟩ := rfl

section
variable {limits : Limits} {now : Nat} {w : World}

theorem removeStaging_mem_opening {u : UploadId} :
    Cleanup.removeStaging u ∈ (w.opening limits now).after ↔
      (∃ staged, w.shelf.staging[u]? = some staged) ∧
        (w.opening limits now).record.tickets[u]? = none := by
  show Cleanup.removeStaging u ∈ (w.rules limits ⟨now, []⟩).cleanStaging.2.after ↔ _
  rw [Rules.mem_cleanStaging_after]
  constructor
  · rintro (h | ⟨v, hv, h⟩ | ⟨g, hg, -⟩)
    · cases h
    · cases hv
      exact h
    · cases hg
  · intro h
    exact .inr (.inl ⟨u, rfl, h⟩)

theorem dropGeneration_mem_opening {g : Nat} :
    Cleanup.dropGeneration g ∈ (w.opening limits now).after ↔
      w.shelf.generation g ≠ ∅ ∧ g ∉ w.record.liveGenerations := by
  show Cleanup.dropGeneration g ∈ (w.rules limits ⟨now, []⟩).cleanStaging.2.after ↔ _
  rw [Rules.mem_cleanStaging_after]
  constructor
  · rintro (h | ⟨u, hu, -⟩ | ⟨g', hg', h⟩)
    · cases h
    · cases hu
    · cases hg'
      exact h
  · intro h
    exact .inr (.inr ⟨g, rfl, h⟩)

theorem opening_used (g : Nat) :
    (w.opening limits now).record.used[g]? =
      if g ∈ w.record.liveGenerations then some (w.shelf.bytes g)
      else if w.shelf.generation g = ∅ then w.record.used[g]? else none :=
  Rules.reconcile_used (w.rules limits ⟨now, []⟩) g

/-- The live generations are left as they are. -/
theorem sweep_live {cs : List Cleanup} (hcs : cs ⊆ (w.opening limits now).after) {g : Nat}
    (hlive : g ∈ w.record.liveGenerations) :
    (sweep w.shelf cs).generation g = w.shelf.generation g := by
  rw [sweep_generation, if_neg]
  intro hmem
  exact (dropGeneration_mem_opening.mp (hcs hmem)).2 hlive

/-- A generation that holds something after some of the clean-ups held it before. -/
theorem generation_of_sweep {s : MemoryShelf} {cs : List Cleanup} {g : Nat}
    (h : (sweep s cs).generation g ≠ ∅) : (sweep s cs).generation g = s.generation g := by
  rw [sweep_generation] at h ⊢
  by_cases hmem : Cleanup.dropGeneration g ∈ cs
  · rw [if_pos hmem] at h
    exact absurd rfl h
  · rw [if_neg hmem]

/-- The record after some of an opening's clean-ups is the one the next opening
stores. -/
theorem opening_record_swept {cs : List Cleanup} (hcs : cs ⊆ (w.opening limits now).after) :
    (opening limits now ⟨(w.opening limits now).record, sweep w.shelf cs, []⟩).record =
      (w.opening limits now).record := by
  have hlive : (w.opening limits now).record.liveGenerations = w.record.liveGenerations :=
    (Rules.reconcile_pointers _).liveGenerations
  refine WorkspaceRecord.ext rfl rfl rfl rfl ?_ ?_ ?_ rfl
  · refine Std.ExtTreeMap.ext_getElem? fun g => ?_
    rw [opening_used]
    dsimp only
    rw [hlive]
    by_cases hg : g ∈ w.record.liveGenerations
    · rw [if_pos hg, opening_used, if_pos hg, MemoryShelf.bytes_congr (sweep_live hcs hg)]
    · rw [if_neg hg]
      by_cases hempty : (sweep w.shelf cs).generation g = ∅
      · rw [if_pos hempty]
      · have hne : w.shelf.generation g ≠ ∅ := by
          rw [← generation_of_sweep hempty]
          exact hempty
        rw [if_neg hempty, opening_used, if_neg hg, if_neg hne]
  · refine Map.filter_same fun u ticket h => ?_
    exact (Map.get_filter_eq_some.mp h).2
  · refine Map.filter_same fun u stone h => ?_
    exact (Map.get_filter_eq_some.mp h).2

/-- **Opening again ends where opening once does**, after any of the clean-ups of the
opening before. -/
theorem reopen_swept {cs : List Cleanup} (hcs : cs ⊆ (w.opening limits now).after) :
    reopen limits now ⟨(w.opening limits now).record, sweep w.shelf cs, []⟩ =
      w.reopen limits now := by
  have hrec := opening_record_swept hcs
  have hlive : (w.opening limits now).record.liveGenerations = w.record.liveGenerations :=
    (Rules.reconcile_pointers _).liveGenerations
  rw [reopen_eq, reopen_eq, hrec]
  refine congrArg (fun shelf => (⟨(w.opening limits now).record, shelf, []⟩ : World)) ?_
  refine MemoryShelf.ext (Std.ExtTreeMap.ext_getElem? fun u => ?_)
    (Std.ExtTreeMap.ext_getElem? fun g => ?_)
  · rw [sweep_staging, sweep_staging w.shelf cs, sweep_staging w.shelf]
    by_cases hmem : Cleanup.removeStaging u ∈ cs
    · rw [if_pos hmem, if_pos (hcs hmem), ite_self]
    · have hsame : (sweep w.shelf cs).staging[u]? = w.shelf.staging[u]? := by
        rw [sweep_staging, if_neg hmem]
      rw [if_neg hmem]
      refine if_congr ?_ rfl rfl
      rw [removeStaging_mem_opening, removeStaging_mem_opening, hrec, hsame]
  · rw [sweep_items, sweep_items w.shelf cs, sweep_items w.shelf]
    by_cases hmem : Cleanup.dropGeneration g ∈ cs
    · rw [if_pos hmem, if_pos (hcs hmem), ite_self]
    · have hsame : (sweep w.shelf cs).generation g = w.shelf.generation g := by
        rw [sweep_generation, if_neg hmem]
      rw [if_neg hmem]
      refine if_congr ?_ rfl rfl
      rw [dropGeneration_mem_opening, dropGeneration_mem_opening, hlive, hsame]

/-- What an opening puts right, and what it leaves alone. -/
structure Repairs (now : Nat) (w w' : World) : Prop where
  /-- The books of the live generations are the shelf's. -/
  books : ∀ g ∈ w'.record.liveGenerations, w'.record.used[g]? = some (w'.shelf.bytes g)
  /-- Every staging place has an unexpired ticket. -/
  staging : ∀ (u : UploadId) (staged : Staged), w'.shelf.staging[u]? = some staged →
    ∃ ticket : Ticket, w'.record.tickets[u]? = some ticket ∧ now < ticket.expiresAt
  /-- Every generation that holds an item is live. -/
  generations : ∀ g, w'.shelf.generation g ≠ ∅ → g ∈ w'.record.liveGenerations
  /-- No item of a live generation is removed or changed. -/
  items : ∀ g ∈ w'.record.liveGenerations, w'.shelf.generation g = w.shelf.generation g
  /-- No unexpired ticket or outcome is dropped. -/
  tickets : ∀ (u : UploadId) (ticket : Ticket), w.record.tickets[u]? = some ticket →
    now < ticket.expiresAt → w'.record.tickets[u]? = some ticket
  tombstones : ∀ (u : UploadId) (stone : Tombstone), w.record.tombstones[u]? = some stone →
    now < stone.expiresAt → w'.record.tombstones[u]? = some stone
  pointers : w.record.SamePointers w'.record

theorem reopen_repaired (limits : Limits) (now : Nat) (w : World) :
    Repairs now w (w.reopen limits now) := by
  have hlive : (w.reopen limits now).record.liveGenerations = w.record.liveGenerations :=
    (Rules.reconcile_pointers (w.rules limits ⟨now, []⟩)).liveGenerations
  have hall : (w.opening limits now).after ⊆ (w.opening limits now).after := fun _ h => h
  have hitems : ∀ g ∈ w.record.liveGenerations,
      (w.reopen limits now).shelf.generation g = w.shelf.generation g :=
    fun g hg => sweep_live hall hg
  refine ⟨?_, ?_, ?_, ?_, ?_, ?_, Rules.reconcile_pointers (w.rules limits ⟨now, []⟩)⟩
  · intro g hg
    rw [hlive] at hg
    rw [MemoryShelf.bytes_congr (hitems g hg)]
    show (w.opening limits now).record.used[g]? = _
    rw [opening_used, if_pos hg]
  · intro u staged hstaged
    change (sweep w.shelf (w.opening limits now).after).staging[u]? = some staged at hstaged
    rw [sweep_staging] at hstaged
    split at hstaged
    · cases hstaged
    · rename_i hmem
      -- the place is still there, so nobody asked for its removal
      cases hticket : (w.opening limits now).record.tickets[u]? with
      | none => exact absurd (removeStaging_mem_opening.mpr ⟨⟨staged, hstaged⟩, hticket⟩) hmem
      | some ticket =>
        have hlive := (Map.get_filter_eq_some.mp hticket).2
        exact ⟨ticket, hticket, of_decide_eq_true hlive⟩
  · intro g hg
    rw [hlive]
    by_contra hdead
    change (sweep w.shelf (w.opening limits now).after).generation g ≠ ∅ at hg
    have hsame := generation_of_sweep hg
    rw [hsame] at hg
    rw [sweep_generation, if_pos (dropGeneration_mem_opening.mpr ⟨hg, hdead⟩)] at hsame
    exact hg hsame.symm
  · intro g hg
    rw [hlive] at hg
    exact hitems g hg
  · intro u ticket hticket hlive
    exact Map.get_filter_eq_some.mpr ⟨hticket, decide_eq_true hlive⟩
  · intro u stone hstone hlive
    exact Map.get_filter_eq_some.mpr ⟨hstone, decide_eq_true hlive⟩

/-- **Opening repairs everything**, whatever the record and the shelf are. A second
opening changes nothing, and an opening that is stopped anywhere and then done
again ends where one opening does. -/
theorem reopen_repairs (limits : Limits) (now : Nat) (w : World) :
    Repairs now w (w.reopen limits now) ∧
      (w.reopen limits now).reopen limits now = w.reopen limits now ∧
      ∀ n, (w.reopenCut limits now n).reopen limits now = w.reopen limits now := by
  refine ⟨reopen_repaired limits now w, reopen_swept (List.Subset.refl _), ?_⟩
  intro n
  cases n with
  | zero => rfl
  | succ k => exact reopen_swept (List.take_subset _ _)

end

end World

end Passalong
