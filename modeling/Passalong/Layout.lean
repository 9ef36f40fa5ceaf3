import Passalong.Steps

/-!
# The layout of generations

Which generations a record points to, and what holds of the pointers in every
state of every run:

- `Layout`: the live generations are distinct and below `nextGeneration`, a
  workspace with a plain partition is sealed, and an open rewrite goes to a new
  key;
- `Vacant`: the shelf has nothing at or above `nextGeneration`. Crashes roll the
  counter back and do not break this, since nothing is published to a generation
  before the record that points to it is stored;
- `DropsDead`: a pending `dropGeneration` names a generation that is dead for good.
-/

namespace Passalong

open Lib

namespace WorkspaceRecord

variable {rec rec' : WorkspaceRecord}

theorem mem_liveGenerations {g : Nat} :
    g ∈ rec.liveGenerations ↔
      g = rec.generation ∨ rec.plain = some g ∨ rec.stagedGeneration = some g := by
  simp only [liveGenerations, List.mem_cons, List.mem_append, Option.mem_toList]

/-- The pointers of a record are in order. -/
structure Layout (rec : WorkspaceRecord) : Prop where
  nodup : rec.liveGenerations.Nodup
  live_lt : ∀ g ∈ rec.liveGenerations, g < rec.nextGeneration
  plain_sealed : rec.seal? = none → rec.plain = none
  new_key : ∀ session, rec.state = .rewriting session →
    session.prior.map Seal.keyId ≠ some session.next.keyId

/-- The part of a record that uploads and deletions leave alone. -/
structure SamePointers (rec rec' : WorkspaceRecord) : Prop where
  state : rec'.state = rec.state
  generation : rec'.generation = rec.generation
  plain : rec'.plain = rec.plain
  nextGeneration : rec'.nextGeneration = rec.nextGeneration
  endedRewrites : rec'.endedRewrites = rec.endedRewrites

theorem SamePointers.liveGenerations (h : SamePointers rec rec') :
    rec'.liveGenerations = rec.liveGenerations := by
  unfold WorkspaceRecord.liveGenerations stagedGeneration
  rw [h.state, h.generation, h.plain]

theorem SamePointers.seal? (h : SamePointers rec rec') : rec'.seal? = rec.seal? := by
  unfold WorkspaceRecord.seal?
  rw [h.state]

theorem SamePointers.layout (h : SamePointers rec rec') (hl : Layout rec) : Layout rec' where
  nodup := by
    rw [h.liveGenerations]
    exact hl.nodup
  live_lt := by
    rw [h.liveGenerations, h.nextGeneration]
    exact hl.live_lt
  plain_sealed := by
    rw [h.seal?, h.plain]
    exact hl.plain_sealed
  new_key := by
    rw [h.state]
    exact hl.new_key

/-- An upload goes to a live generation. -/
theorem Targets.live {caller : Caller} {request : UploadRequest} {g : Nat}
    (h : rec.Targets caller request g) : g ∈ rec.liveGenerations := by
  rw [mem_liveGenerations]
  cases h with
  | staged session hstate hin hholder hkey =>
    refine .inr (.inr ?_)
    rw [stagedGeneration, hstate]
  | current sealed hstate hin hkey => exact .inl rfl

theorem stagedGeneration_of_settled {sealed : Option Seal} (h : rec.state = .settled sealed) :
    rec.stagedGeneration = none := by
  rw [stagedGeneration, h]

theorem stagedGeneration_of_rewriting {session : Session}
    (h : rec.state = .rewriting session) :
    rec.stagedGeneration = some session.stagedGeneration := by
  rw [stagedGeneration, h]

theorem liveGenerations_of_settled {sealed : Option Seal} (h : rec.state = .settled sealed) :
    rec.liveGenerations = rec.generation :: rec.plain.toList := by
  rw [liveGenerations, stagedGeneration_of_settled h]
  exact congrArg _ (List.append_nil _)

theorem liveGenerations_of_rewriting {session : Session}
    (h : rec.state = .rewriting session) :
    rec.liveGenerations =
      rec.generation :: (rec.plain.toList ++ [session.stagedGeneration]) := by
  rw [liveGenerations, stagedGeneration_of_rewriting h]
  rfl

theorem seal?_of_settled {sealed : Option Seal} (h : rec.state = .settled sealed) :
    rec.seal? = sealed := by
  rw [seal?, h]

theorem seal?_of_rewriting {session : Session} (h : rec.state = .rewriting session) :
    rec.seal? = session.prior := by
  rw [seal?, h]

theorem keyId_of_settled {sealed : Option Seal} (h : rec.state = .settled sealed) :
    rec.keyId = sealed.map Seal.keyId := by
  rw [keyId, seal?_of_settled h]

theorem keyId_of_rewriting {session : Session} (h : rec.state = .rewriting session) :
    rec.keyId = session.prior.map Seal.keyId := by
  rw [keyId, seal?_of_rewriting h]

end WorkspaceRecord

/-! ## What a change does to the pointers -/

/-- What a change can do to the pointers of a record. Where it moves one, it leaves
the shelf alone. -/
inductive Move (rec : WorkspaceRecord) (shelf : MemoryShelf) :
    WorkspaceRecord → MemoryShelf → Prop
  | same {rec' : WorkspaceRecord} {shelf' : MemoryShelf} (h : rec.SamePointers rec') :
      Move rec shelf rec' shelf'
  | sealed {keyId : KeyId} {header : Bytes} (hstate : rec.state = .settled none)
      (hempty : shelf.generation rec.generation = ∅) :
      Move rec shelf { rec with state := .settled (some ⟨keyId, header⟩) } shelf
  | setAside {keyId : KeyId} {header : Bytes} (hstate : rec.state = .settled none) :
      Move rec shelf
        { rec with
          plain := some rec.generation
          generation := rec.nextGeneration
          nextGeneration := rec.nextGeneration + 1
          state := .settled (some ⟨keyId, header⟩) }
        shelf
  | reheaded {worn : Seal} {header : Bytes} (hstate : rec.state = .settled (some worn)) :
      Move rec shelf { rec with state := .settled (some { worn with header }) } shelf
  | opened {session : Session} {prior : Option Seal} (hstate : rec.state = .settled prior)
      (hprior : session.prior = prior)
      (hstaged : session.stagedGeneration = rec.nextGeneration)
      (hended : session.next.keyId ∉ rec.endedRewrites)
      (hnew : prior.map Seal.keyId ≠ some session.next.keyId) :
      Move rec shelf
        { rec with
          nextGeneration := rec.nextGeneration + 1
          state := .rewriting session }
        shelf
  | renewed {session : Session} {holder : ApiKeyId} {lease : Nat}
      (hstate : rec.state = .rewriting session) :
      Move rec shelf
        { rec with state := .rewriting { session with holder, leaseExpiresAt := lease } }
        shelf
  | switched {session : Session} (hstate : rec.state = .rewriting session) :
      Move rec shelf (rec.switched session) shelf
  | restored {session : Session} (hstate : rec.state = .rewriting session) :
      Move rec shelf (rec.restored session) shelf

section
variable [Crates]

/-- Every change moves the pointers in one of these ways. -/
theorem Change.move {r : Rules} {op : Op} {a : Answer} {rec : WorkspaceRecord}
    {shelf : MemoryShelf} {after : List Cleanup} (h : Change r op a rec shelf after) :
    Move r.record r.shelf rec shelf := by
  cases h with
  | sealed hstate hempty => exact .sealed hstate hempty
  | setAside hstate => exact .setAside hstate
  | reheaded hstate => exact .reheaded hstate
  | opened hstate _ hended hnew => exact .opened hstate rfl rfl hended hnew
  | renewed hstate => exact .renewed hstate
  | switched hstate _ _ _ _ => exact .switched hstate
  | restored hstate => exact .restored hstate
  | _ => exact .same ⟨rfl, rfl, rfl, rfl, rfl⟩

/-- So does every event, mostly by leaving them alone. -/
theorem World.Step.move {limits : Limits} {w w' : World} {e : Event}
    (h : World.Step limits w e w') : Move w.record w.shelf w'.record w'.shelf := by
  cases h with
  | done _ hchange => exact hchange.move
  | _ => exact .same ⟨rfl, rfl, rfl, rfl, rfl⟩

end

namespace Move

variable {rec rec' : WorkspaceRecord} {shelf shelf' : MemoryShelf}

theorem nextGeneration_le (h : Move rec shelf rec' shelf') :
    rec.nextGeneration ≤ rec'.nextGeneration := by
  cases h with
  | same h => exact Nat.le_of_eq h.nextGeneration.symm
  | setAside _ => exact Nat.le_succ _
  | opened _ _ _ _ _ => exact Nat.le_succ _
  | _ => exact Nat.le_refl _

/-- A generation becomes live by being numbered only. -/
theorem live (h : Move rec shelf rec' shelf') {g : Nat} (hlive : g ∈ rec'.liveGenerations) :
    g ∈ rec.liveGenerations ∨ g = rec.nextGeneration := by
  rw [WorkspaceRecord.mem_liveGenerations] at hlive ⊢
  cases h with
  | same h =>
    rw [← WorkspaceRecord.mem_liveGenerations, h.liveGenerations,
      WorkspaceRecord.mem_liveGenerations] at hlive
    exact .inl hlive
  | sealed hstate _ =>
    rcases hlive with rfl | hplain | hstaged
    · exact .inl (.inl rfl)
    · exact .inl (.inr (.inl hplain))
    · cases hstaged
  | setAside hstate =>
    -- the own generation becomes the plain one, and a new one its own
    rcases hlive with rfl | hplain | hstaged
    · exact .inr rfl
    · cases hplain
      exact .inl (.inl rfl)
    · cases hstaged
  | reheaded hstate =>
    rcases hlive with rfl | hplain | hstaged
    · exact .inl (.inl rfl)
    · exact .inl (.inr (.inl hplain))
    · cases hstaged
  | opened hstate _ hstaged =>
    rcases hlive with rfl | hplain | hst
    · exact .inl (.inl rfl)
    · exact .inl (.inr (.inl hplain))
    · cases hst
      exact .inr hstaged
  | renewed hstate =>
    rcases hlive with rfl | hplain | hst
    · exact .inl (.inl rfl)
    · exact .inl (.inr (.inl hplain))
    · have hold := WorkspaceRecord.stagedGeneration_of_rewriting hstate
      cases hst
      exact .inl (.inr (.inr hold))
  | switched hstate =>
    -- the staged generation becomes the own one
    rcases hlive with rfl | hplain | hst
    · exact .inl (.inr (.inr (WorkspaceRecord.stagedGeneration_of_rewriting hstate)))
    · exact .inl (.inr (.inl hplain))
    · cases hst
  | restored hstate =>
    rcases hlive with rfl | hplain | hst
    · exact .inl (.inl rfl)
    · exact .inl (.inr (.inl hplain))
    · cases hst

/-- A generation that is dead stays dead. -/
theorem dead (h : Move rec shelf rec' shelf') {g : Nat} (hdead : g ∉ rec.liveGenerations)
    (hlt : g < rec.nextGeneration) : g ∉ rec'.liveGenerations ∧ g < rec'.nextGeneration := by
  have hle := h.nextGeneration_le
  refine ⟨fun hlive => ?_, by omega⟩
  rcases h.live hlive with hold | rfl
  · exact hdead hold
  · omega

end Move

/-! ## The invariants -/

namespace WorkspaceRecord

theorem layout_initial : Layout initial where
  nodup := by decide
  live_lt := by decide
  plain_sealed := fun _ => rfl
  new_key := by
    intro session h
    cases h

/-- What a settled record has to keep. -/
theorem Layout.of_settled {rec : WorkspaceRecord} {sealed : Option Seal}
    (hstate : rec.state = .settled sealed) (hnodup : (rec.generation :: rec.plain.toList).Nodup)
    (hlt : ∀ g ∈ rec.generation :: rec.plain.toList, g < rec.nextGeneration)
    (hplain : sealed = none → rec.plain = none) : Layout rec where
  nodup := by
    rw [liveGenerations_of_settled hstate]
    exact hnodup
  live_lt := by
    rw [liveGenerations_of_settled hstate]
    exact hlt
  plain_sealed := by
    rw [seal?_of_settled hstate]
    exact hplain
  new_key := by
    intro session h
    rw [hstate] at h
    cases h

/-- What a record with an open rewrite has to keep. -/
theorem Layout.of_rewriting {rec : WorkspaceRecord} {session : Session}
    (hstate : rec.state = .rewriting session)
    (hnodup : (rec.generation :: (rec.plain.toList ++ [session.stagedGeneration])).Nodup)
    (hlt : ∀ g ∈ rec.generation :: (rec.plain.toList ++ [session.stagedGeneration]),
      g < rec.nextGeneration)
    (hplain : session.prior = none → rec.plain = none)
    (hnew : session.prior.map Seal.keyId ≠ some session.next.keyId) : Layout rec where
  nodup := by
    rw [liveGenerations_of_rewriting hstate]
    exact hnodup
  live_lt := by
    rw [liveGenerations_of_rewriting hstate]
    exact hlt
  plain_sealed := by
    rw [seal?_of_rewriting hstate]
    exact hplain
  new_key := by
    intro session' h
    rw [hstate] at h
    cases h
    exact hnew

/-- The layout survives every move. -/
theorem Layout.move {rec rec' : WorkspaceRecord} {shelf shelf' : MemoryShelf}
    (hl : Layout rec)
    (h : Move rec shelf rec' shelf') : Layout rec' := by
  have hnodup := hl.nodup
  have hlt := hl.live_lt
  cases h with
  | same h => exact h.layout hl
  | sealed hstate hempty =>
    rw [liveGenerations_of_settled hstate] at hnodup hlt
    exact .of_settled rfl hnodup hlt fun h => (by cases h)
  | setAside hstate =>
    -- what was current is the plain partition, and the new number is beyond it
    rw [liveGenerations_of_settled hstate] at hlt
    have hgen := hlt rec.generation List.mem_cons_self
    refine .of_settled rfl ?_ ?_ fun h => (by cases h)
    · simp only [Option.toList_some, List.nodup_cons, List.mem_singleton, List.not_mem_nil,
        not_false_eq_true, List.nodup_nil, and_true]
      omega
    · simp only [Option.toList_some, List.mem_cons, List.not_mem_nil, or_false]
      omega
  | reheaded hstate =>
    rw [liveGenerations_of_settled hstate] at hnodup hlt
    exact .of_settled rfl hnodup hlt fun h => (by cases h)
  | @opened session prior hstate hprior hstaged hended hnew =>
    -- the staged generation has the next number, which no live one has
    rw [liveGenerations_of_settled hstate] at hnodup hlt
    refine .of_rewriting rfl ?_ ?_ ?_ (by rw [hprior]; exact hnew)
    · rw [hstaged, ← List.cons_append]
      refine List.nodup_append.mpr ⟨hnodup, List.nodup_singleton _, ?_⟩
      intro g hg h hh
      rw [List.mem_singleton] at hh
      have := hlt g hg
      omega
    · rw [hstaged, ← List.cons_append]
      intro g hg
      show g < rec.nextGeneration + 1
      rcases List.mem_append.mp hg with hg | hg
      · have := hlt g hg
        omega
      · rw [List.mem_singleton] at hg
        omega
    · intro hseal
      exact hl.plain_sealed ((seal?_of_settled hstate).trans (hprior ▸ hseal))
  | @renewed session holder lease hstate =>
    rw [liveGenerations_of_rewriting hstate] at hnodup hlt
    refine .of_rewriting rfl hnodup hlt ?_ (hl.new_key session hstate)
    exact fun hseal => hl.plain_sealed ((seal?_of_rewriting hstate).trans hseal)
  | @switched session hstate =>
    -- the staged generation takes the place of the current one
    rw [liveGenerations_of_rewriting hstate] at hnodup hlt
    refine .of_settled rfl ?_ ?_ fun h => (by cases h)
    · exact (List.perm_append_singleton _ _).nodup_iff.mp (List.nodup_cons.mp hnodup).2
    · intro g hg
      refine hlt g (List.mem_cons_of_mem _ ?_)
      exact (List.perm_append_singleton _ _).mem_iff.mpr hg
  | @restored session hstate =>
    -- the staged generation is no longer live
    rw [liveGenerations_of_rewriting hstate, ← List.cons_append] at hnodup hlt
    refine .of_settled rfl (List.nodup_append.mp hnodup).1 ?_ ?_
    · exact fun g hg => hlt g (List.mem_append_left _ hg)
    · exact fun hseal => hl.plain_sealed ((seal?_of_rewriting hstate).trans hseal)

end WorkspaceRecord

/-- The drops a change asks for are of generations it leaves dead. -/
theorem Change.drops_dead [Crates] {r : Rules} {op : Op} {a : Answer} {rec : WorkspaceRecord}
    {shelf : MemoryShelf} {after : List Cleanup} (h : Change r op a rec shelf after)
    (hl : r.record.Layout)
    (hv : ∀ g, r.record.nextGeneration ≤ g → r.shelf.generation g = ∅)
    (h0 : r.after = []) {g : Nat} (hg : Cleanup.dropGeneration g ∈ after) :
    g ∉ rec.liveGenerations ∧ g < rec.nextGeneration := by
  have hnodup := hl.nodup
  have hlt := hl.live_lt
  -- what the janitor drops holds something, so it is numbered
  have hjanitor : Cleanup.dropGeneration g ∈ r.cleanStaging.2.after →
      g ∉ r.record.liveGenerations ∧ g < r.record.nextGeneration := by
    intro hg
    rw [Rules.mem_cleanStaging_after, h0] at hg
    rcases hg with hg | ⟨u, hu, -⟩ | ⟨g', hg', hne, hdead⟩
    · cases hg
    · cases hu
    · cases hg'
      refine ⟨hdead, Nat.lt_of_not_le fun hle => hne (hv g hle)⟩
  cases h with
  | switched hstate _ _ _ _ =>
    rw [WorkspaceRecord.liveGenerations_of_rewriting hstate] at hnodup hlt
    rcases List.mem_cons.mp hg with hg | hg
    · cases hg
      refine ⟨?_, hlt _ List.mem_cons_self⟩
      rw [WorkspaceRecord.liveGenerations_of_settled rfl]
      intro hmem
      exact (List.nodup_cons.mp hnodup).1 ((List.perm_append_singleton _ _).mem_iff.mpr hmem)
    · obtain ⟨u, ticket, hu, -⟩ := WorkspaceRecord.mem_removals.mp hg
      cases hu
  | restored hstate =>
    rw [WorkspaceRecord.liveGenerations_of_rewriting hstate, ← List.cons_append] at hnodup hlt
    rcases List.mem_cons.mp hg with hg | hg
    · cases hg
      refine ⟨?_, hlt _ (List.mem_append_right _ (List.mem_singleton_self _))⟩
      rw [WorkspaceRecord.liveGenerations_of_settled rfl]
      intro hmem
      exact (List.nodup_append.mp hnodup).2.2 _ hmem _ (List.mem_singleton_self _) rfl
    · obtain ⟨u, ticket, hu, -⟩ := WorkspaceRecord.mem_removals.mp hg
      cases hu
  | stored _ _ =>
    obtain ⟨u, ticket, hu, -⟩ := WorkspaceRecord.mem_removals.mp hg
    cases hu
  | aborted =>
    obtain ⟨u, ticket, hu, -⟩ := WorkspaceRecord.mem_removals.mp hg
    cases hu
  | cleaned => exact hjanitor hg
  | reconciled => exact hjanitor hg
  | duplicate _ _ _ _ => simp at hg
  | published _ _ _ _ _ _ _ => simp at hg
  | recovered _ _ _ _ _ => simp at hg
  | _ => cases hg

namespace WorkspaceRecord

variable {rec : WorkspaceRecord}

theorem Layout.plain_ne (hl : rec.Layout) : rec.plain ≠ some rec.generation := by
  intro h
  refine (List.nodup_cons.mp hl.nodup).1 (List.mem_append_left _ ?_)
  rw [h]
  exact List.mem_singleton_self _

theorem Layout.staged_ne (hl : rec.Layout) : rec.stagedGeneration ≠ some rec.generation := by
  intro h
  refine (List.nodup_cons.mp hl.nodup).1 (List.mem_append_right _ ?_)
  rw [h]
  exact List.mem_singleton_self _

theorem Layout.plain_ne_staged (hl : rec.Layout) (p : Nat) (hp : rec.plain = some p) :
    rec.stagedGeneration ≠ some p := by
  intro hs
  obtain ⟨-, -, hdisj⟩ := List.nodup_append.mp (List.nodup_cons.mp hl.nodup).2
  refine hdisj p ?_ p ?_ rfl
  · rw [hp]
    exact List.mem_singleton_self _
  · rw [hs]
    exact List.mem_singleton_self _

end WorkspaceRecord

namespace World

/-- The shelf has nothing in generations that are not numbered yet. -/
def Vacant (w : World) : Prop :=
  ∀ g, w.record.nextGeneration ≤ g → w.shelf.generation g = ∅

/-- The generations of the pending drops are dead, and stay so. -/
def DropsDead (w : World) : Prop :=
  ∀ g, Cleanup.dropGeneration g ∈ w.pending →
    g ∉ w.record.liveGenerations ∧ g < w.record.nextGeneration

/-- What holds of the generations between any two events. -/
structure Laid (w : World) : Prop where
  layout : w.record.Layout
  vacant : w.Vacant
  dropsDead : w.DropsDead

theorem laid_initial : Laid initial where
  layout := WorkspaceRecord.layout_initial
  vacant := fun g _ => MemoryShelf.generation_empty g
  dropsDead := by
    intro g hg
    cases hg

section
variable [Crates] {limits : Limits} {w w' : World} {e : Event}

theorem Vacant.step (hl : w.record.Layout) (hv : w.Vacant) (h : Step limits w e w') :
    w'.Vacant := by
  intro g hg
  refine Map.eq_empty_of_get fun id => ?_
  have hle := h.move.nextGeneration_le
  cases hget : (w'.shelf.generation g)[id]? with
  | none => rfl
  | some item =>
    rcases h.item hget with hold | ⟨caller, request, htarget, -, -⟩
    · rw [hv g (Nat.le_trans hle hg), Std.ExtTreeMap.getElem?_empty] at hold
      cases hold
    · have := hl.live_lt g htarget.live
      omega

theorem DropsDead.step (hl : w.Laid) (h : Step limits w e w') : w'.DropsDead := by
  intro g hg
  -- what was pending before stays dead
  have hold : Cleanup.dropGeneration g ∈ w.pending →
      g ∉ w'.record.liveGenerations ∧ g < w'.record.nextGeneration := fun hg =>
    h.move.dead (hl.dropsDead g hg).1 (hl.dropsDead g hg).2
  cases h with
  | done _ hchange =>
    rcases List.mem_append.mp hg with hg | hg
    · exact hold hg
    · exact hchange.drops_dead hl.layout hl.vacant rfl hg
  | refused _ => exact hold hg
  | cut _ => exact hold hg
  | performed _ => exact hold (List.mem_of_mem_eraseIdx hg)
  | idle _ => exact hold hg
  | lost => exact hold (List.mem_of_mem_eraseIdx hg)
  | wroteLate => exact hold hg

theorem Laid.step (hl : w.Laid) (h : Step limits w e w') : w'.Laid where
  layout := hl.layout.move h.move
  vacant := hl.vacant.step hl.layout h
  dropsDead := DropsDead.step hl h

/-- **The generations are laid out so in every state of every run.** -/
theorem laid_run (hl : w.Laid) (es : List Event) : (w.run limits es).Laid :=
  Runs.always (exec limits) (fun s e hs => hs.step (s.exec_step limits e)) hl es

end

end World

end Passalong
