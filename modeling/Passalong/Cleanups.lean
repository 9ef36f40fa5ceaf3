import Passalong.Tickets

/-!
# Clean-ups never destroy live data

A clean-up is performed outside the transaction that asked for it, after any
number of other requests, or after a crash and a reopening. In every run in which
no upload id is made up twice (`sparesLive_run`):

- the only event that takes an item from a generation the record points to is a
  `deleteItem` of that very item;
- the only event that takes the staging place of a ticket is the publish of its
  own commit;
- a dropped generation is dead, then and from then on;
- a staging place removed has no ticket.
-/

namespace Passalong

open Lib

section
variable [Crates]

/-- An operation runs, to its end or until it is cut. -/
def Event.Runs (e : Event) (call : Call) (op : Op) : Prop :=
  e = .request call op ∨ ∃ steps, e = .cut call op steps

namespace World

/-- What an event spares. -/
structure SparesLive (limits : Limits) (w : World) (e : Event) : Prop where
  /-- An item leaves a live generation by a deletion of that item only. -/
  items : ∀ g, g ∈ w.record.liveGenerations ∨ g ∈ (w.exec limits e).record.liveGenerations →
    ∀ (id : ItemId) (item : Item), (w.shelf.generation g)[id]? = some item →
      ((w.exec limits e).shelf.generation g)[id]? ≠ some item →
      ∃ call caller partition expected,
        e.Runs call (.deleteItem caller partition id expected) ∧
        w.record.generationOf partition = some g
  /-- The staging place of a ticket leaves by its own publish only. -/
  staging : ∀ u ticket staged, w.record.tickets[u]? = some ticket →
    w.shelf.staging[u]? = some staged → (w.exec limits e).shelf.staging[u]? = none →
      ∃ call caller, e.Runs call (.commitUpload caller u) ∧
        ∃ g ∈ w.record.liveGenerations,
          ((w.exec limits e).shelf.generation g)[ticket.request.id]? = some
            ⟨staged.content, ⟨ticket.request.metaJson, ticket.request.expectedKeyId, call.now⟩⟩
  /-- A generation that is dropped is dead, and stays so whatever follows. -/
  drops : ∀ i g, e = .cleanup i → w.pending[i]? = some (.dropGeneration g) →
    g ∉ w.record.liveGenerations ∧
      ∀ later, g ∉ ((w.exec limits e).run limits later).record.liveGenerations
  /-- A staging place that is removed has no ticket. -/
  removals : ∀ i u, e = .cleanup i → w.pending[i]? = some (.removeStaging u) →
    w.record.tickets[u]? = none

variable {limits : Limits} {past : List UploadId} {w w' : World} {e : Event}

/-- What is dead stays dead in every run. -/
theorem dead_run {g : Nat} (hdead : g ∉ w.record.liveGenerations)
    (hlt : g < w.record.nextGeneration) (es : List Event) :
    g ∉ (w.run limits es).record.liveGenerations :=
  (Runs.always (exec limits)
    (I := fun w => g ∉ w.record.liveGenerations ∧ g < w.record.nextGeneration)
    (fun w e h => (w.exec_step limits e).move.dead h.1 h.2) ⟨hdead, hlt⟩ es).1

/-- An item stays as it is, unless it is deleted or its generation is dropped. -/
theorem Step.keeps_item (hs : Step limits w e w') {g : Nat} {id : ItemId} {item : Item}
    (hitem : (w.shelf.generation g)[id]? = some item) :
    (w'.shelf.generation g)[id]? = some item ∨
      (w'.shelf.generation g)[id]? = none ∧
        ((∃ call caller partition expected,
            e.Runs call (.deleteItem caller partition id expected) ∧
              w.record.generationOf partition = some g) ∨
          ∃ i, e = .cleanup i ∧ w.pending[i]? = some (.dropGeneration g)) := by
  cases hs with
  | @done call op _ _ _ _ _ hchange =>
    rcases hchange.shelfStep.keeps_item hitem with
      hkept | ⟨hnone, caller, partition, expected, rfl, hg⟩
    · exact .inl hkept
    · exact .inr ⟨hnone, .inl ⟨call, caller, partition, expected, .inl rfl, hg⟩⟩
  | refused hshelf =>
    rcases hshelf with rfl | ⟨v, content, announced, hashed, rfl⟩
    · exact .inl hitem
    · rw [MemoryShelf.write_generation]
      exact .inl hitem
  | @cut call op steps _ hshelf =>
    rcases hshelf.keeps_item hitem with hkept | ⟨hnone, caller, partition, expected, rfl, hg⟩
    · exact .inl hkept
    · exact .inr ⟨hnone, .inl ⟨call, caller, partition, expected, .inr ⟨steps, rfl⟩, hg⟩⟩
  | @performed i c hpending =>
    cases c with
    | dropGeneration d =>
      show ((w.shelf.dropGeneration d).generation g)[id]? = some item ∨ _
      by_cases hd : d = g
      · subst hd
        refine .inr ⟨?_, .inr ⟨i, rfl, hpending⟩⟩
        show ((w.shelf.dropGeneration d).generation d)[id]? = none
        rw [MemoryShelf.dropGeneration_generation, if_pos rfl, Std.ExtTreeMap.getElem?_empty]
      · rw [MemoryShelf.dropGeneration_generation, if_neg hd]
        exact .inl hitem
    | removeStaging v => exact .inl hitem
  | idle _ => exact .inl hitem
  | lost => exact .inl hitem
  | wroteLate =>
    rw [MemoryShelf.write_generation]
    exact .inl hitem

theorem spares_items (hl : w.Laid) (hs : Step limits w e w') {g : Nat}
    (hlive : g ∈ w.record.liveGenerations ∨ g ∈ w'.record.liveGenerations) {id : ItemId}
    {item : Item} (hitem : (w.shelf.generation g)[id]? = some item)
    (hgone : (w'.shelf.generation g)[id]? ≠ some item) :
    ∃ call caller partition expected, e.Runs call (.deleteItem caller partition id expected) ∧
      w.record.generationOf partition = some g := by
  -- a generation that becomes live was empty, so this one was live before
  have hbefore : g ∈ w.record.liveGenerations := by
    rcases hlive with hlive | hlive
    · exact hlive
    · rcases hs.move.live hlive with hold | rfl
      · exact hold
      · rw [hl.vacant _ (Nat.le_refl _), Std.ExtTreeMap.getElem?_empty] at hitem
        cases hitem
  rcases hs.keeps_item hitem with hkept | ⟨-, hdeleted | ⟨i, -, hpending⟩⟩
  · exact absurd hkept hgone
  · exact hdeleted
  · exact absurd hbefore (hl.dropsDead g (List.mem_of_getElem? hpending)).1

theorem spares_staging (h : Tracked past w) (hnever : (past ++ w.minted limits e).Nodup)
    (hs : Step limits w e w') {u : UploadId} {ticket : Ticket} {staged : Staged}
    (hticket : w.record.tickets[u]? = some ticket)
    (hstaged : w.shelf.staging[u]? = some staged) (hgone : w'.shelf.staging[u]? = none) :
    ∃ call caller, e.Runs call (.commitUpload caller u) ∧
      ∃ g ∈ w.record.liveGenerations,
        (w'.shelf.generation g)[ticket.request.id]? = some
          ⟨staged.content, ⟨ticket.request.metaJson, ticket.request.expectedKeyId, call.now⟩⟩ := by
  -- the id has a ticket, so it is none that is made up now
  have hold : w.minted limits e ≠ [u] := by
    intro hu
    rw [hu] at hnever
    exact (List.nodup_append.mp hnever).2.2 u (h.ticket u ticket hticket) u
      (List.mem_singleton_self _) rfl
  have hwrite : ∀ {v content announced hashed},
      (w.shelf.write v content announced hashed).2.staging[u]? ≠ none := by
    intro v content announced hashed hnone
    have hsome := w.shelf.write_staging_isSome v u content announced hashed
    rw [hnone, hstaged] at hsome
    cases hsome
  have hrun : ∀ {call : Call} {op : Op} {shelf : MemoryShelf},
      ShelfStep (w.rules limits call) op shelf → op.minted (w.rules limits call) ≠ [u] →
      shelf.staging[u]? = none → ∃ caller, op = .commitUpload caller u ∧
        ∃ g ∈ w.record.liveGenerations, (shelf.generation g)[ticket.request.id]? = some
          ⟨staged.content,
            ⟨ticket.request.metaJson, ticket.request.expectedKeyId, call.now⟩⟩ := by
    intro call op shelf hshelf hminted hnone
    rcases hshelf.keeps_staging hstaged with
      ⟨staged', hkept⟩ | hmint | ⟨caller, ticket', g, hop, hlive, hg, hitem⟩
    · rw [hnone] at hkept
      cases hkept
    · exact absurd hmint hminted
    · have heq := (WorkspaceRecord.liveTicket_eq_some hlive).1
      change w.record.tickets[u]? = some ticket' at heq
      rw [hticket] at heq
      cases heq
      exact ⟨caller, hop, g, hg, hitem⟩
  cases hs with
  | @done call op _ _ _ _ _ hchange =>
    obtain ⟨caller, rfl, hpub⟩ := hrun hchange.shelfStep hold hgone
    exact ⟨call, caller, .inl rfl, hpub⟩
  | refused hshelf =>
    rcases hshelf with rfl | ⟨v, content, announced, hashed, rfl⟩
    · rw [hstaged] at hgone
      cases hgone
    · exact absurd hgone hwrite
  | @cut call op steps _ hshelf =>
    obtain ⟨caller, rfl, hpub⟩ := hrun hshelf hold hgone
    exact ⟨call, caller, .inr ⟨steps, rfl⟩, hpub⟩
  | @performed i c hpending =>
    cases c with
    | dropGeneration d =>
      change w.shelf.staging[u]? = none at hgone
      rw [hstaged] at hgone
      cases hgone
    | removeStaging v =>
      have hv : v ≠ u := by
        rintro rfl
        rw [(h.removal v (List.mem_of_getElem? hpending)).2] at hticket
        cases hticket
      change (w.shelf.stageRemove v).staging[u]? = none at hgone
      rw [MemoryShelf.stageRemove_staging, if_neg hv, hstaged] at hgone
      cases hgone
  | idle _ =>
    rw [hstaged] at hgone
    cases hgone
  | lost =>
    rw [hstaged] at hgone
    cases hgone
  | wroteLate => exact absurd hgone hwrite

/-- **Clean-ups never destroy live data.** After any run in which no upload id is made
up twice, the next event spares what is live. -/
theorem sparesLive_run (limits : Limits) (es : List Event) (e : Event)
    (hnever : (initial.mintedIn limits (es ++ [e])).Nodup) :
    SparesLive limits (initial.run limits es) e := by
  have hsplit : initial.mintedIn limits (es ++ [e]) =
      initial.mintedIn limits es ++ (initial.run limits es).minted limits e := by
    show Runs.history _ _ _ _ = _
    rw [Runs.history_append]
    exact congrArg _ (List.append_nil _)
  rw [hsplit] at hnever
  have hl : (initial.run limits es).Laid := laid_run laid_initial es
  have ht := tracked_run (List.nodup_append.mp hnever).1
  have hs := (initial.run limits es).exec_step limits e
  refine ⟨?_, ?_, ?_, ?_⟩
  · intro g hlive id item hitem hgone
    exact spares_items hl hs hlive hitem hgone
  · intro u ticket staged hticket hstaged hgone
    exact spares_staging ht hnever hs hticket hstaged hgone
  · rintro i g rfl hpending
    obtain ⟨hdead, hlt⟩ := hl.dropsDead g (List.mem_of_getElem? hpending)
    refine ⟨hdead, fun later => ?_⟩
    obtain ⟨hdead', hlt'⟩ := hs.move.dead hdead hlt
    exact dead_run hdead' hlt' later
  · rintro i u rfl hpending
    exact (ht.removal u (List.mem_of_getElem? hpending)).2

omit [Crates] in
/-- An upload is begun, aborted, and its staging place removed. -/
theorem sparesLive_aborted :
    @SparesLive Sample.crates Sample.limits
      (@run Sample.crates Sample.limits initial
        [.request (Sample.call 0 [1]) (.beginUpload Sample.laptop (Sample.request 5 none)),
          .request (Sample.call 1 []) (.abortUpload Sample.laptop (Sample.upload 1))])
      (.cleanup 0) :=
  @sparesLive_run Sample.crates Sample.limits _ (.cleanup 0) (by decide +kernel)

end World

end

end Passalong
