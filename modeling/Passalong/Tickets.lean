import Passalong.Layout

/-!
# Tickets and staging places

What changes do to tickets, and what operations do to staging places:

- a change asks for the removal of a staging place only with its ticket gone
  (`Change.removal`), and a shelf step takes away no item but the one it deletes and
  no staging place but a probe's or that of its own publish (`ShelfStep.keeps_item`,
  `ShelfStep.keeps_staging`);
- `TicketsFit`: uploads of a rewrite are there during one only, and before a workspace
  is sealed every ordinary upload is plaintext;
- `Tracked` ties what the record, the shelf and the pending clean-ups know of uploads
  to the ids made up so far, in a run in which none is made up twice.
-/

namespace Passalong

open Lib

section
variable [Crates]

/-! ## What a change does to tickets -/

/-- A ticket after a change was there before, or its id was made up now. -/
theorem Change.ticket {r : Rules} {op : Op} {a : Answer} {rec : WorkspaceRecord}
    {shelf : MemoryShelf} {after : List Cleanup} (h : Change r op a rec shelf after)
    {u : UploadId} {ticket : Ticket} (hticket : rec.tickets[u]? = some ticket) :
    r.record.tickets[u]? = some ticket ∨ op.minted r = [u] := by
  cases h with
  | @begun caller request g v htarget hnew hquota hknown hminted _ =>
    change (r.record.tickets.insert v _)[u]? = some ticket at hticket
    rw [Map.get_insert] at hticket
    split at hticket
    · rename_i e
      subst e
      exact .inr hminted
    · exact .inl hticket
  | stored _ _ => exact .inl (Map.get_of_get_filter hticket)
  | duplicate _ _ _ _ => exact .inl (Map.get_of_get_erase hticket)
  | published _ _ _ _ _ _ _ => exact .inl (Map.get_of_get_erase hticket)
  | recovered _ _ _ _ _ => exact .inl (Map.get_of_get_erase hticket)
  | aborted => exact .inl (Map.get_of_get_filter hticket)
  | switched _ _ _ _ _ => exact .inl (Map.get_of_get_filter hticket)
  | restored _ => exact .inl (Map.get_of_get_filter hticket)
  | cleaned => exact .inl (Map.get_of_get_filter hticket)
  | reconciled => exact .inl (Map.get_of_get_filter hticket)
  | _ => exact .inl hticket

omit [Crates] in
/-- Giving up tickets leaves none of those whose staging places are to go. -/
theorem WorkspaceRecord.removal_of_without {rec : WorkspaceRecord}
    {p : UploadId → Ticket → Bool} {u : UploadId}
    (h : Cleanup.removeStaging u ∈ rec.removals p) :
    (rec.without p).tickets[u]? = none ∧ ∃ ticket, rec.tickets[u]? = some ticket := by
  obtain ⟨v, ticket, hv, hticket, hp⟩ := mem_removals.mp h
  cases hv
  refine ⟨?_, ticket, hticket⟩
  show (rec.tickets.filter _)[u]? = none
  rw [Map.get_filter, hticket, Option.filter_some, hp]
  rfl

/-- The removal of a staging place is asked for with its ticket gone; the place was
that of a ticket, or on the shelf. -/
theorem Change.removal {r : Rules} {op : Op} {a : Answer} {rec : WorkspaceRecord}
    {shelf : MemoryShelf} {after : List Cleanup} (h : Change r op a rec shelf after)
    (h0 : r.after = []) {u : UploadId} (hu : Cleanup.removeStaging u ∈ after) :
    rec.tickets[u]? = none ∧
      ((∃ ticket, r.record.tickets[u]? = some ticket) ∨
        ∃ staged, r.shelf.staging[u]? = some staged) := by
  -- a commit removes what it has finished with
  have hfinished : ∀ {caller : Caller} {v : UploadId} {ticket : Ticket},
      r.record.liveTicket r.now caller v = some ticket →
      Cleanup.removeStaging u ∈ [Cleanup.removeStaging v] →
      (r.record.tickets.erase v)[u]? = none ∧ ∃ ticket, r.record.tickets[u]? = some ticket := by
    intro caller v ticket hticket hmem
    cases List.mem_singleton.mp hmem
    exact ⟨Map.get_erase_self _ _, ticket, (WorkspaceRecord.liveTicket_eq_some hticket).1⟩
  -- the janitor removes the places that no ticket is left for
  have hjanitor : Cleanup.removeStaging u ∈ r.cleanStaging.2.after →
      r.cleanStaging.2.record.tickets[u]? = none ∧
        ∃ staged, r.shelf.staging[u]? = some staged := by
    intro hmem
    rw [Rules.mem_cleanStaging_after, h0] at hmem
    rcases hmem with hmem | ⟨v, hv, hstaged, hnone⟩ | ⟨g, hg, -⟩
    · cases hmem
    · cases hv
      exact ⟨hnone, hstaged⟩
    · cases hg
  cases h with
  | stored _ _ =>
    obtain ⟨hnone, hsome⟩ := WorkspaceRecord.removal_of_without hu
    exact ⟨hnone, .inl hsome⟩
  | aborted =>
    obtain ⟨hnone, hsome⟩ := WorkspaceRecord.removal_of_without hu
    exact ⟨hnone, .inl hsome⟩
  | duplicate hticket _ _ _ =>
    obtain ⟨hnone, hsome⟩ := hfinished hticket hu
    exact ⟨hnone, .inl hsome⟩
  | published hticket _ _ _ _ _ _ =>
    obtain ⟨hnone, hsome⟩ := hfinished hticket hu
    exact ⟨hnone, .inl hsome⟩
  | recovered hticket _ _ _ _ =>
    obtain ⟨hnone, hsome⟩ := hfinished hticket hu
    exact ⟨hnone, .inl hsome⟩
  | switched _ _ _ _ _ =>
    -- the generation that is dropped comes first, then the tickets of the rewrite
    rcases List.mem_cons.mp hu with hu | hu
    · cases hu
    · obtain ⟨hnone, hsome⟩ := WorkspaceRecord.removal_of_without hu
      exact ⟨hnone, .inl hsome⟩
  | restored _ =>
    rcases List.mem_cons.mp hu with hu | hu
    · cases hu
    · obtain ⟨hnone, hsome⟩ := WorkspaceRecord.removal_of_without hu
      exact ⟨hnone, .inl hsome⟩
  | cleaned =>
    obtain ⟨hnone, hsome⟩ := hjanitor hu
    exact ⟨hnone, .inr hsome⟩
  | reconciled =>
    obtain ⟨hnone, hsome⟩ := hjanitor hu
    exact ⟨hnone, .inr hsome⟩
  | _ => cases hu

/-! ## Which tickets there can be -/

end

namespace WorkspaceRecord

variable {rec rec' : WorkspaceRecord}

/-- Uploads of a rewrite are there during one only, and before a workspace is sealed
every ordinary upload is plaintext. -/
structure TicketsFit (rec : WorkspaceRecord) : Prop where
  settled : ∀ sealed, rec.state = .settled sealed → ∀ (u : UploadId) (ticket : Ticket),
    rec.tickets[u]? = some ticket → ticket.request.inRewrite = false
  plaintext : rec.seal? = none → ∀ (u : UploadId) (ticket : Ticket),
    rec.tickets[u]? = some ticket → ticket.request.inRewrite = false →
      ticket.request.expectedKeyId = none

theorem ticketsFit_initial : TicketsFit initial where
  settled := by
    intro sealed _ u ticket h
    rw [show initial.tickets = ∅ from rfl, Std.ExtTreeMap.getElem?_empty] at h
    cases h
  plaintext := by
    intro _ u ticket h
    rw [show initial.tickets = ∅ from rfl, Std.ExtTreeMap.getElem?_empty] at h
    cases h

/-- Fewer tickets in the same state fit. -/
theorem TicketsFit.fewer (hf : TicketsFit rec) (hstate : rec'.state = rec.state)
    (h : ∀ (u : UploadId) (ticket : Ticket), rec'.tickets[u]? = some ticket →
      rec.tickets[u]? = some ticket) : TicketsFit rec' where
  settled := by
    intro sealed hs u ticket hticket
    exact hf.settled sealed (hstate.symm.trans hs) u ticket (h u ticket hticket)
  plaintext := by
    intro hseal u ticket hticket
    refine hf.plaintext ?_ u ticket (h u ticket hticket)
    rw [← hseal, seal?, seal?, hstate]

end WorkspaceRecord

section
variable [Crates]

open WorkspaceRecord in
theorem Change.ticketsFit {r : Rules} {op : Op} {a : Answer} {rec : WorkspaceRecord}
    {shelf : MemoryShelf} {after : List Cleanup} (h : Change r op a rec shelf after)
    (hf : TicketsFit r.record) : TicketsFit rec := by
  cases h with
  | sealed hstate _ =>
    exact ⟨fun _ _ => hf.settled none hstate, fun hseal => (by cases hseal)⟩
  | setAside hstate =>
    exact ⟨fun _ _ => hf.settled none hstate, fun hseal => (by cases hseal)⟩
  | reheaded hstate =>
    exact ⟨fun _ _ => hf.settled _ hstate, fun hseal => (by cases hseal)⟩
  | @begun caller request g u htarget _ _ _ _ _ =>
    -- only a begin adds a ticket, and it is one of where it may write now
    refine ⟨?_, ?_⟩
    · intro sealed hs v ticket hticket
      change (r.record.tickets.insert u _)[v]? = some ticket at hticket
      rw [Map.get_insert] at hticket
      split at hticket
      · cases hticket
        cases htarget with
        | staged session hstate _ _ _ =>
          rw [show r.record.state = .settled sealed from hs] at hstate
          cases hstate
        | current _ _ hin _ => exact hin
      · exact hf.settled sealed hs v ticket hticket
    · intro hseal v ticket hticket hin
      change (r.record.tickets.insert u _)[v]? = some ticket at hticket
      rw [Map.get_insert] at hticket
      split at hticket
      · cases hticket
        cases htarget with
        | staged session _ hin' _ _ =>
          rw [show request.inRewrite = false from hin] at hin'
          cases hin'
        | current sealed hstate _ hkey =>
          have hnone : sealed = none := (seal?_of_settled hstate).symm.trans hseal
          show request.expectedKeyId = none
          rw [hkey, hnone]
          rfl
      · exact hf.plaintext hseal v ticket hticket hin
  | opened hstate _ _ _ =>
    -- an open rewrite takes tickets of both kinds
    refine ⟨fun sealed hs => (by cases hs), fun hseal => ?_⟩
    exact hf.plaintext ((seal?_of_settled hstate).trans hseal)
  | renewed hstate =>
    refine ⟨fun sealed hs => (by cases hs), fun hseal => ?_⟩
    exact hf.plaintext ((seal?_of_rewriting hstate).trans hseal)
  | switched hstate _ _ _ _ =>
    -- its end keeps the tickets of the one partition that stays
    refine ⟨fun sealed _ u ticket hticket => ?_, fun hseal => (by cases hseal)⟩
    have hp := (Map.get_filter_eq_some.mp hticket).2
    simpa using hp
  | restored hstate =>
    refine ⟨fun sealed _ u ticket hticket => ?_, fun hseal u ticket hticket => ?_⟩
    · have hp := (Map.get_filter_eq_some.mp hticket).2
      simpa using hp
    · exact hf.plaintext ((seal?_of_rewriting hstate).trans hseal) u ticket
        (Map.get_of_get_filter hticket)
  -- the others leave fewer tickets, if not the same
  | stored _ _ => exact hf.fewer rfl fun _ _ => Map.get_of_get_filter
  | duplicate _ _ _ _ => exact hf.fewer rfl fun _ _ => Map.get_of_get_erase
  | published _ _ _ _ _ _ _ => exact hf.fewer rfl fun _ _ => Map.get_of_get_erase
  | recovered _ _ _ _ _ => exact hf.fewer rfl fun _ _ => Map.get_of_get_erase
  | aborted => exact hf.fewer rfl fun _ _ => Map.get_of_get_filter
  | cleaned => exact hf.fewer rfl fun _ _ => Map.get_of_get_filter
  | reconciled => exact hf.fewer rfl fun _ _ => Map.get_of_get_filter
  | _ => exact hf.fewer rfl fun _ _ => id

theorem World.Step.ticketsFit {limits : Limits} {w w' : World} {e : Event}
    (h : World.Step limits w e w') (hf : w.record.TicketsFit) : w'.record.TicketsFit := by
  cases h with
  | done _ hchange => exact hchange.ticketsFit hf
  | _ => exact hf

/-! ## What a shelf step takes away -/

/-- The items an operation takes away are those it deletes. -/
theorem ShelfStep.keeps_item {r : Rules} {op : Op} {shelf : MemoryShelf}
    (h : ShelfStep r op shelf) {g : Nat} {id : ItemId} {item : Item}
    (hitem : (r.shelf.generation g)[id]? = some item) :
    (shelf.generation g)[id]? = some item ∨
      (shelf.generation g)[id]? = none ∧
        ∃ caller partition expected, op = .deleteItem caller partition id expected ∧
          r.record.generationOf partition = some g := by
  cases h with
  | same => exact .inl hitem
  | @removed caller partition id' expected g' hg =>
    rw [MemoryShelf.remove_generation]
    by_cases e : g' = g
    · subst e
      rw [if_pos rfl]
      by_cases hid : id' = id
      · subst hid
        exact .inr ⟨Map.get_erase_self _ _, caller, partition, expected, rfl, hg⟩
      · rw [Map.get_erase_of_ne _ hid]
        exact .inl hitem
    · rw [if_neg e]
      exact .inl hitem
  | fresh _ =>
    rw [MemoryShelf.stageCreate_generation]
    exact .inl hitem
  | again _ =>
    rw [MemoryShelf.stageCreate_generation]
    exact .inl hitem
  | probed _ =>
    rw [MemoryShelf.stageRemove_generation, MemoryShelf.stageCreate_generation]
    exact .inl hitem
  | wrote =>
    rw [MemoryShelf.write_generation]
    exact .inl hitem
  | @published caller u ticket g' staged _ hticket htarget hstaged hsize hnew hstaging hitems =>
    refine .inl ?_
    rw [hitems]
    by_cases e : g' = g
    · subst e
      rw [if_pos rfl]
      -- the item published is new, so it is not the one that was there
      have hid : ticket.request.id ≠ id := by
        rintro rfl
        exact findIn_eq_none_iff.mp hnew _ _ hitem rfl
      rw [Map.get_insert_of_ne _ _ hid]
      exact hitem
    · rw [if_neg e]
      exact hitem

/-- The staging place an operation takes away is that of a probe or of its own
publish. -/
theorem ShelfStep.keeps_staging {r : Rules} {op : Op} {shelf : MemoryShelf}
    (h : ShelfStep r op shelf) {u : UploadId} {staged : Staged}
    (hstaged : r.shelf.staging[u]? = some staged) :
    (∃ staged', shelf.staging[u]? = some staged') ∨ op.minted r = [u] ∨
      ∃ caller ticket g, op = .commitUpload caller u ∧
        r.record.liveTicket r.now caller u = some ticket ∧ g ∈ r.record.liveGenerations ∧
        (shelf.generation g)[ticket.request.id]? = some ⟨staged.content,
          ⟨ticket.request.metaJson, ticket.request.expectedKeyId, r.now⟩⟩ := by
  have hcreate : ∀ v, ∃ staged', (r.shelf.stageCreate v).staging[u]? = some staged' := by
    intro v
    rw [MemoryShelf.stageCreate_staging]
    split
    · exact ⟨_, rfl⟩
    · exact ⟨staged, hstaged⟩
  cases h with
  | same => exact .inl ⟨staged, hstaged⟩
  | removed hg =>
    rw [MemoryShelf.remove_staging]
    exact .inl ⟨staged, hstaged⟩
  | fresh _ => exact .inl (hcreate _)
  | again _ => exact .inl (hcreate _)
  | @probed _ v hminted =>
    by_cases e : v = u
    · subst e
      exact .inr (.inl hminted)
    · rw [MemoryShelf.stageRemove_staging, if_neg e]
      exact .inl (hcreate v)
  | wrote =>
    refine .inl (Option.isSome_iff_exists.mp ?_)
    rw [MemoryShelf.write_staging_isSome, hstaged]
    rfl
  | @published caller v ticket g staged' _ hticket htarget hst hsize hnew hstaging hitems =>
    by_cases e : v = u
    · subst e
      rw [hstaged] at hst
      cases hst
      refine .inr (.inr ⟨caller, ticket, g, rfl, hticket, htarget.live, ?_⟩)
      rw [hitems, if_pos rfl, Map.get_insert_self]
    · rw [hstaging, Map.get_erase_of_ne _ e]
      exact .inl ⟨staged, hstaged⟩

/-- The staging places an operation leaves were there, or are that of a ticket or of
an id made up now. -/
theorem ShelfStep.staging {r : Rules} {op : Op} {shelf : MemoryShelf}
    (h : ShelfStep r op shelf) {u : UploadId} {staged : Staged}
    (hstaged : shelf.staging[u]? = some staged) :
    (∃ staged', r.shelf.staging[u]? = some staged') ∨ op.minted r = [u] ∨
      ∃ ticket, r.record.tickets[u]? = some ticket := by
  cases h with
  | same => exact .inl ⟨staged, hstaged⟩
  | removed hg =>
    rw [MemoryShelf.remove_staging] at hstaged
    exact .inl ⟨staged, hstaged⟩
  | fresh hminted =>
    rcases r.shelf.staging_of_stageCreate hstaged with rfl | hold
    · exact .inr (.inl hminted)
    · exact .inl ⟨staged, hold⟩
  | again hticket =>
    rcases r.shelf.staging_of_stageCreate hstaged with rfl | hold
    · exact .inr (.inr ⟨_, hticket⟩)
    · exact .inl ⟨staged, hold⟩
  | probed hminted =>
    rw [MemoryShelf.stageRemove_staging] at hstaged
    split at hstaged
    · cases hstaged
    · rcases r.shelf.staging_of_stageCreate hstaged with rfl | hold
      · exact .inr (.inl hminted)
      · exact .inl ⟨staged, hold⟩
  | wrote =>
    refine .inl (Option.isSome_iff_exists.mp ?_)
    rw [← MemoryShelf.write_staging_isSome, hstaged]
    rfl
  | published _ _ _ _ _ hstaging _ =>
    rw [hstaging] at hstaged
    exact .inl ⟨staged, Map.get_of_get_erase hstaged⟩

/-! ## The invariant -/

namespace World

/-- The upload ids the record, the shelf and the pending clean-ups know were made up
in the past, and a staging place that is to be removed has no ticket. -/
structure Tracked (past : List UploadId) (w : World) : Prop where
  ticket : ∀ u ticket, w.record.tickets[u]? = some ticket → u ∈ past
  removal : ∀ u, Cleanup.removeStaging u ∈ w.pending →
    u ∈ past ∧ w.record.tickets[u]? = none
  staging : ∀ u staged, w.shelf.staging[u]? = some staged → u ∈ past

omit [Crates] in
theorem tracked_initial : Tracked [] initial where
  ticket := by
    intro u ticket h
    rw [show initial.record.tickets = ∅ from rfl, Std.ExtTreeMap.getElem?_empty] at h
    cases h
  removal := by
    intro u hu
    cases hu
  staging := by
    intro u staged h
    rw [show initial.shelf.staging = ∅ from rfl, Std.ExtTreeMap.getElem?_empty] at h
    cases h

variable {limits : Limits} {past : List UploadId} {w w' : World} {e : Event}

/-- A step that changes the shelf alone, in one of the ways of an operation. -/
theorem Tracked.shelfStep {call : Call} {op : Op} {shelf : MemoryShelf}
    (h : Tracked past w) (hshelf : ShelfStep (w.rules limits call) op shelf) {u : UploadId}
    {staged : Staged} (hstaged : shelf.staging[u]? = some staged) :
    u ∈ past ++ op.minted (w.rules limits call) := by
  rcases hshelf.staging hstaged with ⟨staged', hold⟩ | hminted | ⟨ticket, hticket⟩
  · exact List.mem_append_left _ (h.staging u staged' hold)
  · rw [hminted]
    exact List.mem_append_right _ (List.mem_singleton_self _)
  · exact List.mem_append_left _ (h.ticket u ticket hticket)

/-- A write makes no staging place. -/
theorem Tracked.write (h : Tracked past w) {u v : UploadId} {content : Source}
    {announced : Nat} {hashed : Bool} {staged : Staged}
    (hstaged : (w.shelf.write v content announced hashed).2.staging[u]? = some staged) :
    u ∈ past := by
  have hsome : w.shelf.staging[u]?.isSome = true := by
    rw [← w.shelf.write_staging_isSome v u content announced hashed, hstaged]
    rfl
  obtain ⟨staged', hold⟩ := Option.isSome_iff_exists.mp hsome
  exact h.staging u staged' hold

theorem Tracked.step (h : Tracked past w) (hnever : (past ++ w.minted limits e).Nodup)
    (hs : Step limits w e w') : Tracked (past ++ w.minted limits e) w' := by
  -- an id made up now is none of the past
  have hnew : ∀ u, w.minted limits e = [u] → u ∉ past := by
    intro u hu hpast
    rw [hu] at hnever
    exact (List.nodup_append.mp hnever).2.2 u hpast u (List.mem_singleton_self _) rfl
  have hpast : ∀ u, u ∈ past → u ∈ past ++ w.minted limits e :=
    fun u hu => List.mem_append_left _ hu
  cases hs with
  | @done call op a rec shelf after _ hchange =>
    have hticket : ∀ u ticket, rec.tickets[u]? = some ticket →
        w.record.tickets[u]? = some ticket ∨ w.minted limits (.request call op) = [u] :=
      fun u ticket hu => hchange.ticket hu
    refine ⟨?_, ?_, fun u staged hstaged => h.shelfStep hchange.shelfStep hstaged⟩
    · intro u ticket hu
      rcases hticket u ticket hu with hold | hminted
      · exact hpast u (h.ticket u ticket hold)
      · rw [hminted]
        exact List.mem_append_right _ (List.mem_singleton_self _)
    · intro u hu
      rcases List.mem_append.mp hu with hu | hu
      · obtain ⟨hin, hnone⟩ := h.removal u hu
        refine ⟨hpast u hin, ?_⟩
        cases hget : rec.tickets[u]? with
        | none => rfl
        | some ticket =>
          rcases hticket u ticket hget with hold | hminted
          · rw [hnone] at hold
            cases hold
          · exact absurd hin (hnew u hminted)
      · obtain ⟨hnone, ⟨ticket, hold⟩ | ⟨staged, hold⟩⟩ := hchange.removal rfl hu
        · exact ⟨hpast u (h.ticket u ticket hold), hnone⟩
        · exact ⟨hpast u (h.staging u staged hold), hnone⟩
  | refused hshelf =>
    refine ⟨fun u ticket hu => hpast u (h.ticket u ticket hu),
      fun u hu => ⟨hpast u (h.removal u hu).1, (h.removal u hu).2⟩, ?_⟩
    intro u staged hstaged
    rcases hshelf with rfl | ⟨v, content, announced, hashed, rfl⟩
    · exact hpast u (h.staging u staged hstaged)
    · exact hpast u (h.write hstaged)
  | cut hshelf =>
    exact ⟨fun u ticket hu => hpast u (h.ticket u ticket hu),
      fun u hu => ⟨hpast u (h.removal u hu).1, (h.removal u hu).2⟩,
      fun u staged hstaged => h.shelfStep hshelf hstaged⟩
  | @performed i c hpending =>
    refine ⟨fun u ticket hu => hpast u (h.ticket u ticket hu), ?_, ?_⟩
    · intro u hu
      have hu := List.mem_of_mem_eraseIdx hu
      exact ⟨hpast u (h.removal u hu).1, (h.removal u hu).2⟩
    · intro u staged hstaged
      cases c with
      | dropGeneration g => exact hpast u (h.staging u staged hstaged)
      | removeStaging v =>
        exact hpast u (h.staging u staged (Map.get_of_get_erase hstaged))
  | idle _ =>
    exact ⟨fun u ticket hu => hpast u (h.ticket u ticket hu),
      fun u hu => ⟨hpast u (h.removal u hu).1, (h.removal u hu).2⟩,
      fun u staged hu => hpast u (h.staging u staged hu)⟩
  | lost =>
    refine ⟨fun u ticket hu => hpast u (h.ticket u ticket hu), ?_,
      fun u staged hu => hpast u (h.staging u staged hu)⟩
    intro u hu
    have hu := List.mem_of_mem_eraseIdx hu
    exact ⟨hpast u (h.removal u hu).1, (h.removal u hu).2⟩
  | wroteLate =>
    exact ⟨fun u ticket hu => hpast u (h.ticket u ticket hu),
      fun u hu => ⟨hpast u (h.removal u hu).1, (h.removal u hu).2⟩,
      fun u staged hstaged => hpast u (h.write hstaged)⟩

/-- What is tracked after a run in which no id is made up twice. -/
theorem tracked_run {es : List Event} (hnever : (initial.mintedIn limits es).Nodup) :
    Tracked (initial.mintedIn limits es) (initial.run limits es) := by
  have h : Tracked ([] ++ initial.mintedIn limits es) (initial.run limits es) :=
    Runs.pairwise_invariant (exec limits)
      (fun _ w e h _ hn => h.step hn (w.exec_step limits e)) tracked_initial
      (Runs.along_of_forall _ fun _ _ => trivial) hnever
  exact h

end World

end

end Passalong
