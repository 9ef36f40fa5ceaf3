import Passalong.Changes

/-!
# What one event can do

`World.Step` lists what an event can do to a workspace: a stored change of the
table, a refusal, the shelf step of an operation that was cut, a clean-up, the
loss of one, or a late write. `World.exec_step` says that every event does one of
them, and every invariant of whole runs is proved over this list.
-/

namespace Passalong

open Lib

section
variable [Crates]

/-! ## What an operation can do to the shelf -/

/-- What is left on the shelf of an operation whose record is not stored. -/
inductive ShelfStep (r : Rules) : Op → MemoryShelf → Prop
  | same {op : Op} : ShelfStep r op r.shelf
  | removed {caller : Caller} {partition : Partition} {id : ItemId} {expected : Option KeyId}
      {g : Nat} (hg : r.record.generationOf partition = some g) :
      ShelfStep r (.deleteItem caller partition id expected) (r.shelf.remove g id).2
  /-- The staging place of a new upload, or of a probe. -/
  | fresh {op : Op} {u : UploadId} (hminted : op.minted r = [u]) :
      ShelfStep r op (r.shelf.stageCreate u)
  | again {caller : Caller} {request : UploadRequest} {u : UploadId} {ticket : Ticket}
      (hticket : r.record.tickets[u]? = some ticket) :
      ShelfStep r (.beginUpload caller request) (r.shelf.stageCreate u)
  | probed {op : Op} {u : UploadId} (hminted : op.minted r = [u]) :
      ShelfStep r op ((r.shelf.stageCreate u).stageRemove u)
  | wrote {op : Op} {u : UploadId} {content : Source} {announced : Nat} {hashed : Bool} :
      ShelfStep r op (r.shelf.write u content announced hashed).2
  | published {caller : Caller} {u : UploadId} {ticket : Ticket} {g : Nat}
      {staged : Staged} {shelf : MemoryShelf}
      (hticket : r.record.liveTicket r.now caller u = some ticket)
      (htarget : r.record.Targets caller ticket.request g)
      (hstaged : r.shelf.staging[u]? = some staged)
      (hsize : staged.content.length = ticket.request.size)
      (hnew : findIn r.shelf g ticket.request.id.contentKey = none)
      (hstaging : shelf.staging = r.shelf.staging.erase u)
      (hitems : ∀ h, shelf.generation h =
        if g = h then
          (r.shelf.generation g).insert ticket.request.id
            ⟨staged.content, ⟨ticket.request.metaJson, ticket.request.expectedKeyId, r.now⟩⟩
        else r.shelf.generation h) :
      ShelfStep r (.commitUpload caller u) shelf

/-- A change of the table takes one of these steps. -/
theorem Change.shelfStep {r : Rules} {op : Op} {a : Answer} {rec : WorkspaceRecord}
    {shelf : MemoryShelf} {after : List Cleanup} (h : Change r op a rec shelf after) :
    ShelfStep r op shelf := by
  cases h with
  | deleted _ hg _ => exact .removed hg
  | begun _ _ _ _ hminted _ => exact .fresh hminted
  | rebegun hticket _ _ => exact .again hticket
  | put _ => exact .wrote
  | published hticket htarget hstaged hsize hnew hstaging hitems =>
    exact .published hticket htarget hstaged hsize hnew hstaging hitems
  | probed hminted => exact .probed hminted
  | _ => exact .same

/-- **A refusal leaves the shelf alone**, unless it is that of a put. -/
theorem Op.refused_shelf {op : Op} {r r' : Rules} {e : ApiError}
    (hput : ∀ caller u content, op ≠ .putUploadContent caller u content)
    (h : op.rule r = (.error e, r')) : r'.shelf = r.shelf := by
  cases op with
  | putUploadContent caller u content => exact absurd rfl (hput caller u content)
  | deleteItem caller partition id expected =>
    exact Rules.deleteItem_refused (answering_error h)
  | enableEncryption caller keyId header =>
    exact Rules.enableEncryption_refused (answering_error h)
  | freshStart caller keyId header => exact Rules.freshStart_refused (answering_error h)
  | replaceHeader caller expected header =>
    exact Rules.replaceHeader_refused (answering_error h)
  | beginUpload caller request => exact Rules.beginUpload_refused (answering_error h)
  | commitUpload caller u => exact Rules.commitUpload_refused (answering_error h)
  | probeWrite caller => exact Rules.probeWrite_refused (answering_error h)
  | beginRewrite caller request =>
    rw [← r.beginRewrite_shelf caller request, answering_error h]
  | heartbeatRewrite caller => rw [← r.heartbeatRewrite_shelf caller, answering_error h]
  | takeOverRewrite caller => rw [← r.takeOverRewrite_shelf caller, answering_error h]
  | commitRewrite caller newKeyId =>
    rw [← r.commitRewrite_shelf caller newKeyId, answering_error h]
  | abortRewrite caller newKeyId =>
    rw [← r.abortRewrite_shelf caller newKeyId, answering_error h]
  | operatorAbortRewrite force => rw [← r.operatorAbortRewrite_shelf force, answering_error h]
  | abortUpload caller u => cases h
  | cleanStaging => cases h
  | reconcile => cases h

/-- A refused put empties its own staging place, or does nothing. -/
theorem Op.refused {op : Op} {r r' : Rules} {e : ApiError} (h : op.rule r = (.error e, r')) :
    r'.shelf = r.shelf ∨ ∃ u content announced hashed,
      r'.shelf = (r.shelf.write u content announced hashed).2 := by
  by_cases hput : ∃ caller u content, op = .putUploadContent caller u content
  · obtain ⟨caller, u, content, rfl⟩ := hput
    have hr : (r.putUploadContent caller u content).2 = r' := by rw [answering_error h]
    obtain hsame | ⟨ticket, -, hwrite⟩ := r.putUploadContent_cases caller u content
    · rw [← hr, hsame]
      exact .inl rfl
    · rw [← hr, hwrite]
      exact .inr ⟨u, content, _, _, rfl⟩
  · refine .inl (Op.refused_shelf (fun caller u content hop => ?_) h)
    exact hput ⟨caller, u, content, hop⟩

/-- What a rule leaves on the shelf, whatever it answers. -/
theorem Op.rule_shelfStep {op : Op} {r : Rules} (h0 : r.after = []) :
    ShelfStep r op (op.rule r).2.shelf := by
  rcases hout : op.rule r with ⟨res, r'⟩
  cases res with
  | ok a => exact (Op.change h0 hout).shelfStep
  | error e =>
    obtain hsame | ⟨u, content, announced, hashed, hwrite⟩ := Op.refused hout
    · show ShelfStep r op r'.shelf
      rw [hsame]
      exact .same
    · show ShelfStep r op r'.shelf
      rw [hwrite]
      exact .wrote

/-- **An operation that is cut leaves one shelf step or none.** -/
theorem Op.cut {op : Op} {r : Rules} (h0 : r.after = []) (steps : Nat) :
    ShelfStep r op (op.cutShelf r steps) := by
  by_cases hprobe : ∃ caller, op = .probeWrite caller
  · obtain ⟨caller, rfl⟩ := hprobe
    simp only [Op.cutShelf]
    split
    · rename_i probe draws hdraws
      split
      · rename_i _ hallowed
        refine .fresh ?_
        simp only [Op.minted]
        rw [hallowed, hdraws]
        rfl
      · exact .same
    · exact .same
  · have hcut : op.cutShelf r steps = if steps = 0 then r.shelf else (op.rule r).2.shelf := by
      cases op with
      | probeWrite caller => exact absurd ⟨caller, rfl⟩ hprobe
      | _ => rfl
    rw [hcut]
    split
    · exact .same
    · exact Op.rule_shelfStep h0

/-! ## What an event can do to a workspace -/

/-- What an event can do. -/
inductive World.Step (limits : Limits) (w : World) : Event → World → Prop
  | done {call : Call} {op : Op} {a : Answer} {rec : WorkspaceRecord} {shelf : MemoryShelf}
      {after : List Cleanup} (hanswer : (Engine.run w limits call op).1 = .ok a)
      (hchange : Change (w.rules limits call) op a rec shelf after) :
      Step limits w (.request call op) ⟨rec, shelf, w.pending ++ after⟩
  /-- A refusal, which may have been that of a put. -/
  | refused {call : Call} {op : Op} {shelf : MemoryShelf}
      (hshelf : shelf = w.shelf ∨ ∃ u content announced hashed,
        shelf = (w.shelf.write u content announced hashed).2) :
      Step limits w (.request call op) { w with shelf }
  | cut {call : Call} {op : Op} {steps : Nat} {shelf : MemoryShelf}
      (hshelf : ShelfStep (w.rules limits call) op shelf) :
      Step limits w (.cut call op steps) { w with shelf }
  | performed {i : Nat} {c : Cleanup} (hpending : w.pending[i]? = some c) :
      Step limits w (.cleanup i)
        { w with shelf := c.perform w.shelf, pending := w.pending.eraseIdx i }
  | idle {i : Nat} (hpending : w.pending[i]? = none) : Step limits w (.cleanup i) w
  | lost {i : Nat} : Step limits w (.lose i) { w with pending := w.pending.eraseIdx i }
  | wroteLate {u : UploadId} {content : Source} {announced : Nat} {hashed : Bool} :
      Step limits w (.lateWrite u content announced hashed)
        { w with shelf := (w.shelf.write u content announced hashed).2 }

/-- What runs outside any transaction edits no record and asks for no clean-up. -/
theorem Op.readsOnly_record {op : Op} (hop : op.readsOnly = true) (r : Rules) :
    (op.rule r).2.record = r.record ∧ (op.rule r).2.after = r.after := by
  cases op with
  | putUploadContent caller u content =>
    obtain hsame | ⟨ticket, -, hwrite⟩ := r.putUploadContent_cases caller u content
    · have hr : ((Op.putUploadContent caller u content).rule r).2 = r := hsame
      rw [hr]
      exact ⟨rfl, rfl⟩
    · have hr : ((Op.putUploadContent caller u content).rule r).2 = _ := hwrite
      rw [hr]
      exact ⟨rfl, rfl⟩
  | probeWrite caller =>
    show (r.probeWrite caller).2.record = _ ∧ (r.probeWrite caller).2.after = _
    unfold Rules.probeWrite Rules.check
    split
    · split <;> exact ⟨rfl, rfl⟩
    · exact ⟨rfl, rfl⟩
  | _ => cases hop

/-- **What running an operation comes to**: a change of the table, stored, or a
refusal. -/
theorem Engine.run_cases (w : World) (limits : Limits) (call : Call) (op : Op) :
    (∃ a rec shelf after, Change (w.rules limits call) op a rec shelf after ∧
      Engine.run w limits call op = (.ok a, ⟨rec, shelf, w.pending ++ after⟩)) ∨
    (∃ e shelf, (shelf = w.shelf ∨ ∃ u content announced hashed,
        shelf = (w.shelf.write u content announced hashed).2) ∧
      Engine.run w limits call op = (.error e, { w with shelf })) := by
  unfold Engine.run Engine.read Engine.write
  rcases hout : op.rule (w.rules limits call) with ⟨res, r'⟩
  cases res with
  | error e =>
    refine .inr ⟨e, r'.shelf, Op.refused hout, ?_⟩
    split <;> rfl
  | ok a =>
    refine .inl ⟨a, r'.record, r'.shelf, r'.after, Op.change rfl hout, ?_⟩
    split
    · rename_i hop
      obtain ⟨hrec, hafter⟩ := Op.readsOnly_record hop (w.rules limits call)
      rw [hout] at hrec hafter
      show ((.ok a, ⟨w.record, r'.shelf, w.pending⟩) : Except ApiError Answer × World) = _
      rw [show r'.record = w.record from hrec, show r'.after = [] from hafter,
        List.append_nil]
    · rfl

/-- A request that is refused, and no put, changes nothing. -/
theorem Engine.run_refused {w : World} {limits : Limits} {call : Call} {op : Op} {e : ApiError}
    (hput : ∀ caller u content, op ≠ .putUploadContent caller u content)
    (h : (Engine.run w limits call op).1 = .error e) :
    w.exec limits (.request call op) = w := by
  show (Engine.run w limits call op).2 = w
  unfold Engine.run Engine.read Engine.write at h ⊢
  rcases hout : op.rule (w.rules limits call) with ⟨res, r'⟩
  rw [hout] at h
  cases res with
  | ok a =>
    split at h <;> cases h
  | error e' =>
    have hshelf : r'.shelf = w.shelf := Op.refused_shelf hput hout
    split
    · show (⟨w.record, r'.shelf, w.pending⟩ : World) = w
      rw [hshelf]
    · show (⟨w.record, r'.shelf, w.pending⟩ : World) = w
      rw [hshelf]

/-- An operation that is answered has made its change. -/
theorem Engine.run_ok {w : World} {limits : Limits} {call : Call} {op : Op} {a : Answer}
    (h : (Engine.run w limits call op).1 = .ok a) :
    ∃ rec shelf after, Change (w.rules limits call) op a rec shelf after ∧
      w.exec limits (.request call op) = ⟨rec, shelf, w.pending ++ after⟩ := by
  rcases Engine.run_cases w limits call op with
    ⟨a', rec, shelf, after, hchange, hrun⟩ | ⟨e, shelf, -, hrun⟩
  · rw [hrun] at h
    cases h
    refine ⟨rec, shelf, after, hchange, ?_⟩
    show (Engine.run w limits call op).2 = _
    rw [hrun]
  · rw [hrun] at h
    cases h

/-- **Every event does one of these.** -/
theorem World.exec_step (limits : Limits) (w : World) (e : Event) :
    World.Step limits w e (w.exec limits e) := by
  cases e with
  | request call op =>
    show World.Step limits w _ (Engine.run w limits call op).2
    rcases Engine.run_cases w limits call op with
      ⟨a, rec, shelf, after, hchange, hrun⟩ | ⟨e, shelf, hshelf, hrun⟩
    · have hanswer : (Engine.run w limits call op).1 = .ok a := by rw [hrun]
      rw [hrun]
      exact .done hanswer hchange
    · rw [hrun]
      exact .refused hshelf
  | cut call op steps => exact .cut (Op.cut rfl steps)
  | cleanup i =>
    simp only [exec]
    split
    · rename_i c hpending
      exact .performed hpending
    · rename_i hpending
      exact .idle hpending
  | lose i => exact .lost
  | lateWrite u content announced hashed => exact .wroteLate

/-! ## Where items come from -/

/-- An item that an operation's shelf step left was there before, or is its own
publish. -/
theorem ShelfStep.item {r : Rules} {op : Op} {shelf : MemoryShelf} (h : ShelfStep r op shelf)
    {g : Nat} {id : ItemId} {item : Item} (hitem : (shelf.generation g)[id]? = some item) :
    (r.shelf.generation g)[id]? = some item ∨
      ∃ caller request, r.record.Targets caller request g ∧ request.id = id ∧
        item.envelope.under = request.expectedKeyId := by
  cases h with
  | same => exact .inl hitem
  | removed hg =>
    rw [MemoryShelf.remove_generation] at hitem
    split at hitem
    · rename_i e
      subst e
      exact .inl (Map.get_of_get_erase hitem)
    · exact .inl hitem
  | fresh _ =>
    rw [MemoryShelf.stageCreate_generation] at hitem
    exact .inl hitem
  | again _ =>
    rw [MemoryShelf.stageCreate_generation] at hitem
    exact .inl hitem
  | probed _ =>
    rw [MemoryShelf.stageRemove_generation, MemoryShelf.stageCreate_generation] at hitem
    exact .inl hitem
  | wrote =>
    rw [MemoryShelf.write_generation] at hitem
    exact .inl hitem
  | published hticket htarget hstaged hsize hnew hstaging hitems =>
    rw [hitems] at hitem
    split at hitem
    · rename_i e
      subst e
      rw [Map.get_insert] at hitem
      split at hitem
      · rename_i hid
        cases hitem
        exact .inr ⟨_, _, htarget, hid, rfl⟩
      · exact .inl hitem
    · exact .inl hitem

/-- The same of every event: items appear by a publish only. -/
theorem World.Step.item {limits : Limits} {w w' : World} {e : Event}
    (h : World.Step limits w e w') {g : Nat} {id : ItemId} {item : Item}
    (hitem : (w'.shelf.generation g)[id]? = some item) :
    (w.shelf.generation g)[id]? = some item ∨
      ∃ caller request, w.record.Targets caller request g ∧ request.id = id ∧
        item.envelope.under = request.expectedKeyId := by
  cases h with
  | done _ hchange => exact hchange.shelfStep.item hitem
  | refused hshelf =>
    rcases hshelf with rfl | ⟨u, content, announced, hashed, rfl⟩
    · exact .inl hitem
    · rw [MemoryShelf.write_generation] at hitem
      exact .inl hitem
  | cut hshelf => exact hshelf.item hitem
  | @performed i c hpending =>
    cases c with
    | dropGeneration d =>
      change ((w.shelf.dropGeneration d).generation g)[id]? = some item at hitem
      rw [MemoryShelf.dropGeneration_generation] at hitem
      split at hitem
      · rw [Std.ExtTreeMap.getElem?_empty] at hitem
        cases hitem
      · exact .inl hitem
    | removeStaging u => exact .inl hitem
  | idle _ => exact .inl hitem
  | lost => exact .inl hitem
  | wroteLate =>
    rw [MemoryShelf.write_generation] at hitem
    exact .inl hitem

end

end Passalong
