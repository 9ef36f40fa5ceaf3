import Passalong.Layout

/-!
# One holder per rewrite

While a session is open, one key holds it (`oneHolder_run`): the holder changes by a
take-over only, and not before the lease has ended; what belongs to the rewrite is
answered to the holder only; and whatever anyone else sends, with tickets of an earlier
hold or without, leaves the session, the staged items and the current generation as they
are, unless it is a take-over that is accepted.
-/

namespace Passalong

open Lib

/-- Who sent an operation. The janitor's work may be asked for by anyone, and what an
operator or an opening does is no request. -/
def Op.sentBy (key : ApiKeyId) : Op → Prop
  | .deleteItem caller .. | .enableEncryption caller .. | .freshStart caller ..
  | .replaceHeader caller .. | .beginUpload caller .. | .putUploadContent caller ..
  | .commitUpload caller .. | .abortUpload caller .. | .probeWrite caller
  | .beginRewrite caller .. | .heartbeatRewrite caller | .takeOverRewrite caller
  | .commitRewrite caller .. | .abortRewrite caller .. => caller.key = key
  | .cleanStaging => True
  | .operatorAbortRewrite _ | .reconcile => False

/-- Whether an event may be the work of a request of that key. Clean-ups and late writes
may be anyone's. -/
def Event.sentBy (key : ApiKeyId) : Event → Prop
  | .request _ op | .cut _ op _ => op.sentBy key
  | .cleanup _ | .lose _ | .lateWrite .. => True

/-- Who has to be the holder for an operation to belong to the open rewrite: not of a
commit that is answered from a remembered outcome. -/
def Op.ofRewrite (rec : WorkspaceRecord) (now : Nat) : Op → Option Caller
  | .beginUpload caller request => if request.inRewrite then some caller else none
  | .commitUpload caller u =>
    if rec.tombstone now caller u = none ∧
        (rec.tickets[u]?.any fun ticket => ticket.request.inRewrite) = true then some caller
    else none
  | .heartbeatRewrite caller | .commitRewrite caller _ | .abortRewrite caller _ => some caller
  | _ => none

namespace WorkspaceRecord

variable {rec : WorkspaceRecord} {session : Session}

/-- While a session is open, uploads go to its generation, for its holder. -/
theorem Targets.of_rewriting {caller : Caller} {request : UploadRequest} {g : Nat}
    (h : rec.Targets caller request g) (hstate : rec.state = .rewriting session) :
    session.holder = caller.key ∧ g = session.stagedGeneration := by
  cases h with
  | staged session' hstate' _ hholder _ =>
    rw [hstate] at hstate'
    cases hstate'
    exact ⟨hholder, rfl⟩
  | current sealed hstate' _ _ =>
    rw [hstate] at hstate'
    cases hstate'

end WorkspaceRecord

/-- Nothing that is done already is done while a session is open. -/
theorem Op.Done.not_rewriting {rec : WorkspaceRecord} {op : Op} {session : Session}
    (h : op.Done rec) (hstate : rec.state = .rewriting session) : False := by
  cases op with
  | enableEncryption caller keyId header =>
    obtain ⟨header', hs⟩ := h
    rw [hstate] at hs
    cases hs
  | freshStart caller keyId header =>
    obtain ⟨header', hs⟩ := h
    rw [hstate] at hs
    cases hs
  | commitRewrite caller keyId =>
    obtain ⟨header', hs⟩ := h
    rw [hstate] at hs
    cases hs
  | abortRewrite caller keyId =>
    obtain ⟨sealed, hs⟩ := h
    rw [hstate] at hs
    cases hs
  | _ => cases h

section
variable [Crates] {r : Rules} {op : Op} {a : Answer} {rec : WorkspaceRecord}
  {shelf : MemoryShelf} {after : List Cleanup} {open' : Session}

/-- **What belongs to the rewrite is done for the holder.** -/
theorem Change.ofRewrite (h : Change r op a rec shelf after)
    (hstate : r.record.state = .rewriting open') {caller : Caller}
    (hcaller : op.ofRewrite r.record r.now = some caller) : open'.holder = caller.key := by
  -- an upload of the rewrite goes where only its holder may write
  have hbegin : ∀ {caller' : Caller} {request : UploadRequest} {g : Nat},
      (Op.beginUpload caller' request).ofRewrite r.record r.now = some caller →
      r.record.Targets caller' request g → open'.holder = caller.key := by
    intro caller' request g hof htarget
    simp only [Op.ofRewrite] at hof
    split at hof
    · cases hof
      exact (htarget.of_rewriting hstate).1
    · cases hof
  have hcommit : ∀ {caller' : Caller} {u : UploadId} {request : UploadRequest} {g : Nat},
      (Op.commitUpload caller' u).ofRewrite r.record r.now = some caller →
      r.record.Targets caller' request g → open'.holder = caller.key := by
    intro caller' u request g hof htarget
    simp only [Op.ofRewrite] at hof
    split at hof
    · cases hof
      exact (htarget.of_rewriting hstate).1
    · cases hof
  cases h with
  | kept hdone => exact (hdone.not_rewriting hstate).elim
  | discarded => cases hcaller
  | replayed hstone =>
    simp only [Op.ofRewrite] at hcaller
    rw [if_neg (fun hand => by rw [hstone] at hand; cases hand.1)] at hcaller
    cases hcaller
  | deleted _ _ _ _ => cases hcaller
  | sealed hsettled _ _ _ =>
    rw [hstate] at hsettled
    cases hsettled
  | setAside hsettled _ =>
    rw [hstate] at hsettled
    cases hsettled
  | reheaded hsettled _ =>
    rw [hstate] at hsettled
    cases hsettled
  -- begins and commits of uploads
  | begun htarget _ _ _ _ _ _ => exact hbegin hcaller htarget
  | rebegun _ _ _ _ htarget => exact hbegin hcaller htarget
  | stored htarget _ => exact hbegin hcaller htarget
  | put _ => cases hcaller
  | duplicate _ htarget _ _ => exact hcommit hcaller htarget
  | published _ htarget _ _ _ _ _ => exact hcommit hcaller htarget
  | recovered _ htarget _ _ _ => exact hcommit hcaller htarget
  | aborted => cases hcaller
  | probed _ => cases hcaller
  | opened hsettled _ _ _ _ _ =>
    rw [hstate] at hsettled
    cases hsettled
  | renewed hsession hrenews _ =>
    -- a heartbeat renews for the holder only
    rw [hstate] at hsession
    cases hsession
    cases op with
    | beginRewrite caller' request => cases hcaller
    | heartbeatRewrite caller' =>
      cases hcaller
      obtain ⟨rfl, hholder⟩ := hrenews
      exact hholder
    | takeOverRewrite caller' => cases hcaller
    | _ => cases hrenews
  | switched _ _ hheld _ _ =>
    -- the end of the rewrite, by its holder or by the operator
    cases hcaller
    obtain ⟨hsession, hholder⟩ := WorkspaceRecord.heldSession_ok hheld
    rw [hstate] at hsession
    cases hsession
    exact hholder
  | restored hsession haborts =>
    rw [hstate] at hsession
    cases hsession
    cases op with
    | abortRewrite caller' keyId =>
      cases hcaller
      exact haborts.2.1
    | operatorAbortRewrite force => cases hcaller
    | _ => cases haborts
  | cleaned => cases hcaller
  | reconciled => cases hcaller

/-- **What becomes of an open session**: it is as it was, or its lease is renewed, or it
ends. -/
theorem Change.openSession (h : Change r op a rec shelf after)
    (hstate : r.record.state = .rewriting open') :
    (rec.state = .rewriting open' ∧ rec.generation = r.record.generation) ∨
    (∃ caller, op.Renews r open' caller ∧ rec.generation = r.record.generation ∧
      rec.state = .rewriting { open' with
        holder := caller.key
        leaseExpiresAt := wrappingAdd r.now r.limits.leaseSecs }) ∨
    ((∃ sealed, rec.state = .settled sealed) ∧
      ((∃ caller, op = .commitRewrite caller open'.next.keyId ∧ open'.holder = caller.key) ∨
        op.Aborts r open')) := by
  cases h with
  | sealed hsettled _ _ _ =>
    rw [hstate] at hsettled
    cases hsettled
  | setAside hsettled _ =>
    rw [hstate] at hsettled
    cases hsettled
  | reheaded hsettled _ =>
    rw [hstate] at hsettled
    cases hsettled
  | opened hsettled _ _ _ _ _ =>
    rw [hstate] at hsettled
    cases hsettled
  | renewed hsession hrenews _ =>
    rw [hstate] at hsession
    cases hsession
    exact .inr (.inl ⟨_, hrenews, rfl, rfl⟩)
  | switched hsession _ hheld hkey _ =>
    rw [hstate] at hsession
    cases hsession
    subst hkey
    exact .inr (.inr ⟨⟨_, rfl⟩, .inl ⟨_, rfl, (WorkspaceRecord.heldSession_ok hheld).2⟩⟩)
  | restored hsession haborts =>
    rw [hstate] at hsession
    cases hsession
    exact .inr (.inr ⟨⟨_, rfl⟩, .inr haborts⟩)
  | _ => exact .inl ⟨hstate, rfl⟩

/-- **Items come to an open session from its holder only.** -/
theorem ShelfStep.keeps_staged (h : ShelfStep r op shelf) (hl : r.record.Layout)
    (hstate : r.record.state = .rewriting open')
    (hother : ∀ caller u, op = .commitUpload caller u → open'.holder ≠ caller.key) :
    shelf.generation open'.stagedGeneration = r.shelf.generation open'.stagedGeneration := by
  have hstaged := WorkspaceRecord.stagedGeneration_of_rewriting hstate
  cases h with
  | same => rfl
  | @removed caller partition id expected g hg =>
    -- a deletion is from the current or the plain partition
    have hne : g ≠ open'.stagedGeneration := by
      rintro rfl
      cases partition with
      | current => exact hl.staged_ne (hstaged.trans hg.symm)
      | plain => exact hl.plain_ne_staged _ hg hstaged
    rw [MemoryShelf.remove_generation, if_neg hne]
  | fresh _ => rw [MemoryShelf.stageCreate_generation]
  | again _ => rw [MemoryShelf.stageCreate_generation]
  | probed _ =>
    rw [MemoryShelf.stageRemove_generation, MemoryShelf.stageCreate_generation]
  | wrote => rw [MemoryShelf.write_generation]
  | published _ htarget _ _ _ _ _ =>
    exact absurd (htarget.of_rewriting hstate).1 (hother _ _ rfl)

end

namespace World

variable [Crates]

/-- Whether an event is a take-over that is accepted. -/
def TakesOver (limits : Limits) (w : World) (e : Event) : Prop :=
  ∃ call caller a, e = .request call (.takeOverRewrite caller) ∧
    (Engine.run w limits call (.takeOverRewrite caller)).1 = .ok a

/-- **The law of the lease**, of whatever happens next. -/
structure OneHolder (limits : Limits) (w : World) : Prop where
  /-- An open session goes on as it is, or is taken over once its lease has ended. -/
  goesOn : ∀ session e session', w.record.state = .rewriting session →
    (w.exec limits e).record.state = .rewriting session' →
    session'.next = session.next ∧ session'.stagedGeneration = session.stagedGeneration ∧
      (session'.holder = session.holder ∨
        ∃ call caller, e = .request call (.takeOverRewrite caller) ∧
          session'.holder = caller.key ∧ session.leaseExpiresAt ≤ call.now)
  /-- It ends by its holder's commit, or by an abort. -/
  ends : ∀ session e sealed, w.record.state = .rewriting session →
    (w.exec limits e).record.state = .settled sealed → ∃ call op, e = .request call op ∧
      ((∃ caller, op = .commitRewrite caller session.next.keyId ∧
          session.holder = caller.key) ∨
        op.Aborts (w.rules limits call) session)
  /-- What belongs to the rewrite is answered to the holder. -/
  answered : ∀ session call op caller a, w.record.state = .rewriting session →
    op.ofRewrite w.record call.now = some caller →
    (Engine.run w limits call op).1 = .ok a → caller.key = session.holder
  listed : ∀ session call caller ids, w.record.state = .rewriting session →
    (w.rules limits call).stagedItemIds caller = .ok ids → caller.key = session.holder
  shown : ∀ session call caller id item, w.record.state = .rewriting session →
    (w.rules limits call).stagedItem caller id = .ok item → caller.key = session.holder
  /-- Nobody else gets anywhere without a take-over. -/
  others : ∀ session key e, w.record.state = .rewriting session → key ≠ session.holder →
    e.sentBy key → ¬TakesOver limits w e →
    (w.exec limits e).record.state = w.record.state ∧
      (w.exec limits e).record.generation = w.record.generation ∧
      (w.exec limits e).shelf.generation session.stagedGeneration =
        w.shelf.generation session.stagedGeneration

variable {limits : Limits} {w w' : World} {e : Event} {session : Session}

/-- An open session that is open after an event was renewed, or left as it is. -/
theorem Step.goesOn (h : Step limits w e w') (hstate : w.record.state = .rewriting session)
    {session' : Session} (hstate' : w'.record.state = .rewriting session') :
    session' = session ∨ ∃ call op caller, e = .request call op ∧
      op.Renews (w.rules limits call) session caller ∧
      session' = { session with
        holder := caller.key
        leaseExpiresAt := wrappingAdd call.now limits.leaseSecs } := by
  have hsame : w.record.state = .rewriting session' → session' = session := by
    intro hs
    rw [hstate] at hs
    cases hs
    rfl
  cases h with
  | done _ hchange =>
    rcases hchange.openSession hstate with ⟨hsame', -⟩ | ⟨caller, hrenews, -, hnew⟩ |
      ⟨⟨sealed, hend⟩, -⟩
    · rw [hsame'] at hstate'
      cases hstate'
      exact .inl rfl
    · rw [hnew] at hstate'
      cases hstate'
      exact .inr ⟨_, _, caller, rfl, hrenews, rfl⟩
    · rw [hend] at hstate'
      cases hstate'
  | _ => exact .inl (hsame hstate')

/-- An open session that is not open after an event was committed, or aborted. -/
theorem Step.ends (h : Step limits w e w') (hstate : w.record.state = .rewriting session)
    {sealed : Option Seal} (hstate' : w'.record.state = .settled sealed) :
    ∃ call op, e = .request call op ∧
      ((∃ caller, op = .commitRewrite caller session.next.keyId ∧
          session.holder = caller.key) ∨
        op.Aborts (w.rules limits call) session) := by
  cases h with
  | done _ hchange =>
    rcases hchange.openSession hstate with ⟨hsame, -⟩ | ⟨caller, -, -, hnew⟩ | ⟨-, hend⟩
    · rw [hsame] at hstate'
      cases hstate'
    · rw [hnew] at hstate'
      cases hstate'
    · exact ⟨_, _, rfl, hend⟩
  | _ =>
    rw [show _ = State.rewriting session from hstate] at hstate'
    cases hstate'

/-- Nobody but the holder, and whoever takes over, changes an open session, its items or
what is current. -/
theorem Step.others (h : Step limits w e w') (hl : w.Laid)
    (hstate : w.record.state = .rewriting session) {key : ApiKeyId} (hkey : key ≠ session.holder)
    (hsent : e.sentBy key) (hnot : ¬TakesOver limits w e) :
    w'.record.state = w.record.state ∧ w'.record.generation = w.record.generation ∧
      w'.shelf.generation session.stagedGeneration =
        w.shelf.generation session.stagedGeneration := by
  have hcommit : ∀ {op : Op}, op.sentBy key → ∀ caller u, op = .commitUpload caller u →
      session.holder ≠ caller.key := by
    rintro op hop caller u rfl hholder
    exact hkey (hop.symm.trans hholder.symm)
  cases h with
  | @done call op a rec shelf after hanswer hchange =>
    have hstaged := hchange.shelfStep.keeps_staged hl.layout hstate (hcommit hsent)
    rcases hchange.openSession hstate with ⟨hsame, hgen⟩ | ⟨caller, hrenews, -⟩ |
      ⟨-, ⟨caller, rfl, hholder⟩ | haborts⟩
    · exact ⟨hsame.trans hstate.symm, hgen, hstaged⟩
    · cases op with
      | beginRewrite caller' request =>
        obtain ⟨rfl, hholder, -⟩ := hrenews
        exact absurd (hsent.symm.trans hholder.symm) hkey
      | heartbeatRewrite caller' =>
        obtain ⟨rfl, hholder⟩ := hrenews
        exact absurd (hsent.symm.trans hholder.symm) hkey
      | takeOverRewrite caller' => exact absurd ⟨call, caller', a, rfl, hanswer⟩ hnot
      | _ => cases hrenews
    · exact absurd (hsent.symm.trans hholder.symm) hkey
    · cases op with
      | abortRewrite caller keyId => exact absurd (hsent.symm.trans haborts.2.1.symm) hkey
      | operatorAbortRewrite force => cases hsent
      | _ => cases haborts
  | refused hshelf =>
    refine ⟨rfl, rfl, ?_⟩
    rcases hshelf with rfl | ⟨u, content, announced, hashed, rfl⟩
    · rfl
    · rw [MemoryShelf.write_generation]
  | cut hshelf => exact ⟨rfl, rfl, hshelf.keeps_staged hl.layout hstate (hcommit hsent)⟩
  | @performed i c hpending =>
    refine ⟨rfl, rfl, ?_⟩
    cases c with
    | dropGeneration g =>
      -- a pending drop is of a generation nothing points to
      have hdead := (hl.dropsDead g (List.mem_of_getElem? hpending)).1
      have hlive : session.stagedGeneration ∈ w.record.liveGenerations :=
        WorkspaceRecord.mem_liveGenerations.mpr
          (.inr (.inr (WorkspaceRecord.stagedGeneration_of_rewriting hstate)))
      show (w.shelf.dropGeneration g).generation session.stagedGeneration = _
      rw [MemoryShelf.dropGeneration_generation, if_neg]
      rintro rfl
      exact hdead hlive
    | removeStaging u => rfl
  | idle _ => exact ⟨rfl, rfl, rfl⟩
  | lost => exact ⟨rfl, rfl, rfl⟩
  | wroteLate => exact ⟨rfl, rfl, MemoryShelf.write_generation _ _ _ _ _ _⟩

omit [Crates] in
/-- The session of whoever may see staged items. -/
theorem held_of_ok {caller : Caller} {held : Session}
    (hheld : w.record.heldSession caller = .ok held)
    (hstate : w.record.state = .rewriting session) : caller.key = session.holder := by
  obtain ⟨hs, hholder⟩ := WorkspaceRecord.heldSession_ok hheld
  rw [hstate] at hs
  cases hs
  exact hholder.symm

/-- **One holder per rewrite**, after any run of any callers at any times. -/
theorem oneHolder_run (limits : Limits) (es : List Event) :
    OneHolder limits (initial.run limits es) where
  goesOn := by
    intro session e session' hstate hstate'
    rcases (exec_step limits _ e).goesOn hstate hstate' with
      rfl | ⟨call, op, caller, rfl, hrenews, rfl⟩
    · exact ⟨rfl, rfl, .inl rfl⟩
    · refine ⟨rfl, rfl, ?_⟩
      cases op with
      | beginRewrite caller' request =>
        obtain ⟨rfl, hholder, -⟩ := hrenews
        exact .inl hholder.symm
      | heartbeatRewrite caller' =>
        obtain ⟨rfl, hholder⟩ := hrenews
        exact .inl hholder.symm
      | takeOverRewrite caller' =>
        obtain ⟨rfl, hholder | hlease⟩ := hrenews
        · exact .inl hholder.symm
        · exact .inr ⟨call, caller', rfl, rfl, hlease⟩
      | _ => cases hrenews
  ends := fun session e sealed hstate hstate' =>
    (exec_step limits _ e).ends hstate hstate'
  answered := by
    intro session call op caller a hstate hcaller ha
    obtain ⟨rec, shelf, after, hchange, -⟩ := Engine.run_ok ha
    exact (hchange.ofRewrite hstate hcaller).symm
  listed := by
    intro session call caller ids hstate hok
    cases hheld : (initial.run limits es).record.heldSession caller with
    | error e =>
      change ((initial.run limits es).record.heldSession caller).map _ = _ at hok
      rw [hheld] at hok
      cases hok
    | ok held => exact held_of_ok hheld hstate
  shown := by
    intro session call caller id item hstate hok
    unfold Rules.stagedItem at hok
    split at hok
    · cases hok
    · rename_i held hheld
      exact held_of_ok hheld hstate
  others := fun session key e hstate hkey hsent hnot =>
    (exec_step limits _ e).others (laid_run laid_initial es) hstate hkey hsent hnot

end World

end Passalong
