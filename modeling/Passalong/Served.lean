import Passalong.Trait

/-!
# What the rules do to a shelf (`workspace.rs`, `rewrite.rs`, `upload.rs`)

The rules are programs over the calls of the trait. This file says what such a program does:

- `Op.program_served`: with the shelf in memory it does what the rule in `Rules` does, and
  answers the same;
- `Op.program_inRange`: its calls are in range, for a record whose numbers are;
- `Op.program_cut`: it changes the shelf by one call at most, unless it is a probe's, so when
  it is cut it leaves what a rule leaves that is cut.
-/

namespace Passalong

open Lib

namespace Work

open Shelves

/-! ### With the shelf in memory -/

section Served

variable [Crates] (w : Work) (s : MemoryShelf)

variable {w s} in
/-- A look at the shelf stops both, or neither. -/
theorem run_look_bind {α β : Type} {p : ShelfProgram α} {c : Except ApiError α}
    {f : α → ShelfProgram (β × Work)} {next : α → Except ApiError β × Rules}
    (hp : p.run MemoryShelf.serve s = (c, s))
    (h : ∀ a, c = .ok a → (f a).run MemoryShelf.serve s = Rules.served (next a)) :
    (p >>= f).run MemoryShelf.serve s = Rules.served ((w.on s).check c next) := by
  rw [Calls.run_bind, hp]
  cases c with
  | error e => rfl
  | ok a => exact h a rfl

variable {w s} in
/-- So does a check. -/
theorem run_check_bind {α β : Type} {c : Except ApiError α} {f : α → ShelfProgram (β × Work)}
    {next : α → Except ApiError β × Rules}
    (h : ∀ a, c = .ok a → (f a).run MemoryShelf.serve s = Rules.served (next a)) :
    (Calls.check c >>= f).run MemoryShelf.serve s = Rules.served ((w.on s).check c next) :=
  run_look_bind (Calls.run_check _ _ _) h

variable {w s} in
/-- A branch that both take. -/
theorem run_ite {α : Type} {c d : Prop} [Decidable c] [Decidable d]
    {p q : ShelfProgram (α × Work)} {x y : Except ApiError α × Rules} (hcd : c ↔ d)
    (hp : p.run MemoryShelf.serve s = Rules.served x)
    (hq : q.run MemoryShelf.serve s = Rules.served y) :
    (if c then p else q).run MemoryShelf.serve s = Rules.served (if d then x else y) := by
  by_cases hc : c
  · rw [if_pos hc, if_pos (hcd.mp hc), hp]
  · rw [if_neg hc, if_neg (fun hd => hc (hcd.mpr hd)), hq]

omit [Crates] in
theorem apart_renewLease (holder : ApiKeyId) :
    (w.apart (·.renewLease holder)).on s = (w.on s).renewLease holder := by
  unfold apart Rules.renewLease
  dsimp only [on]
  cases w.record.state <;> rfl

variable {w s} in
/-- A branch that only the rule has, and does not take. -/
theorem run_else {α : Type} {d : Prop} [Decidable d] {p : ShelfProgram (α × Work)}
    {x y : Except ApiError α × Rules} (hd : ¬ d)
    (hp : p.run MemoryShelf.serve s = Rules.served y) :
    p.run MemoryShelf.serve s = Rules.served (if d then x else y) := by
  rw [if_neg hd, hp]

variable {w s} in
/-- A branch that only the rule has, and takes. -/
theorem run_then {α : Type} {d : Prop} [Decidable d] {p : ShelfProgram (α × Work)}
    {x y : Except ApiError α × Rules} (hd : d)
    (hp : p.run MemoryShelf.serve s = Rules.served x) :
    p.run MemoryShelf.serve s = Rules.served (if d then x else y) := by
  rw [if_pos hd, hp]

theorem run_sessionView :
    w.sessionView.run MemoryShelf.serve s = (.ok (w.on s).sessionView, s) := by
  unfold sessionView Rules.sessionView
  dsimp only [on]
  cases w.record.state <;> rfl

theorem run_encryption :
    w.encryption.run MemoryShelf.serve s = (.ok (w.on s).encryption, s) := by
  unfold encryption
  rw [Calls.run_bind, run_sessionView]
  rfl

theorem run_answerEncryption :
    w.answerEncryption.run MemoryShelf.serve s =
      Rules.served (.ok (w.on s).encryption, w.on s) := by
  unfold answerEncryption
  rw [Calls.run_bind, run_encryption]
  rfl

theorem run_answerSession :
    w.answerSession.run MemoryShelf.serve s = Rules.served (w.on s).answerSession := by
  unfold answerSession Rules.answerSession
  rw [Calls.run_bind, run_sessionView]
  dsimp only [Calls.thread_ok]
  cases (w.on s).sessionView <;> rfl

/-! #### Items and encryption -/

theorem run_deleteItem (caller : Caller) (partition : Partition) (id : ItemId)
    (expected : Option KeyId) :
    (w.deleteItem caller partition id expected).run MemoryShelf.serve s =
      Rules.served ((w.on s).deleteItem caller partition id expected) := by
  unfold deleteItem Rules.deleteItem
  refine run_check_bind fun _ _ => run_check_bind fun _ _ => ?_
  dsimp only [on]
  cases w.record.generationOf partition with
  | none => rfl
  | some g =>
    rw [Calls.run_bind]
    show Calls.thread (.ok (s.remove g id).1, (s.remove g id).2) _ = _
    dsimp only [Calls.thread_ok]
    rcases s.remove g id with ⟨_ | item, shelf⟩ <;> rfl

theorem run_enableEncryption (caller : Caller) (keyId : KeyId) (header : Bytes) :
    (w.enableEncryption caller keyId header).run MemoryShelf.serve s =
      Rules.served ((w.on s).enableEncryption caller keyId header) := by
  unfold enableEncryption Rules.enableEncryption
  refine run_check_bind fun already _ => ?_
  refine run_ite Iff.rfl (run_answerEncryption w s) ?_
  rw [Calls.run_bind]
  exact run_ite Iff.rfl rfl (run_answerEncryption _ s)

theorem run_freshStart (caller : Caller) (keyId : KeyId) (header : Bytes) :
    (w.freshStart caller keyId header).run MemoryShelf.serve s =
      Rules.served ((w.on s).freshStart caller keyId header) := by
  unfold freshStart Rules.freshStart
  refine run_check_bind fun already _ => ?_
  exact run_ite Iff.rfl (run_answerEncryption w s) (run_answerEncryption _ s)

theorem run_replaceHeader (caller : Caller) (expected : KeyId) (header : Bytes) :
    (w.replaceHeader caller expected header).run MemoryShelf.serve s =
      Rules.served ((w.on s).replaceHeader caller expected header) := by
  unfold replaceHeader Rules.replaceHeader
  refine run_check_bind fun _ _ => ?_
  dsimp only [on]
  rcases w.record.state with (_ | sealed) | session
  · rfl
  · exact run_ite Iff.rfl rfl (run_answerEncryption _ s)
  · rfl

/-! #### Uploads -/

theorem run_findIn (g : Nat) (contentKey : Fin (2 ^ 48)) :
    (Shelves.findIn g contentKey).run MemoryShelf.serve s =
      (.ok (Passalong.findIn s g contentKey), s) := rfl

theorem run_beginUpload (caller : Caller) (request : UploadRequest) :
    (w.beginUpload caller request).run MemoryShelf.serve s =
      Rules.served ((w.on s).beginUpload caller request) := by
  unfold beginUpload Rules.beginUpload
  refine run_check_bind fun _ _ => run_check_bind fun g _ => ?_
  refine run_ite Iff.rfl rfl ?_
  rw [Calls.run_bind, run_findIn]
  dsimp only [Calls.thread_ok, on]
  cases Passalong.findIn s g request.id.contentKey with
  | some id => rfl
  | none =>
    dsimp only
    rcases w.record.liveTicketFor w.now caller request with _ | ⟨uploadId, ticket⟩
    · refine run_ite Iff.rfl rfl ?_
      rcases mint w.record.known w.draws with _ | ⟨uploadId, draws⟩ <;> rfl
    · rfl

theorem run_write (upload : UploadId) (content : Source) (announced : Nat) (hashed : Bool) :
    (write upload content announced hashed).run MemoryShelf.serve s =
      if hashed then s.stageWriteHashed upload content announced
      else s.stageWrite upload content announced := by
  cases hashed <;> exact Calls.run_ask _ _ _

theorem run_putUploadContent (caller : Caller) (upload : UploadId) (content : Source) :
    (w.putUploadContent caller upload content).run MemoryShelf.serve s =
      Rules.served ((w.on s).putUploadContent caller upload content) := by
  unfold putUploadContent Rules.putUploadContent
  dsimp only [on]
  cases w.record.tombstone w.now caller upload with
  | some stone => rfl
  | none =>
    cases w.record.liveTicket w.now caller upload with
    | none => rfl
    | some ticket =>
      dsimp only
      rw [Calls.run_bind, run_write]
      show Calls.thread (if (w.on s).checksContent ticket.request then _ else _) _ =
        Rules.served (Except.map _ (if (w.on s).checksContent ticket.request then _ else _ :
          Except ApiError Nat × MemoryShelf).1, { w.on s with
            shelf := (if (w.on s).checksContent ticket.request then _ else _ :
              Except ApiError Nat × MemoryShelf).2 })
      rcases (if (w.on s).checksContent ticket.request then
        s.stageWriteHashed upload content ticket.request.size
        else s.stageWrite upload content ticket.request.size) with ⟨_ | n, shelf⟩ <;> rfl

theorem run_checkPlaintext (upload : UploadId) (request : UploadRequest) :
    (checkPlaintext upload request).run MemoryShelf.serve s =
      ((w.on s).checkPlaintext upload request, s) := by
  unfold checkPlaintext Rules.checkPlaintext
  cases Crates.readMeta request.metaJson with
  | none => rfl
  | some fields =>
    dsimp only
    rw [Calls.run_bind]
    show Calls.thread (.ok (s.stageDigest upload), s) _ = _
    dsimp only [Calls.thread_ok, on]
    rcases s.stageDigest upload with _ | digest
    · rfl
    rcases fields.sha256 with _ | saidSha
    · rfl
    rcases fields.size with _ | saidSize
    · rfl
    dsimp only
    split_ifs <;> rfl

theorem run_publish (upload : UploadId) (g : Nat) (id : ItemId) (envelope : Envelope) :
    (publish upload g id envelope).run MemoryShelf.serve s = s.publish upload g id envelope :=
  Calls.run_ask _ _ _

theorem run_settleUpload (upload : UploadId) (ticket : Ticket) (g : Nat) :
    (w.settleUpload upload ticket g).run MemoryShelf.serve s =
      Rules.served ((w.on s).settleUpload upload ticket g) := by
  unfold settleUpload Rules.settleUpload
  rw [Calls.run_bind, run_findIn]
  dsimp only [Calls.thread_ok, on]
  cases Passalong.findIn s g ticket.request.id.contentKey with
  | some id => rfl
  | none =>
    dsimp only
    rw [Calls.run_bind, run_publish]
    show Calls.thread (s.publish upload g ticket.request.id
      ⟨ticket.request.metaJson, ticket.request.expectedKeyId, w.now⟩) _ = _
    rcases s.publish upload g ticket.request.id
      ⟨ticket.request.metaJson, ticket.request.expectedKeyId, w.now⟩ with ⟨_ | fresh, shelf⟩ <;> rfl

theorem run_commitUpload (caller : Caller) (upload : UploadId) :
    (w.commitUpload caller upload).run MemoryShelf.serve s =
      Rules.served ((w.on s).commitUpload caller upload) := by
  unfold commitUpload Rules.commitUpload
  dsimp only [on]
  cases w.record.tombstone w.now caller upload with
  | some stone => rfl
  | none =>
    cases w.record.liveTicket w.now caller upload with
    | none => rfl
    | some ticket =>
      dsimp only
      refine run_check_bind fun g _ => ?_
      rw [Calls.run_bind]
      show Calls.thread (.ok (s.stageSize upload), s) _ = _
      dsimp only [Calls.thread_ok]
      cases hsize : s.stageSize upload with
      | none =>
        dsimp only
        rw [Calls.run_bind]
        show Calls.thread (.ok (s.get g ticket.request.id), s) _ = _
        dsimp only [Calls.thread_ok]
        refine run_ite (and_iff_right rfl).symm rfl ?_
        exact run_then (Option.some_ne_none _).symm rfl
      | some size =>
        refine run_else (fun h => Option.some_ne_none _ h.1) ?_
        refine run_ite (not_congr Option.some_inj.symm) rfl ?_
        refine run_ite Iff.rfl ?_ (run_settleUpload w s upload ticket g)
        exact run_look_bind (run_checkPlaintext w s upload ticket.request) fun _ _ =>
          run_settleUpload w s upload ticket g

theorem run_abortUpload (caller : Caller) (upload : UploadId) :
    (w.abortUpload caller upload).run MemoryShelf.serve s =
      Rules.served ((w.on s).abortUpload caller upload) := rfl

theorem run_probeWrite (caller : Caller) :
    (w.probeWrite caller).run MemoryShelf.serve s =
      Rules.served ((w.on s).probeWrite caller) := by
  unfold probeWrite Rules.probeWrite
  refine run_check_bind fun _ _ => ?_
  dsimp only [on]
  cases w.draws <;> rfl

theorem run_cleanStaging :
    w.cleanStaging.run MemoryShelf.serve s = Rules.served (w.on s).cleanStaging := rfl

theorem run_recount (used : Map Nat Nat) (gs : List Nat) :
    (recount used gs).run MemoryShelf.serve s =
      (.ok (gs.foldl (fun used g => used.insert g (s.bytes g)) used), s) := by
  induction gs generalizing used with
  | nil => rfl
  | cons g gs ih =>
    unfold recount
    rw [Calls.run_bind]
    exact ih _

theorem run_reconcile :
    w.reconcile.run MemoryShelf.serve s = Rules.served (w.on s).reconcile := by
  unfold reconcile
  rw [Calls.run_bind, run_recount]
  rfl

/-! #### The rewrite session -/

theorem run_beginRewrite (caller : Caller) (request : RewriteRequest) :
    (w.beginRewrite caller request).run MemoryShelf.serve s =
      Rules.served ((w.on s).beginRewrite caller request) := by
  unfold beginRewrite Rules.beginRewrite
  refine run_check_bind fun _ _ => ?_
  dsimp only [on]
  rcases hstate : w.record.state with prior | session
  · dsimp only
    rcases request.kind with _ | _ <;> rcases prior with _ | sealed <;> dsimp only
    · refine run_ite Iff.rfl rfl (run_ite Iff.rfl rfl (run_ite Iff.rfl rfl ?_))
      exact run_answerSession _ s
    · rfl
    · rfl
    · refine run_ite Iff.rfl rfl (run_ite Iff.rfl rfl (run_ite Iff.rfl rfl ?_))
      exact run_answerSession _ s
  · refine run_ite Iff.rfl ?_ rfl
    rw [run_answerSession, apart_renewLease]
    rfl

theorem run_heartbeatRewrite (caller : Caller) :
    (w.heartbeatRewrite caller).run MemoryShelf.serve s =
      Rules.served ((w.on s).heartbeatRewrite caller) := by
  unfold heartbeatRewrite Rules.heartbeatRewrite
  refine run_check_bind fun _ _ => run_check_bind fun _ _ => ?_
  rw [run_answerSession, apart_renewLease]

theorem run_takeOverRewrite (caller : Caller) :
    (w.takeOverRewrite caller).run MemoryShelf.serve s =
      Rules.served ((w.on s).takeOverRewrite caller) := by
  unfold takeOverRewrite Rules.takeOverRewrite
  refine run_check_bind fun _ _ => ?_
  dsimp only [on]
  rcases w.record.state with prior | session
  · rfl
  · refine run_ite Iff.rfl rfl ?_
    rw [run_answerSession, apart_renewLease]
    rfl

theorem run_endAborted (session : Session) :
    (w.endAborted session).run MemoryShelf.serve s =
      Rules.served ((w.on s).endAborted session) :=
  run_answerEncryption _ s

theorem run_commitRewrite (caller : Caller) (newKeyId : KeyId) :
    (w.commitRewrite caller newKeyId).run MemoryShelf.serve s =
      Rules.served ((w.on s).commitRewrite caller newKeyId) := by
  unfold commitRewrite Rules.commitRewrite
  refine run_check_bind fun _ _ => ?_
  dsimp only [on]
  rcases w.record.state with prior | session
  · exact run_ite Iff.rfl (run_answerEncryption w s) rfl
  · refine run_check_bind fun session _ => ?_
    refine run_ite Iff.rfl rfl ?_
    rw [Calls.run_bind]
    exact run_ite Iff.rfl rfl (run_answerEncryption _ s)

theorem run_abortRewrite (caller : Caller) (newKeyId : KeyId) :
    (w.abortRewrite caller newKeyId).run MemoryShelf.serve s =
      Rules.served ((w.on s).abortRewrite caller newKeyId) := by
  unfold abortRewrite Rules.abortRewrite
  refine run_check_bind fun _ _ => ?_
  dsimp only [on]
  rcases w.record.state with prior | session
  · exact run_answerEncryption w s
  · refine run_check_bind fun session _ => ?_
    exact run_ite Iff.rfl rfl (run_endAborted w s session)

theorem run_operatorAbortRewrite (force : Bool) :
    (w.operatorAbortRewrite force).run MemoryShelf.serve s =
      Rules.served ((w.on s).operatorAbortRewrite force) := by
  unfold operatorAbortRewrite Rules.operatorAbortRewrite
  dsimp only [on]
  rcases w.record.state with prior | session
  · rfl
  · exact run_ite Iff.rfl rfl (run_endAborted w s session)

end Served

/-! ### What the programs ask of a shelf -/

/-- A call that only looks. -/
def Looks : ShelfCall → Prop
  | .stageDigest _ | .stageSize _ | .staged | .get .. | .ids _ | .generations | .bytes _ => True
  | _ => False

theorem Looks.inRange {call : ShelfCall} (h : Looks call) : call.InRange := by
  cases call <;> first | exact h.elim | exact trivial

theorem Looks.quiet [Crates] {call : ShelfCall} (h : Looks call) (s : MemoryShelf) :
    (MemoryShelf.serve call s).2 = s := by
  cases call <;> first | exact h.elim | rfl

section Looks

variable (w : Work)

theorem looks_sessionView : w.sessionView.All Looks := by
  unfold sessionView
  cases w.record.state with
  | settled sealed => exact Calls.all_pure _
  | rewriting session =>
    exact (Calls.all_ask trivial).bind fun _ => (Calls.all_ask trivial).bind fun _ =>
      Calls.all_pure _

theorem looks_answerEncryption : w.answerEncryption.All Looks :=
  ((looks_sessionView w).bind fun _ => Calls.all_pure _).bind fun _ => Calls.all_pure _

theorem looks_answerSession : w.answerSession.All Looks := by
  refine (looks_sessionView w).bind fun view => ?_
  cases view with
  | none => exact Calls.all_stop _
  | some view => exact Calls.all_pure _

theorem looks_enableEncryption (caller : Caller) (keyId : KeyId) (header : Bytes) :
    (w.enableEncryption caller keyId header).All Looks := by
  refine Calls.All.check_bind fun already _ => Calls.all_ite (looks_answerEncryption w) ?_
  exact (Calls.all_ask trivial).bind fun here =>
    Calls.all_ite (Calls.all_stop _) (looks_answerEncryption _)

theorem looks_freshStart (caller : Caller) (keyId : KeyId) (header : Bytes) :
    (w.freshStart caller keyId header).All Looks := by
  refine Calls.All.check_bind fun already _ => Calls.all_ite (looks_answerEncryption w) ?_
  exact (Calls.all_ask trivial).bind fun here => looks_answerEncryption _

theorem looks_replaceHeader (caller : Caller) (expected : KeyId) (header : Bytes) :
    (w.replaceHeader caller expected header).All Looks := by
  refine Calls.All.check_bind fun _ _ => ?_
  rcases w.record.state with (_ | sealed) | session
  · exact Calls.all_stop _
  · exact Calls.all_ite (Calls.all_stop _) (looks_answerEncryption _)
  · exact Calls.all_stop _

theorem looks_findIn (g : Nat) (contentKey : Fin (2 ^ 48)) :
    (Shelves.findIn g contentKey).All Looks :=
  (Calls.all_ask trivial).bind fun _ => Calls.all_pure _

theorem looks_checkPlaintext [Crates] (upload : UploadId) (request : UploadRequest) :
    (checkPlaintext upload request).All Looks := by
  unfold checkPlaintext
  cases Crates.readMeta request.metaJson with
  | none => exact Calls.all_stop _
  | some fields =>
    refine Calls.All.bind (Calls.all_ask trivial) fun digest => ?_
    split
    · exact Calls.all_ite (Calls.all_pure _) (Calls.all_stop _)
    · exact Calls.all_stop _

theorem looks_cleanStaging : w.cleanStaging.All Looks :=
  (Calls.all_ask trivial).bind fun _ => (Calls.all_ask trivial).bind fun _ => Calls.all_pure _

theorem looks_recount (used : Map Nat Nat) (gs : List Nat) : (recount used gs).All Looks := by
  induction gs generalizing used with
  | nil => exact Calls.all_pure _
  | cons g gs ih => exact (Calls.all_ask trivial).bind fun _ => ih _

theorem looks_reconcile : w.reconcile.All Looks :=
  (looks_recount _ _).bind fun _ => (looks_cleanStaging _).bind fun _ => Calls.all_pure _

theorem looks_beginRewrite (caller : Caller) (request : RewriteRequest) :
    (w.beginRewrite caller request).All Looks := by
  refine Calls.All.check_bind fun _ _ => ?_
  rcases w.record.state with prior | session
  · rcases request.kind with _ | _ <;> rcases prior with _ | sealed
    · exact Calls.all_ite (Calls.all_stop _) (Calls.all_ite (Calls.all_stop _)
        (Calls.all_ite (Calls.all_stop _) (looks_answerSession _)))
    · exact Calls.all_stop _
    · exact Calls.all_stop _
    · exact Calls.all_ite (Calls.all_stop _) (Calls.all_ite (Calls.all_stop _)
        (Calls.all_ite (Calls.all_stop _) (looks_answerSession _)))
  · exact Calls.all_ite (looks_answerSession _) (Calls.all_stop _)

theorem looks_heartbeatRewrite (caller : Caller) : (w.heartbeatRewrite caller).All Looks :=
  Calls.All.check_bind fun _ _ => Calls.All.check_bind fun _ _ => looks_answerSession _

theorem looks_takeOverRewrite (caller : Caller) : (w.takeOverRewrite caller).All Looks := by
  refine Calls.All.check_bind fun _ _ => ?_
  rcases w.record.state with prior | session
  · exact Calls.all_stop _
  · exact Calls.all_ite (Calls.all_stop _) (looks_answerSession _)

theorem looks_endAborted (session : Session) : (w.endAborted session).All Looks :=
  looks_answerEncryption _

theorem looks_commitRewrite (caller : Caller) (newKeyId : KeyId) :
    (w.commitRewrite caller newKeyId).All Looks := by
  refine Calls.All.check_bind fun _ _ => ?_
  rcases w.record.state with prior | session
  · exact Calls.all_ite (looks_answerEncryption w) (Calls.all_stop _)
  · refine Calls.All.check_bind fun session _ => Calls.all_ite (Calls.all_stop _) ?_
    exact (Calls.all_ask trivial).bind fun _ => (Calls.all_ask trivial).bind fun _ =>
      Calls.all_ite (Calls.all_stop _) (looks_answerEncryption _)

theorem looks_abortRewrite (caller : Caller) (newKeyId : KeyId) :
    (w.abortRewrite caller newKeyId).All Looks := by
  refine Calls.All.check_bind fun _ _ => ?_
  rcases w.record.state with prior | session
  · exact looks_answerEncryption w
  · exact Calls.All.check_bind fun session _ =>
      Calls.all_ite (Calls.all_stop _) (looks_endAborted _ _)

theorem looks_operatorAbortRewrite (force : Bool) :
    (w.operatorAbortRewrite force).All Looks := by
  unfold operatorAbortRewrite
  rcases w.record.state with prior | session
  · exact Calls.all_stop _
  · exact Calls.all_ite (Calls.all_stop _) (looks_endAborted _ _)

end Looks

end Work

section
variable [Crates]

theorem Work.run_answering {α : Type} {f : α → Answer} {p : ShelfProgram (α × Work)}
    {s : MemoryShelf} {out : Except ApiError α × Rules}
    (h : p.run MemoryShelf.serve s = Rules.served out) :
    (answering f p).run MemoryShelf.serve s = Rules.served (Passalong.answering f out) := by
  unfold answering
  rw [Calls.run_bind, h]
  rcases out with ⟨_ | a, r⟩ <;> rfl

/-- **With the shelf in memory a program does what the rule does**, and answers the same. -/
theorem Op.program_served (op : Op) (w : Work) (s : MemoryShelf) :
    (op.program w).run MemoryShelf.serve s = Rules.served (op.rule (w.on s)) := by
  cases op with
  | deleteItem caller partition id expected =>
    exact Work.run_answering (w.run_deleteItem s caller partition id expected)
  | enableEncryption caller keyId header =>
    exact Work.run_answering (w.run_enableEncryption s caller keyId header)
  | freshStart caller keyId header =>
    exact Work.run_answering (w.run_freshStart s caller keyId header)
  | replaceHeader caller expected header =>
    exact Work.run_answering (w.run_replaceHeader s caller expected header)
  | beginUpload caller request => exact Work.run_answering (w.run_beginUpload s caller request)
  | putUploadContent caller upload content =>
    exact Work.run_answering (f := fun _ => .done) (w.run_putUploadContent s caller upload content)
  | commitUpload caller upload => exact Work.run_answering (w.run_commitUpload s caller upload)
  | abortUpload caller upload =>
    exact Work.run_answering (f := fun _ => .done) (w.run_abortUpload s caller upload)
  | probeWrite caller => exact Work.run_answering (f := fun _ => .done) (w.run_probeWrite s caller)
  | beginRewrite caller request => exact Work.run_answering (w.run_beginRewrite s caller request)
  | heartbeatRewrite caller => exact Work.run_answering (w.run_heartbeatRewrite s caller)
  | takeOverRewrite caller => exact Work.run_answering (w.run_takeOverRewrite s caller)
  | commitRewrite caller newKeyId =>
    exact Work.run_answering (w.run_commitRewrite s caller newKeyId)
  | abortRewrite caller newKeyId => exact Work.run_answering (w.run_abortRewrite s caller newKeyId)
  | operatorAbortRewrite force => exact Work.run_answering (w.run_operatorAbortRewrite s force)
  | cleanStaging => exact Work.run_answering (w.run_cleanStaging s)
  | reconcile => exact Work.run_answering (f := fun _ => .done) (w.run_reconcile s)

/-! ### Every call is in range -/

/-- The numbers a rule hands to the shelf. -/
structure Work.InRange (w : Work) : Prop where
  now : w.now < u64Bound
  live : ∀ g ∈ w.record.liveGenerations, g < u64Bound

namespace Work

variable {w : Work}

omit [Crates] in
theorem InRange.target (h : w.InRange) {caller : Caller} {request : UploadRequest} {g : Nat}
    (hg : w.record.uploadTarget caller request = .ok g) : g < u64Bound :=
  h.live g (WorkspaceRecord.uploadTarget_ok hg).live

omit [Crates] in
theorem looks_inRange {α : Type} {p : ShelfProgram α} (h : p.All Looks) :
    p.All ShelfCall.InRange :=
  h.mono fun _ => Looks.inRange

omit [Crates] in
theorem inRange_deleteItem (w : Work) (caller : Caller) (partition : Partition) (id : ItemId)
    (expected : Option KeyId) :
    (w.deleteItem caller partition id expected).All ShelfCall.InRange := by
  refine Calls.All.check_bind fun _ _ => Calls.All.check_bind fun _ _ => ?_
  cases w.record.generationOf partition with
  | none => exact Calls.all_stop _
  | some g =>
    refine (Calls.all_ask trivial).bind fun item => ?_
    cases item with
    | none => exact Calls.all_stop _
    | some item => exact Calls.all_pure _

omit [Crates] in
theorem inRange_beginUpload (w : Work) (caller : Caller) (request : UploadRequest) :
    (w.beginUpload caller request).All ShelfCall.InRange := by
  refine Calls.All.check_bind fun _ _ => Calls.All.check_bind fun g _ => ?_
  refine Calls.all_ite (Calls.all_stop _) ?_
  refine (looks_inRange (looks_findIn _ _)).bind fun found => ?_
  cases found with
  | some id => exact Calls.all_pure _
  | none =>
    dsimp only
    cases w.record.liveTicketFor w.now caller request with
    | some live => exact (Calls.all_ask trivial).bind fun _ => Calls.all_pure _
    | none =>
      refine Calls.all_ite (Calls.all_stop _) ?_
      cases mint w.record.known w.draws with
      | none => exact Calls.all_stop _
      | some minted => exact (Calls.all_ask trivial).bind fun _ => Calls.all_pure _

omit [Crates] in
theorem inRange_write (upload : UploadId) (content : Source) (announced : Nat) (hashed : Bool) :
    (Shelves.write upload content announced hashed).All ShelfCall.InRange := by
  cases hashed <;> exact Calls.all_ask trivial

omit [Crates] in
theorem inRange_putUploadContent (w : Work) (caller : Caller) (upload : UploadId)
    (content : Source) : (w.putUploadContent caller upload content).All ShelfCall.InRange := by
  unfold putUploadContent
  cases w.record.tombstone w.now caller upload with
  | some stone => exact Calls.all_pure _
  | none =>
    cases w.record.liveTicket w.now caller upload with
    | none => exact Calls.all_stop _
    | some ticket => exact (inRange_write _ _ _ _).bind fun _ => Calls.all_pure _

omit [Crates] in
theorem inRange_settleUpload (h : w.InRange) (upload : UploadId) (ticket : Ticket) {g : Nat}
    (hg : g < u64Bound) : (w.settleUpload upload ticket g).All ShelfCall.InRange := by
  refine (looks_inRange (looks_findIn _ _)).bind fun found => ?_
  cases found with
  | some id => exact Calls.all_pure _
  | none => exact (Calls.all_ask ⟨hg, h.now⟩).bind fun _ => Calls.all_pure _

theorem inRange_commitUpload (h : w.InRange) (caller : Caller) (upload : UploadId) :
    (w.commitUpload caller upload).All ShelfCall.InRange := by
  unfold commitUpload
  cases w.record.tombstone w.now caller upload with
  | some stone => exact Calls.all_pure _
  | none =>
    cases w.record.liveTicket w.now caller upload with
    | none => exact Calls.all_stop _
    | some ticket =>
      refine Calls.All.check_bind fun g hg => ?_
      have hsettle := inRange_settleUpload h upload ticket (h.target hg)
      refine (Calls.all_ask trivial).bind fun size => ?_
      cases size with
      | none =>
        refine (Calls.all_ask trivial).bind fun published => ?_
        exact Calls.all_ite ((Calls.all_ask trivial).bind fun _ => Calls.all_pure _)
          (Calls.all_stop _)
      | some size =>
        refine Calls.all_ite (Calls.all_stop _) (Calls.all_ite ?_ hsettle)
        exact (looks_inRange (looks_checkPlaintext _ _)).bind fun _ => hsettle

omit [Crates] in
theorem inRange_probeWrite (w : Work) (caller : Caller) :
    (w.probeWrite caller).All ShelfCall.InRange := by
  refine Calls.All.check_bind fun _ _ => ?_
  cases w.draws with
  | nil => exact Calls.all_stop _
  | cons probe draws =>
    exact (Calls.all_ask trivial).bind fun _ => (Calls.all_ask trivial).bind fun _ =>
      Calls.all_pure _

omit [Crates] in
theorem all_answering {α : Type} {P : ShelfCall → Prop} {f : α → Answer}
    {p : ShelfProgram (α × Work)} (h : p.All P) : (answering f p).All P :=
  h.bind fun _ => Calls.all_pure _

end Work

/-- Which operations only look at the shelf. -/
def Op.looks : Op → Bool
  | .deleteItem .. | .beginUpload .. | .putUploadContent .. | .commitUpload .. | .probeWrite _ =>
    false
  | _ => true

theorem Op.program_looks {op : Op} (h : op.looks = true) (w : Work) :
    (op.program w).All Work.Looks := by
  cases op with
  | enableEncryption => exact Work.all_answering (w.looks_enableEncryption _ _ _)
  | freshStart => exact Work.all_answering (w.looks_freshStart _ _ _)
  | replaceHeader => exact Work.all_answering (w.looks_replaceHeader _ _ _)
  | abortUpload => exact Calls.all_pure _
  | beginRewrite => exact Work.all_answering (w.looks_beginRewrite _ _)
  | heartbeatRewrite => exact Work.all_answering (w.looks_heartbeatRewrite _)
  | takeOverRewrite => exact Work.all_answering (w.looks_takeOverRewrite _)
  | commitRewrite => exact Work.all_answering (w.looks_commitRewrite _ _)
  | abortRewrite => exact Work.all_answering (w.looks_abortRewrite _ _)
  | operatorAbortRewrite => exact Work.all_answering (w.looks_operatorAbortRewrite _)
  | cleanStaging => exact Work.all_answering w.looks_cleanStaging
  | reconcile => exact Work.all_answering (f := fun _ => .done) w.looks_reconcile
  | _ => cases h

/-- **The calls of a program are in range**, where the clock and the record's live
generations are. -/
theorem Op.program_inRange (op : Op) {w : Work} (h : w.InRange) :
    (op.program w).All ShelfCall.InRange := by
  by_cases hlooks : op.looks = true
  · exact Work.looks_inRange (Op.program_looks hlooks w)
  · cases op with
    | deleteItem => exact Work.all_answering (w.inRange_deleteItem _ _ _ _)
    | beginUpload => exact Work.all_answering (w.inRange_beginUpload _ _)
    | putUploadContent =>
      exact Work.all_answering (f := fun _ => .done) (w.inRange_putUploadContent _ _ _)
    | commitUpload => exact Work.all_answering (Work.inRange_commitUpload h _ _)
    | probeWrite => exact Work.all_answering (f := fun _ => .done) (w.inRange_probeWrite _)
    | _ => exact absurd rfl hlooks

/-! ### Cuts -/

namespace Work

theorem looks_quiet {α : Type} {p : ShelfProgram α} (h : p.All Looks) :
    p.Quiet MemoryShelf.serve :=
  h.mono fun _ hq s => hq.quiet s

theorem single_deleteItem (w : Work) (caller : Caller) (partition : Partition) (id : ItemId)
    (expected : Option KeyId) :
    (w.deleteItem caller partition id expected).Single MemoryShelf.serve := by
  refine Calls.single_check_bind fun _ => Calls.single_check_bind fun _ => ?_
  cases w.record.generationOf partition with
  | none => exact trivial
  | some g =>
    refine (Calls.single_ask _).before fun item => ?_
    cases item <;> exact trivial

theorem single_beginUpload (w : Work) (caller : Caller) (request : UploadRequest) :
    (w.beginUpload caller request).Single MemoryShelf.serve := by
  refine Calls.single_check_bind fun _ => Calls.single_check_bind fun g => ?_
  refine Calls.single_ite trivial ?_
  refine Calls.Single.after (looks_quiet (looks_findIn _ _)) fun found => ?_
  cases found with
  | some id => exact trivial
  | none =>
    dsimp only
    cases w.record.liveTicketFor w.now caller request with
    | some live => exact (Calls.single_ask _).before fun _ => Calls.all_pure _
    | none =>
      refine Calls.single_ite trivial ?_
      cases mint w.record.known w.draws with
      | none => exact trivial
      | some minted => exact (Calls.single_ask _).before fun _ => Calls.all_pure _

theorem single_putUploadContent (w : Work) (caller : Caller) (upload : UploadId)
    (content : Source) :
    (w.putUploadContent caller upload content).Single MemoryShelf.serve := by
  unfold putUploadContent
  cases w.record.tombstone w.now caller upload with
  | some stone => exact trivial
  | none =>
    cases w.record.liveTicket w.now caller upload with
    | none => exact trivial
    | some ticket =>
      refine Calls.Single.before ?_ fun _ => Calls.all_pure _
      cases (w.on .empty).checksContent ticket.request <;> exact Calls.single_ask _

theorem single_settleUpload (w : Work) (upload : UploadId) (ticket : Ticket) (g : Nat) :
    (w.settleUpload upload ticket g).Single MemoryShelf.serve := by
  refine Calls.Single.after (looks_quiet (looks_findIn _ _)) fun found => ?_
  cases found with
  | some id => exact trivial
  | none => exact (Calls.single_ask _).before fun _ => Calls.all_pure _

theorem single_commitUpload (w : Work) (caller : Caller) (upload : UploadId) :
    (w.commitUpload caller upload).Single MemoryShelf.serve := by
  unfold commitUpload
  cases w.record.tombstone w.now caller upload with
  | some stone => exact trivial
  | none =>
    cases w.record.liveTicket w.now caller upload with
    | none => exact trivial
    | some ticket =>
      refine Calls.single_check_bind fun g => ?_
      refine Calls.Single.after (looks_quiet (Calls.all_ask trivial)) fun size => ?_
      have hsettle := w.single_settleUpload upload ticket g
      cases size with
      | none =>
        refine (looks_quiet ?_).single
        refine Calls.All.bind (Calls.all_ask trivial) fun published => ?_
        exact Calls.all_ite ((Calls.all_ask trivial).bind fun _ => Calls.all_pure _)
          (Calls.all_stop _)
      | some size =>
        refine Calls.single_ite trivial (Calls.single_ite ?_ hsettle)
        exact Calls.Single.after (looks_quiet (looks_checkPlaintext _ _)) fun _ => hsettle

theorem single_answering {α : Type} {f : α → Answer} {p : ShelfProgram (α × Work)}
    (h : p.Single MemoryShelf.serve) : (answering f p).Single MemoryShelf.serve :=
  h.before fun _ => Calls.all_pure _

end Work

/-- A program changes the shelf once at most, unless it is a probe's. -/
theorem Op.program_single {op : Op} (hprobe : ∀ caller, op ≠ .probeWrite caller) (w : Work) :
    (op.program w).Single MemoryShelf.serve := by
  by_cases hlooks : op.looks = true
  · exact (Work.looks_quiet (Op.program_looks hlooks w)).single
  · cases op with
    | deleteItem => exact Work.single_answering (w.single_deleteItem _ _ _ _)
    | beginUpload => exact Work.single_answering (w.single_beginUpload _ _)
    | putUploadContent =>
      exact Work.single_answering (f := fun _ => .done) (w.single_putUploadContent _ _ _)
    | commitUpload => exact Work.single_answering (w.single_commitUpload _ _)
    | probeWrite caller => exact absurd rfl (hprobe caller)
    | _ => exact absurd rfl hlooks

/-- A probe that is cut has made its staging place, or removed it again, or neither. -/
theorem Work.cut_probeWrite (w : Work) (caller : Caller) (k : Nat) (s : MemoryShelf) :
    (∃ steps, ((Op.probeWrite caller).program w).cut MemoryShelf.serve k s =
      (Op.probeWrite caller).cutShelf (w.on s) steps) ∨
    ((Op.probeWrite caller).program w).cut MemoryShelf.serve k s =
      ((Op.probeWrite caller).rule (w.on s)).2.shelf := by
  dsimp only [Op.program, Op.rule, Passalong.answering]
  unfold probeWrite Rules.probeWrite Rules.check
  have hsame : (w.on s).probeAllowed caller = (w.on .empty).probeAllowed caller := rfl
  rw [hsame]
  cases hallowed : (w.on .empty).probeAllowed caller with
  | error e => exact .inl ⟨0, rfl⟩
  | ok a =>
    have hdraws : (w.on s).draws = w.draws := rfl
    rw [hdraws]
    cases hcase : w.draws with
    | nil => exact .inl ⟨0, rfl⟩
    | cons probe draws =>
      rcases k with _ | _ | k
      · exact .inl ⟨0, rfl⟩
      · refine .inl ⟨1, ?_⟩
        simp only [Op.cutShelf, hdraws, hcase, hsame, hallowed]
        rfl
      · exact .inr rfl

/-- **A program that is cut leaves what its rule leaves that is cut.** One that edits no
record may also have come to its end. -/
theorem Op.program_cut (op : Op) (w : Work) (k : Nat) (s : MemoryShelf) :
    (∃ steps, (op.program w).cut MemoryShelf.serve k s = op.cutShelf (w.on s) steps) ∨
    (op.readsOnly = true ∧
      (op.program w).cut MemoryShelf.serve k s = (op.rule (w.on s)).2.shelf) := by
  by_cases hprobe : ∃ caller, op = .probeWrite caller
  · obtain ⟨caller, rfl⟩ := hprobe
    exact (w.cut_probeWrite caller k s).imp_right fun h => ⟨rfl, h⟩
  have hcut : ∀ steps, op.cutShelf (w.on s) steps =
      if steps = 0 then s else (op.rule (w.on s)).2.shelf := by
    cases op with
    | probeWrite caller => exact absurd ⟨caller, rfl⟩ hprobe
    | _ => exact fun _ => rfl
  have hserved : ((op.program w).run MemoryShelf.serve s).2 = (op.rule (w.on s)).2.shelf := by
    rw [Op.program_served]
    rcases op.rule (w.on s) with ⟨_ | a, r⟩ <;> rfl
  rcases Calls.Single.cut (Op.program_single (fun caller h => hprobe ⟨caller, h⟩) w) k s with
    hnone | hall
  · exact .inl ⟨0, by rw [hnone, hcut, if_pos rfl]⟩
  · exact .inl ⟨1, by rw [hall, hserved, hcut, if_neg Nat.one_ne_zero]⟩

end

end Passalong
