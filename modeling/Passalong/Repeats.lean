import Passalong.Alike
import Passalong.Outcomes

/-!
# Crash and repeat is doing it once

A process that stops at work on a request leaves one of three things (`Stop`): nothing
of it, its step on the shelf without the record, or the record without some of its
clean-ups. The same caller then sends the same request again, perhaps after the
workspace was opened in between.

Each request has its own way to recognise what it did before: the live ticket, the item
on the shelf without a staging place, the remembered outcome, the key id of the seal or
of the session. `World.repeats_run`: they all end where the request would have ended,
provided that the deadline of what the request remembers is not past the last second a
`u64` counts.

- `*_again`: a request repeated on what it left itself;
- `Alike`: what a crash and an opening take away is nothing the request can see.
-/

namespace Passalong

open Lib

/-! ## Stopping and trying again -/

/-- Where a process stops at work on a request. -/
inductive Stop where
  /-- Before the rule's step on the shelf. -/
  | before
  /-- After it, and before the record is stored. -/
  | unstored
  /-- After the record is stored, and so many of the clean-ups performed. -/
  | stored (performed : Nat)
  deriving DecidableEq, Repr

/-- The requests a client sends again when it got no answer. -/
def Op.resent : Op → Bool
  | .beginUpload .. | .commitUpload .. | .abortUpload .. | .enableEncryption .. | .freshStart ..
  | .replaceHeader .. | .beginRewrite .. | .heartbeatRewrite .. | .takeOverRewrite ..
  | .commitRewrite .. | .abortRewrite .. => true
  | _ => false

/-- Whether a request remembers something until a deadline: a begin that makes up an
upload id, and a commit that finishes its upload. -/
def Op.dated (r : Rules) : Op → Bool
  | .beginUpload caller request =>
    (match r.record.uploadTarget caller request with
      | .ok g => (findIn r.shelf g request.id.contentKey).isNone
      | .error _ => false) &&
      (r.record.liveTicketFor r.now caller request).isNone
  | .commitUpload caller upload => (r.record.tombstone r.now caller upload).isNone
  | _ => false

/-- An answer and a record, up to the upload id that a request made up of which nothing
was stored. -/
inductive UpToMinted (now : Nat) (stop : Stop) (minted : List UploadId) (a : Answer)
    (rec : WorkspaceRecord) : Answer → WorkspaceRecord → Prop
  | same : UpToMinted now stop minted a rec a rec
  | renamed {u v : UploadId} {ticket : Ticket} (hstop : ∀ n, stop ≠ .stored n)
      (hminted : minted = [u]) (hanswer : a = .begun (.ticket ⟨u, ticket.expiresAt⟩))
      (hticket : rec.tickets[u]? = some ticket)
      (hfresh : ∀ old : Ticket, (rec.tickets.erase u)[v]? = some old → old.expiresAt ≤ now) :
      UpToMinted now stop minted a rec (.begun (.ticket ⟨v, ticket.expiresAt⟩))
        { rec with tickets := (rec.tickets.erase u).insert v ticket }

/-- A ticket under an id that no live ticket had is the same but for the id. -/
theorem UpToMinted.of_fresh {now : Nat} {stop : Stop} {rec : WorkspaceRecord} {u v : UploadId}
    {ticket : Ticket} (hstop : ∀ n, stop ≠ .stored n) (hu : rec.tickets[u]? = none)
    (hfresh : ∀ old : Ticket, rec.tickets[v]? = some old → old.expiresAt ≤ now) :
    UpToMinted now stop [u] (.begun (.ticket ⟨u, ticket.expiresAt⟩))
      { rec with tickets := rec.tickets.insert u ticket }
      (.begun (.ticket ⟨v, ticket.expiresAt⟩))
      { rec with tickets := rec.tickets.insert v ticket } := by
  have hback : (rec.tickets.insert u ticket).erase u = rec.tickets := Map.erase_insert hu
  have hget : (rec.tickets.insert u ticket)[u]? = some ticket := Map.get_insert_self _ _ _
  have hrename := @UpToMinted.renamed now stop [u] (.begun (.ticket ⟨u, ticket.expiresAt⟩))
    { rec with tickets := rec.tickets.insert u ticket } u v ticket hstop rfl rfl hget
  rw [hback] at hrename
  exact hrename hfresh

section
variable [Crates]

namespace World

/-- What a process that stops at work on a request leaves. The clean-ups it still owed
are lost with it. -/
def stopped (limits : Limits) (w : World) (call : Call) (op : Op) : Stop → World
  | .before => ⟨w.record, op.cutShelf (w.rules limits call) 0, []⟩
  | .unstored => ⟨w.record, op.cutShelf (w.rules limits call) 1, []⟩
  | .stored performed =>
    let r := (op.rule (w.rules limits call)).2
    ⟨r.record, sweep r.shelf (r.after.take performed), []⟩

/-- The same request, at the same time, on what the process left, or on what an opening
made of that. -/
def retried (limits : Limits) (w : World) (call : Call) (op : Op) (stop : Stop)
    (reopened : Bool) (draws : List UploadId) : Except ApiError Answer × World :=
  let left := w.stopped limits call op stop
  Engine.run (if reopened then left.reopen limits call.now else left) limits { call with draws } op

/-- The request sent again is answered as it would have been, and leaves the same record
and the same items: the very record, or after an opening the record up to what that
sweeps. -/
def RepeatsAt (limits : Limits) (w : World) (call : Call) (op : Op) (stop : Stop)
    (reopened : Bool) (draws : List UploadId) : Prop :=
  ∃ a a' rec, (Engine.run w limits call op).1 = .ok a ∧
    (w.retried limits call op stop reopened draws).1 = .ok a' ∧
    UpToMinted call.now stop (op.minted (w.rules limits call)) a
      (Engine.run w limits call op).2.record a' rec ∧
    (if reopened then
      rec.Like call.now (w.retried limits call op stop reopened draws).2.record
    else (w.retried limits call op stop reopened draws).2.record = rec) ∧
    ∀ g ∈ (Engine.run w limits call op).2.record.liveGenerations,
      (w.retried limits call op stop reopened draws).2.shelf.generation g =
        (Engine.run w limits call op).2.shelf.generation g

/-- So it is wherever the process stops, whether or not the workspace is opened in
between. Where the request makes up an upload id, the random source gives one that the
record does not know. -/
def Repeats (limits : Limits) (w : World) (call : Call) (op : Op) : Prop :=
  ∀ stop reopened draws,
    (op.minted (w.rules limits call) ≠ [] → ∃ u ∈ draws, w.record.known u = false) →
    w.RepeatsAt limits call op stop reopened draws

end World

end

namespace Rules

variable {r r₁ : Rules} {caller : Caller}

/-! ## A request on what it left itself -/

theorem enableEncryption_done {keyId : KeyId} {header header' : Bytes}
    (hwrite : caller.role = .readWrite)
    (hstate : r.record.state = .settled (some ⟨keyId, header'⟩)) :
    r.enableEncryption caller keyId header = (.ok r.encryption, r) := by
  simp [enableEncryption, settle, Caller.mustWrite, hwrite, hstate, check]

theorem enableEncryption_again {keyId : KeyId} {header : Bytes} {view : EncryptionView}
    (h : r.enableEncryption caller keyId header = (.ok view, r₁)) :
    r₁.enableEncryption caller keyId header = (.ok view, r₁) := by
  have hrun := h
  unfold enableEncryption at h
  obtain ⟨e, -, he⟩ | ⟨already, hsettle, h⟩ := check_cases h
  · cases he
  obtain ⟨hwrite, ⟨rfl, hdone⟩ | ⟨rfl, hstate⟩⟩ := settle_ok hsettle
  · cases h
    exact hrun
  · rw [if_neg Bool.false_ne_true] at h
    split at h
    · cases h
    · cases h
      exact enableEncryption_done hwrite rfl

theorem freshStart_done {keyId : KeyId} {header header' : Bytes}
    (hwrite : caller.role = .readWrite)
    (hstate : r.record.state = .settled (some ⟨keyId, header'⟩)) :
    r.freshStart caller keyId header = (.ok r.encryption, r) := by
  simp [freshStart, settle, Caller.mustWrite, hwrite, hstate, check]

theorem freshStart_again {keyId : KeyId} {header : Bytes} {view : EncryptionView}
    (h : r.freshStart caller keyId header = (.ok view, r₁)) :
    r₁.freshStart caller keyId header = (.ok view, r₁) := by
  have hrun := h
  unfold freshStart at h
  obtain ⟨e, -, he⟩ | ⟨already, hsettle, h⟩ := check_cases h
  · cases he
  obtain ⟨hwrite, ⟨rfl, hdone⟩ | ⟨rfl, hstate⟩⟩ := settle_ok hsettle
  · cases h
    exact hrun
  · rw [if_neg Bool.false_ne_true] at h
    cases h
    exact freshStart_done hwrite rfl

theorem replaceHeader_again {expected : KeyId} {header : Bytes} {view : EncryptionView}
    (h : r.replaceHeader caller expected header = (.ok view, r₁)) :
    r₁.replaceHeader caller expected header = (.ok view, r₁) := by
  unfold replaceHeader at h
  obtain ⟨e, -, he⟩ | ⟨_, hwrite, h⟩ := check_cases h
  · cases he
  split at h
  · cases h
  · cases h
  · rename_i worn hstate
    split at h
    · cases h
    · rename_i hkey
      cases h
      unfold replaceHeader
      rw [hwrite]
      simp only [check]
      rw [if_neg hkey]

/-- A lease that ends as late as it can is renewed to what it is. -/
theorem renewLease_same {session : Session} (hstate : r.record.state = .rewriting session)
    (hlease : session.leaseExpiresAt = wrappingAdd r.now r.limits.leaseSecs) :
    r.renewLease session.holder = r := by
  rw [renewLease_eq hstate, ← hlease]
  obtain ⟨record, shelf, now, draws, limits, after⟩ := r
  obtain ⟨state, generation, plain, nextGeneration, used, tickets, tombstones, ended⟩ := record
  cases hstate
  rfl

/-- What a request that renews the lease leaves. -/
theorem renewLease_left {session : Session} {view : SessionView}
    (hstate : r.record.state = .rewriting session)
    (h : (r.renewLease caller.key).answerSession = (.ok view, r₁)) :
    ∃ renewed : Session, r₁.record.state = .rewriting renewed ∧ renewed.holder = caller.key ∧
      renewed.kind = session.kind ∧ renewed.next = session.next ∧
      (r₁.renewLease caller.key).answerSession = (.ok view, r₁) := by
  have hr := answerSession_ok h
  rw [renewLease_eq hstate] at hr h
  subst hr
  refine ⟨_, rfl, rfl, rfl, rfl, ?_⟩
  rw [show caller.key = Session.holder { session with
    holder := caller.key
    leaseExpiresAt := wrappingAdd r.now r.limits.leaseSecs } from rfl]
  rw [renewLease_same rfl rfl]
  exact h

theorem heartbeatRewrite_again {view : SessionView}
    (h : r.heartbeatRewrite caller = (.ok view, r₁)) :
    r₁.heartbeatRewrite caller = (.ok view, r₁) := by
  unfold heartbeatRewrite at h
  obtain ⟨e, -, he⟩ | ⟨_, hwrite, h⟩ := check_cases h
  · cases he
  obtain ⟨e, -, he⟩ | ⟨session, hheld, h⟩ := check_cases h
  · cases he
  obtain ⟨hstate, -⟩ := WorkspaceRecord.heldSession_ok hheld
  obtain ⟨renewed, hrenewed, hholder, -, -, hagain⟩ := renewLease_left hstate h
  unfold heartbeatRewrite WorkspaceRecord.heldSession
  rw [hwrite, hrenewed]
  simp only [check, hholder, ne_eq, not_true_eq_false, if_false]
  exact hagain

theorem takeOverRewrite_again {view : SessionView}
    (h : r.takeOverRewrite caller = (.ok view, r₁)) :
    r₁.takeOverRewrite caller = (.ok view, r₁) := by
  unfold takeOverRewrite at h
  obtain ⟨e, -, he⟩ | ⟨_, hwrite, h⟩ := check_cases h
  · cases he
  split at h
  · cases h
  · rename_i session hstate
    split at h
    · cases h
    · obtain ⟨renewed, hrenewed, hholder, -, -, hagain⟩ := renewLease_left hstate h
      unfold takeOverRewrite
      rw [hwrite, hrenewed]
      simp only [check, hholder, ne_eq, not_true_eq_false, false_and, if_false]
      exact hagain

theorem beginRewrite_again {request : RewriteRequest} {view : SessionView}
    (h : r.beginRewrite caller request = (.ok view, r₁)) :
    r₁.beginRewrite caller request = (.ok view, r₁) := by
  -- the session it left is one it takes for its own
  have hagain : caller.mustWrite = .ok () → ∀ session : Session,
      r₁.record.state = .rewriting session → session.holder = caller.key →
      session.kind = request.kind → session.next.keyId = request.newKeyId →
      (r₁.renewLease caller.key).answerSession = (.ok view, r₁) →
      r₁.beginRewrite caller request = (.ok view, r₁) := by
    intro hwrite session hstate hholder hkind hkey hrenew
    unfold beginRewrite
    rw [hwrite, hstate]
    simp only [check, hholder, hkind, hkey, and_self, if_true]
    exact hrenew
  unfold beginRewrite at h
  obtain ⟨e, -, he⟩ | ⟨_, hwrite, h⟩ := check_cases h
  · cases he
  split at h
  · rename_i session hstate
    split at h
    · rename_i hsame
      obtain ⟨renewed, hrenewed, hholder, hkind, hnext, hrenew⟩ := renewLease_left hstate h
      exact hagain hwrite renewed hrenewed hholder (hkind.trans hsame.2.1)
        ((congrArg Seal.keyId hnext).trans hsame.2.2) hrenew
    · cases h
  · rename_i prior hstate
    have hopened : ∀ session : Session, session.holder = caller.key →
        session.kind = request.kind → session.next.keyId = request.newKeyId →
        session.leaseExpiresAt = wrappingAdd r.now r.limits.leaseSecs →
        answerSession { r with
          record := { r.record with
            nextGeneration := r.record.nextGeneration + 1
            state := .rewriting session } } = (.ok view, r₁) →
        r₁.beginRewrite caller request = (.ok view, r₁) := by
      intro session hholder hkind hkey hlease h
      have hr := answerSession_ok h
      refine hagain hwrite session ?_ hholder hkind hkey ?_
      · rw [hr]
      · rw [← hholder, renewLease_same (by rw [hr]) (by rw [hr]; exact hlease)]
        rw [← hr] at h
        exact h
    have hlast : (if request.newKeyId ∈ r.record.endedRewrites then (.error .rewriteEnded, r)
          else if prior.map Seal.keyId ≠ request.expectedKeyId then (.error .keyIdMismatch, r)
          else if prior.map Seal.keyId = some request.newKeyId then
            (.error (.invalidRequest "the new key is the current one"), r)
          else answerSession { r with
            record := { r.record with
              nextGeneration := r.record.nextGeneration + 1
              state := .rewriting
                { kind := request.kind
                  prior
                  next := ⟨request.newKeyId, request.newHeader⟩
                  holder := caller.key
                  leaseExpiresAt := wrappingAdd r.now r.limits.leaseSecs
                  stagedGeneration := r.record.nextGeneration } } })
          = ((.ok view, r₁) : Except ApiError SessionView × Rules) →
        r₁.beginRewrite caller request = (.ok view, r₁) := by
      intro h
      split at h
      · cases h
      split at h
      · cases h
      split at h
      · cases h
      exact hopened _ rfl rfl rfl rfl h
    split at h
    · cases h
    · cases h
    · exact hlast h
    · exact hlast h

theorem commitRewrite_again {newKeyId : KeyId} {view : EncryptionView}
    (h : r.commitRewrite caller newKeyId = (.ok view, r₁)) :
    r₁.commitRewrite caller newKeyId = (.ok view, r₁) := by
  have hrun := h
  unfold commitRewrite at h
  obtain ⟨e, -, he⟩ | ⟨_, hwrite, h⟩ := check_cases h
  · cases he
  split at h
  · split at h
    · cases h
      exact hrun
    · cases h
  · obtain ⟨e, -, he⟩ | ⟨session, hheld, h⟩ := check_cases h
    · cases he
    split at h
    · cases h
    · rename_i hkey
      dsimp only at h
      split at h
      · cases h
      · cases h
        unfold commitRewrite
        rw [hwrite]
        show (if (some session.next).map Seal.keyId = some newKeyId then _ else _) = _
        rw [Option.map_some, not_not.mp hkey, if_pos rfl]

theorem abortRewrite_again {newKeyId : KeyId} {view : EncryptionView}
    (h : r.abortRewrite caller newKeyId = (.ok view, r₁)) :
    r₁.abortRewrite caller newKeyId = (.ok view, r₁) := by
  have hrun := h
  unfold abortRewrite at h
  obtain ⟨e, -, he⟩ | ⟨_, hwrite, h⟩ := check_cases h
  · cases he
  split at h
  · cases h
    exact hrun
  · obtain ⟨e, -, he⟩ | ⟨session, hheld, h⟩ := check_cases h
    · cases he
    split at h
    · cases h
    · cases h
      unfold abortRewrite
      rw [hwrite]
      rfl

/-- A rule on what it left itself: the same answer, and nothing more is done. -/
structure Again {α : Type} (rule : Rules → Except ApiError α × Rules) (a : α) (r₁ : Rules) :
    Prop where
  answer : (rule r₁).1 = .ok a
  record : (rule r₁).2.record = r₁.record
  shelf : (rule r₁).2.shelf = r₁.shelf

theorem Again.of_eq {α : Type} {rule : Rules → Except ApiError α × Rules} {a : α}
    (h : rule r₁ = (.ok a, r₁)) : Again rule a r₁ := by
  refine ⟨?_, ?_, ?_⟩ <;> rw [h]

theorem giveUp_again (r : Rules) (p : UploadId → Ticket → Bool) :
    ((r.giveUp p).giveUp p).record = (r.giveUp p).record := by
  have hnone : ((r.giveUp p).record.tickets.filter fun u t => !p u t) =
      (r.giveUp p).record.tickets :=
    Map.filter_same fun u ticket h => (Map.get_filter_eq_some.mp h).2
  exact congrArg (fun tickets => { (r.giveUp p).record with tickets }) hnone

theorem abortUpload_again {u : UploadId} {x : Unit} (h : r.abortUpload caller u = (.ok x, r₁)) :
    Again (·.abortUpload caller u) x r₁ := by
  cases h
  exact ⟨rfl, r.giveUp_again _, rfl⟩

/-- The rules with a new ticket and its staging place. -/
def ticketed (r : Rules) (draws : List UploadId) (u : UploadId) (ticket : Ticket) : Rules :=
  { r with
    draws
    shelf := r.shelf.stageCreate u
    record := { r.record with tickets := r.record.tickets.insert u ticket } }

/-- What a begin that may go to generation `g` answers and leaves, unless it is refused. -/
inductive Begins (r : Rules) (caller : Caller) (request : UploadRequest) (g : Nat) :
    Begun → Rules → Prop
  | stored {id : ItemId} (hfound : findIn r.shelf g request.id.contentKey = some id) :
      Begins r caller request g (.stored ⟨id, false, request.inRewrite⟩)
        (r.giveUp fun _ ticket => ticket.owner = caller.key && ticket.request = request)
  | live {u : UploadId} {ticket : Ticket}
      (hnew : findIn r.shelf g request.id.contentKey = none)
      (hlive : r.record.liveTicketFor r.now caller request = some (u, ticket)) :
      Begins r caller request g (.ticket ⟨u, ticket.expiresAt⟩)
        { r with shelf := r.shelf.stageCreate u }
  | minted {u : UploadId} {draws : List UploadId}
      (hnew : findIn r.shelf g request.id.contentKey = none)
      (hfirst : r.record.liveTicketFor r.now caller request = none)
      (hquota : ¬r.limits.quotaBytes < saturatingAdd (r.held g request.inRewrite) request.size)
      (hmint : mint r.record.known r.draws = some (u, draws)) :
      Begins r caller request g (.ticket ⟨u, wrappingAdd r.now r.limits.stagingSecs⟩)
        (r.ticketed draws u ⟨caller.key, request, wrappingAdd r.now r.limits.stagingSecs⟩)

/-- Whether a begin is let in, and where it goes. -/
structure LetsIn (r : Rules) (caller : Caller) (request : UploadRequest) (g : Nat) : Prop where
  write : caller.mustWrite = .ok ()
  target : r.record.uploadTarget caller request = .ok g
  size : ¬r.limits.maxItemBytes.any (· < request.size) = true

/-- **When a begin succeeds, and with what.** -/
theorem beginUpload_ok {request : UploadRequest} {begun : Begun} :
    r.beginUpload caller request = (.ok begun, r₁) ↔
      ∃ g, r.LetsIn caller request g ∧ r.Begins caller request g begun r₁ := by
  constructor
  -- the checks in the order they are made
  · intro h
    unfold beginUpload at h
    obtain ⟨e, -, he⟩ | ⟨_, hwrite, h⟩ := check_cases h
    · cases he
    obtain ⟨e, -, he⟩ | ⟨g, htarget, h⟩ := check_cases h
    · cases he
    split at h
    · cases h
    rename_i hsize
    refine ⟨g, ⟨hwrite, htarget, hsize⟩, ?_⟩
    split at h
    · rename_i id hfound
      cases h
      exact .stored hfound
    · rename_i hnew
      split at h
      · rename_i u ticket hlive
        cases h
        exact .live hnew hlive
      · rename_i hfirst
        split at h
        · cases h
        · rename_i hquota
          split at h
          · cases h
          · rename_i u draws hmint
            cases h
            exact .minted hnew hfirst hquota hmint
  · rintro ⟨g, ⟨hwrite, htarget, hsize⟩, hbegins⟩
    unfold beginUpload
    rw [hwrite, htarget]
    simp only [check]
    rw [if_neg hsize]
    cases hbegins with
    | stored hfound => rw [hfound]
    | live hnew hlive =>
      rw [hnew]
      simp only
      rw [hlive]
    | minted hnew hfirst hquota hmint =>
      rw [hnew]
      simp only
      rw [hfirst]
      simp only
      rw [if_neg hquota, hmint]
      rfl

end Rules

/-- Creating a staging place twice is creating it once. -/
theorem MemoryShelf.stageCreate_again (s : MemoryShelf) (u : UploadId) :
    (s.stageCreate u).stageCreate u = s.stageCreate u := by
  have hthere : (s.stageCreate u).staging[u]? = some (s.staging[u]?.getD ⟨[], none⟩) := by
    rw [stageCreate_staging, if_pos rfl]
  rw [stageCreate, hthere]

/-- The only live ticket for a request is the one that is found. -/
theorem WorkspaceRecord.liveTicketFor_insert {rec : WorkspaceRecord} {now : Nat} {caller : Caller}
    {request : UploadRequest} (hnone : rec.liveTicketFor now caller request = none) (u : UploadId)
    {expiresAt : Nat} (hlive : now < expiresAt) :
    liveTicketFor
      { rec with tickets := rec.tickets.insert u ⟨caller.key, request, expiresAt⟩ } now caller
        request = some (u, ⟨caller.key, request, expiresAt⟩) := by
  rw [WorkspaceRecord.liveTicketFor, List.find?_eq_none] at hnone
  cases hfind : liveTicketFor
      { rec with tickets := rec.tickets.insert u ⟨caller.key, request, expiresAt⟩ } now caller
        request with
  | none =>
    rw [WorkspaceRecord.liveTicketFor, List.find?_eq_none] at hfind
    have hmem : (u, (⟨caller.key, request, expiresAt⟩ : Ticket)) ∈
        (rec.tickets.insert u ⟨caller.key, request, expiresAt⟩).toList :=
      Map.mem_toList_iff.mpr (Map.get_insert_self _ _ _)
    exact absurd (by simp [hlive]) (hfind _ hmem)
  | some found =>
    obtain ⟨v, ticket⟩ := found
    obtain ⟨hget, hlive', howner, hrequest⟩ := liveTicketFor_eq_some hfind
    change (rec.tickets.insert u _)[v]? = some ticket at hget
    rw [Map.get_insert] at hget
    split at hget
    · rename_i e
      subst e
      rw [Option.some.inj hget]
    · refine absurd ?_ (hnone (v, ticket) (Map.mem_toList_iff.mpr hget))
      simp [hlive', howner, hrequest]

/-- A ticket whose deadline has passed is not found. -/
theorem WorkspaceRecord.liveTicketFor_late {rec : WorkspaceRecord} {now : Nat} {caller : Caller}
    {request : UploadRequest} (hnone : rec.liveTicketFor now caller request = none) (u : UploadId)
    {ticket : Ticket} (hlate : ¬now < ticket.expiresAt) :
    liveTicketFor { rec with tickets := rec.tickets.insert u ticket } now caller request =
      none := by
  rw [WorkspaceRecord.liveTicketFor, List.find?_eq_none] at hnone
  cases hfind : liveTicketFor { rec with tickets := rec.tickets.insert u ticket } now caller
      request with
  | none => rfl
  | some found =>
    obtain ⟨v, old⟩ := found
    obtain ⟨hget, hlive, howner, hrequest⟩ := liveTicketFor_eq_some hfind
    change (rec.tickets.insert u ticket)[v]? = some old at hget
    rw [Map.get_insert] at hget
    split at hget
    · cases hget
      exact absurd hlive hlate
    · refine absurd ?_ (hnone (v, old) (Map.mem_toList_iff.mpr hget))
      simp [hlive, howner, hrequest]

namespace Rules

variable {r r₁ : Rules} {caller : Caller}

theorem LetsIn.dated {request : UploadRequest} {g : Nat} (h : r.LetsIn caller request g) :
    (Op.beginUpload caller request).dated r =
      ((findIn r.shelf g request.id.contentKey).isNone &&
        (r.record.liveTicketFor r.now caller request).isNone) := by
  simp only [Op.dated, h.target]

/-- What a begin leaves lets it in again, and gives it no cause to make up an id. -/
theorem beginUpload_again {request : UploadRequest} {begun : Begun}
    (h : r.beginUpload caller request = (.ok begun, r₁))
    (hends : (Op.beginUpload caller request).dated r = true →
      r.now < wrappingAdd r.now r.limits.stagingSecs) :
    Again (·.beginUpload caller request) begun r₁ ∧
      (Op.beginUpload caller request).dated r₁ = false := by
  obtain ⟨g, ⟨hwrite, htarget, hsize⟩, hbegins⟩ := beginUpload_ok.mp h
  -- once it is known what the second begin does, its answer and its edits are read off
  have hagain : ∀ {r₂ : Rules}, r₁.LetsIn caller request g → r₁.Begins caller request g begun r₂ →
      r₂.record = r₁.record → r₂.shelf = r₁.shelf →
      Again (·.beginUpload caller request) begun r₁ := by
    intro r₂ hlets hbegins hrecord hshelf
    have hrun := beginUpload_ok.mpr ⟨g, hlets, hbegins⟩
    refine ⟨?_, ?_, ?_⟩
    · show (r₁.beginUpload caller request).1 = _
      rw [hrun]
    · show (r₁.beginUpload caller request).2.record = _
      rw [hrun, hrecord]
    · show (r₁.beginUpload caller request).2.shelf = _
      rw [hrun, hshelf]
  cases hbegins with
  | stored hfound =>
    have hlets : (r.giveUp fun _ ticket => ticket.owner = caller.key &&
      ticket.request = request).LetsIn caller request g := ⟨hwrite, htarget, hsize⟩
    refine ⟨hagain hlets (.stored hfound) (r.giveUp_again _) rfl, ?_⟩
    rw [hlets.dated, show findIn (r.giveUp _).shelf g _ = _ from hfound]
    rfl
  | @live u ticket hnew hlive =>
    have hlets : LetsIn { r with shelf := r.shelf.stageCreate u } caller request g :=
      ⟨hwrite, htarget, hsize⟩
    have hnew' : findIn (r.shelf.stageCreate u) g request.id.contentKey = none :=
      (findIn_congr (r.shelf.stageCreate_generation u g) _).trans hnew
    refine ⟨hagain hlets (.live hnew' hlive) rfl (r.shelf.stageCreate_again u), ?_⟩
    rw [hlets.dated, hlive]
    exact Bool.and_false _
  | @minted u draws hnew hfirst hquota hmint =>
    have hdated : (Op.beginUpload caller request).dated r = true := by
      rw [LetsIn.dated ⟨hwrite, htarget, hsize⟩, hnew, hfirst]
      rfl
    have hends := hends hdated
    -- the deadline is a sum modulo `2 ^ 64`, which is not to be computed
    generalize wrappingAdd r.now r.limits.stagingSecs = ends at *
    have hlive : (r.ticketed draws u ⟨caller.key, request, ends⟩).record.liveTicketFor
        (r.ticketed draws u ⟨caller.key, request, ends⟩).now caller request =
          some (u, ⟨caller.key, request, ends⟩) :=
      WorkspaceRecord.liveTicketFor_insert hfirst u hends
    have hlets : (r.ticketed draws u ⟨caller.key, request, ends⟩).LetsIn caller request g :=
      ⟨hwrite, htarget, hsize⟩
    have hnew' : findIn (r.ticketed draws u ⟨caller.key, request, ends⟩).shelf g
        request.id.contentKey = none :=
      (findIn_congr (r.shelf.stageCreate_generation u g) _).trans hnew
    refine ⟨hagain hlets (.live hnew' hlive) rfl (r.shelf.stageCreate_again u), ?_⟩
    rw [hlets.dated, hlive]
    exact Bool.and_false _

section
variable [Crates]

theorem commitUpload_replayed {u : UploadId} {stone : Tombstone}
    (h : r.record.tombstone r.now caller u = some stone) :
    r.commitUpload caller u = (.ok stone.outcome, r) := by
  unfold commitUpload
  rw [h]

theorem commitUpload_again {u : UploadId} {outcome : PutOutcome} (h0 : r.after = [])
    (h : r.commitUpload caller u = (.ok outcome, r₁)) (hnow : r₁.now = r.now)
    (hends : (Op.commitUpload caller u).dated r = true →
      r.now < wrappingAdd r.now r.limits.stagingSecs) :
    r₁.commitUpload caller u = (.ok outcome, r₁) := by
  cases hstone : r.record.tombstone r.now caller u with
  | some stone =>
    have hrun := commitUpload_replayed hstone
    rw [h] at hrun
    cases hrun
    exact h
  | none =>
    have hdated : (Op.commitUpload caller u).dated r = true := by
      rw [Op.dated, hstone]
      rfl
    have hrecords := (commitUpload_change h0 h).records hstone
    have hlive : r₁.record.tombstone r₁.now caller u =
        some ⟨caller.key, outcome, wrappingAdd r.now r.limits.stagingSecs⟩ := by
      rw [WorkspaceRecord.tombstone, hrecords, hnow]
      simp [hends hdated]
    exact commitUpload_replayed hlive

end

end Rules

section
variable [Crates]

/-- No rule moves the clock or the limits. -/
theorem Op.clock {op : Op} (hop : op.resent = true) (r : Rules) :
    (op.rule r).2.now = r.now ∧ (op.rule r).2.limits = r.limits := by
  cases op with
  | enableEncryption | freshStart | replaceHeader =>
    simp only [Op.rule, answering, Rules.enableEncryption, Rules.freshStart, Rules.replaceHeader,
      Rules.check]
    repeat' split
    all_goals exact ⟨rfl, rfl⟩
  | beginUpload | commitUpload =>
    simp only [Op.rule, answering, Rules.beginUpload, Rules.commitUpload, Rules.settleUpload,
      Rules.check]
    repeat' split
    all_goals exact ⟨rfl, rfl⟩
  | abortUpload caller u => exact ⟨rfl, rfl⟩
  | beginRewrite | heartbeatRewrite | takeOverRewrite =>
    simp only [Op.rule, answering, Rules.beginRewrite, Rules.heartbeatRewrite,
      Rules.takeOverRewrite, Rules.answerSession, Rules.renewLease, Rules.check]
    repeat' split
    all_goals exact ⟨rfl, rfl⟩
  | commitRewrite | abortRewrite =>
    simp only [Op.rule, answering, Rules.commitRewrite, Rules.abortRewrite, Rules.endAborted,
      Rules.check]
    repeat' split
    all_goals exact ⟨rfl, rfl⟩
  | _ => cases hop

/-- **A request repeated on what it left itself is answered alike, and does no more.** -/
theorem Op.again {op : Op} (hop : op.resent = true) {r r₁ : Rules} {a : Answer}
    (h0 : r.after = []) (h : op.rule r = (.ok a, r₁))
    (hends : op.dated r = true → r.now < wrappingAdd r.now r.limits.stagingSecs) :
    Rules.Again op.rule a r₁ := by
  have hclock := Op.clock hop r
  rw [h] at hclock
  -- from a rule to the operation that answers with it
  have hof : ∀ {α : Type} {rule : Rules → Except ApiError α × Rules} {b : α} {f : α → Answer},
      (∀ r, op.rule r = answering f (rule r)) → Rules.Again rule b r₁ →
      Rules.Again op.rule (f b) r₁ := by
    intro α rule b f hrule hagain
    refine ⟨?_, ?_, ?_⟩
    · rw [hrule]
      show (rule r₁).1.map f = _
      rw [hagain.answer]
      rfl
    · rw [hrule]
      exact hagain.record
    · rw [hrule]
      exact hagain.shelf
  cases op with
  | enableEncryption caller keyId header =>
    obtain ⟨b, hb, rfl⟩ := answering_ok h
    exact hof (fun _ => rfl) (.of_eq (Rules.enableEncryption_again hb))
  | freshStart caller keyId header =>
    obtain ⟨b, hb, rfl⟩ := answering_ok h
    exact hof (fun _ => rfl) (.of_eq (Rules.freshStart_again hb))
  | replaceHeader caller expected header =>
    obtain ⟨b, hb, rfl⟩ := answering_ok h
    exact hof (fun _ => rfl) (.of_eq (Rules.replaceHeader_again hb))
  | beginUpload caller request =>
    obtain ⟨b, hb, rfl⟩ := answering_ok h
    exact hof (fun _ => rfl) (Rules.beginUpload_again hb hends).1
  | commitUpload caller u =>
    obtain ⟨b, hb, rfl⟩ := answering_ok h
    exact hof (fun _ => rfl) (.of_eq (Rules.commitUpload_again h0 hb hclock.1 hends))
  | abortUpload caller u =>
    obtain ⟨b, hb, rfl⟩ := answering_ok h
    exact hof (fun _ => rfl) (Rules.abortUpload_again hb)
  | beginRewrite caller request =>
    obtain ⟨b, hb, rfl⟩ := answering_ok h
    exact hof (fun _ => rfl) (.of_eq (Rules.beginRewrite_again hb))
  | heartbeatRewrite caller =>
    obtain ⟨b, hb, rfl⟩ := answering_ok h
    exact hof (fun _ => rfl) (.of_eq (Rules.heartbeatRewrite_again hb))
  | takeOverRewrite caller =>
    obtain ⟨b, hb, rfl⟩ := answering_ok h
    exact hof (fun _ => rfl) (.of_eq (Rules.takeOverRewrite_again hb))
  | commitRewrite caller newKeyId =>
    obtain ⟨b, hb, rfl⟩ := answering_ok h
    exact hof (fun _ => rfl) (.of_eq (Rules.commitRewrite_again hb))
  | abortRewrite caller newKeyId =>
    obtain ⟨b, hb, rfl⟩ := answering_ok h
    exact hof (fun _ => rfl) (.of_eq (Rules.abortRewrite_again hb))
  | _ => cases hop

/-- **A request that makes up no upload id sees no difference between two that are
alike.** -/
theorem Op.agree {op : Op} (hop : op.resent = true) {kept : Prop} {r r' : Rules}
    (h : r.Alike kept r')
    (hbegin : ∀ caller request, op = .beginUpload caller request → op.dated r = false) :
    Rules.Agree kept (op.rule r) (op.rule r') := by
  cases op with
  | enableEncryption caller keyId header =>
    exact (Rules.enableEncryption_agree h.toClose keyId header).answering _
  | freshStart caller keyId header =>
    exact (Rules.freshStart_agree h.toClose keyId header).answering _
  | replaceHeader caller expected header =>
    exact (Rules.replaceHeader_agree h.toClose expected header).answering _
  | beginUpload caller request =>
    refine (Rules.beginUpload_agree h.toClose fun g htarget hnew => ?_).answering _
    have hdated := hbegin caller request rfl
    simp only [Op.dated, htarget, hnew, Option.isNone_none, Bool.true_and] at hdated
    simpa using hdated
  | commitUpload caller u => exact (Rules.commitUpload_agree h u).answering _
  | abortUpload caller u => exact (Rules.abortUpload_agree h.toClose u).answering _
  | beginRewrite caller request =>
    exact (Rules.beginRewrite_agree h.toClose request).answering _
  | heartbeatRewrite caller => exact (Rules.heartbeatRewrite_agree h.toClose).answering _
  | takeOverRewrite caller => exact (Rules.takeOverRewrite_agree h.toClose).answering _
  | commitRewrite caller newKeyId =>
    exact (Rules.commitRewrite_agree h.toClose newKeyId).answering _
  | abortRewrite caller newKeyId =>
    exact (Rules.abortRewrite_agree h.toClose newKeyId).answering _
  | _ => cases hop

end

theorem WorkspaceRecord.Like.ticketed {rec rec' : WorkspaceRecord} {now : Nat}
    (h : rec.Like now rec') (u : UploadId) (ticket : Ticket) :
    Like now { rec with tickets := rec.tickets.insert u ticket }
      { rec' with tickets := rec'.tickets.insert u ticket } := by
  obtain ⟨hstate, hgeneration, hplain, hnext, hended⟩ := h.pointers
  refine ⟨⟨hstate, hgeneration, hplain, hnext, hended⟩, h.used, fun v => ?_, h.tombstones⟩
  show ((rec'.tickets.insert u ticket)[v]?).filter _ = ((rec.tickets.insert u ticket)[v]?).filter _
  rw [Map.get_insert, Map.get_insert]
  split
  · rfl
  · exact h.tickets v

/-! ## What a crash and an opening leave -/

namespace Rules

variable {kept : Prop} {r : Rules} {limits : Limits} {left : World} {call call' : Call}

/-- An opening takes nothing away that a rule sees, when the books are balanced. -/
theorem Close.reopened (h : Close kept r (left.rules limits call)) (hnow : call'.now = r.now)
    (hvacant : ∀ g, r.record.nextGeneration ≤ g → r.shelf.generation g = ∅)
    (hbooks : ∀ g ∈ r.record.liveGenerations, r.record.usedIn g = r.shelf.bytes g) :
    Close False r ((left.reopen limits r.now).rules limits call') := by
  have hlive : left.record.liveGenerations = r.record.liveGenerations :=
    h.record.pointers.liveGenerations
  obtain ⟨hstate, hgeneration, hplain, hnext, hended⟩ := h.record.pointers
  refine ⟨hnow, h.limits, ⟨⟨hstate, hgeneration, hplain, hnext, hended⟩, ?_, ?_, ?_⟩, ?_, ?_⟩
  · intro g hg
    show ((left.opening limits r.now).record.used[g]?).getD 0 = _
    have hsame : left.shelf.generation g = r.shelf.generation g := h.items g hg
    rw [World.opening_used, hlive]
    split
    · rename_i hmem
      rw [hbooks g hmem]
      exact MemoryShelf.bytes_congr hsame
    · rename_i hdead
      rw [hsame, hvacant g (hg.resolve_left hdead), if_pos rfl]
      exact h.record.used g hg
  · intro u
    show ((left.record.tickets.filter fun _ ticket => r.now < ticket.expiresAt)[u]?).filter _ = _
    rw [Map.get_filter, Option.filter_filter]
    simp only [Bool.and_self]
    exact h.record.tickets u
  · intro u
    show ((left.record.tombstones.filter fun _ stone => r.now < stone.expiresAt)[u]?).filter _ = _
    rw [Map.get_filter, Option.filter_filter]
    simp only [Bool.and_self]
    exact h.record.tombstones u
  · exact False.elim
  · intro g hg
    have hsame : left.shelf.generation g = r.shelf.generation g := h.items g hg
    show (sweep left.shelf (left.opening limits r.now).after).generation g = _
    rw [sweep_generation]
    split
    · rename_i hmem
      have hdead := (World.dropGeneration_mem_opening.mp hmem).2
      rw [hlive] at hdead
      exact (hvacant g (hg.resolve_left hdead)).symm
    · exact hsame

theorem known_reopened {now : Nat} {u : UploadId} (h : left.record.known u = false) :
    (left.reopen limits now).record.known u = false := by
  obtain ⟨hticket, hstone⟩ := WorkspaceRecord.known_eq_false.mp h
  refine WorkspaceRecord.known_eq_false.mpr ⟨?_, ?_⟩
  · show (left.record.tickets.filter _)[u]? = none
    rw [Map.get_filter, hticket]
    rfl
  · show (left.record.tombstones.filter _)[u]? = none
    rw [Map.get_filter, hstone]
    rfl

theorem Alike.reopened (h : Alike kept r (left.rules limits call)) (hnow : call'.now = r.now)
    (hvacant : ∀ g, r.record.nextGeneration ≤ g → r.shelf.generation g = ∅)
    (hbooks : ∀ g ∈ r.record.liveGenerations, r.record.usedIn g = r.shelf.bytes g) :
    Alike False r ((left.reopen limits r.now).rules limits call') where
  toClose := h.toClose.reopened hnow hvacant hbooks
  staging := by
    intro u ticket hticket hlive
    show (sweep left.shelf (left.opening limits r.now).after).staging[u]? = _
    rw [sweep_staging, if_neg]
    · exact h.staging u ticket hticket hlive
    · intro hmem
      -- the ticket is live, so the opening keeps it and its staging place
      have hnone := (World.removeStaging_mem_opening.mp hmem).2
      change (left.record.tickets.filter fun _ ticket => r.now < ticket.expiresAt)[u]? = none
        at hnone
      have hsame := h.record.tickets u
      rw [hticket, Option.filter_some, if_pos (decide_eq_true hlive)] at hsame
      rw [Map.get_filter] at hnone
      rw [show left.record.tickets[u]? = (left.rules limits call).record.tickets[u]? from rfl,
        hsame] at hnone
      cases hnone
  known := fun u hu => known_reopened (h.known u hu)

/-- What a process leaves that stops once the record is stored. -/
theorem alike_stored [Crates] {op : Op} {r₁ : Rules} {a : Answer} (hop : op.resent = true)
    (hl : left.Laid) (h : op.rule (left.rules limits call) = (.ok a, r₁)) (n : Nat)
    (hnow : call'.now = r₁.now) :
    Alike True r₁ ((left.stopped limits call op (.stored n)).rules limits call') := by
  have hclock := Op.clock hop (left.rules limits call)
  have hchange := Op.change rfl h
  have hstopped : left.stopped limits call op (.stored n) =
      ⟨r₁.record, sweep r₁.shelf (r₁.after.take n), []⟩ := by
    unfold World.stopped
    rw [h]
  rw [h] at hclock
  rw [hstopped]
  refine ⟨⟨hnow, hclock.2.symm, .refl _, fun _ => rfl, ?_⟩, ?_, fun _ hu => hu⟩
  · intro g hg
    show (sweep r₁.shelf (r₁.after.take n)).generation g = _
    rw [sweep_generation, if_neg]
    intro hmem
    obtain ⟨hdead, hlt⟩ := hchange.drops_dead hl.layout hl.vacant rfl (List.mem_of_mem_take hmem)
    rcases hg with hlive | hnext
    · exact hdead hlive
    · omega
  · intro u ticket hticket _
    show (sweep r₁.shelf (r₁.after.take n)).staging[u]? = _
    rw [sweep_staging, if_neg]
    intro hmem
    rw [(hchange.removal rfl (List.mem_of_mem_take hmem)).1] at hticket
    cases hticket

end Rules

/-- An opening takes the books of live generations from the shelf, whatever they were. -/
theorem World.reopen_booked {limits : Limits} {now : Nat} {rec : WorkspaceRecord}
    {shelf : MemoryShelf} {pending pending' : List Cleanup} {g n : Nat}
    (hg : g ∈ rec.liveGenerations) :
    World.reopen limits now ⟨{ rec with used := rec.used.insert g n }, shelf, pending⟩ =
      World.reopen limits now ⟨rec, shelf, pending'⟩ := by
  rw [World.reopen_eq, World.reopen_eq]
  refine congrArg (fun rec => (⟨rec, _, []⟩ : World)) ?_
  refine WorkspaceRecord.ext rfl rfl rfl rfl (Std.ExtTreeMap.ext_getElem? fun h => ?_) rfl rfl rfl
  rw [World.opening_used, World.opening_used]
  show (if h ∈ rec.liveGenerations then _ else _) = if h ∈ rec.liveGenerations then _ else _
  split
  · rfl
  · rename_i hdead
    have hne : g ≠ h := by
      rintro rfl
      exact hdead hg
    show (if shelf.generation h = ∅ then (rec.used.insert g n)[h]? else none) = _
    rw [Map.get_insert_of_ne _ _ hne]

namespace Rules

section
variable [Crates] {r : Rules} {caller : Caller}

/-- A commit that finds its own publish on the shelf, never recorded. -/
theorem commitUpload_recovered {u : UploadId} {ticket : Ticket} {g : Nat} {item : Item}
    (hstone : r.record.tombstone r.now caller u = none)
    (hticket : r.record.liveTicket r.now caller u = some ticket)
    (htarget : r.record.uploadTarget caller ticket.request = .ok g)
    (hgone : r.shelf.staging[u]? = none)
    (hitem : (r.shelf.generation g)[ticket.request.id]? = some item)
    (hsize : item.content.length = ticket.request.size) :
    r.commitUpload caller u =
      (.ok ⟨ticket.request.id, true, ticket.request.inRewrite⟩,
        { r with
          after := r.after ++ [.removeStaging u]
          record := WorkspaceRecord.finished
            { r.record with used := r.record.used.insert g (r.shelf.bytes g) } u
            (r.stone ticket ticket.request.id true) }) := by
  have hnone : r.shelf.stageSize u = none := by
    rw [MemoryShelf.stageSize, hgone]
    rfl
  have hthere : (r.shelf.get g ticket.request.id).any (·.size = ticket.request.size) = true := by
    rw [MemoryShelf.get, hitem]
    exact decide_eq_true hsize
  unfold commitUpload
  rw [hstone, hticket]
  simp only [check, htarget]
  rw [if_pos ⟨hnone, hthere⟩]
  rfl

/-- The request, on what a crash left, ends as it would have ended. -/
structure Ends (op : Op) (a : Answer) (r₁ : Rules) (kept : Prop) (r' : Rules) : Prop where
  answer : (op.rule r').1 = .ok a
  record : r₁.record.Like r₁.now (op.rule r').2.record
  kept : kept → (op.rule r').2.record = r₁.record
  items : ∀ g ∈ r₁.record.liveGenerations,
    (op.rule r').2.shelf.generation g = r₁.shelf.generation g

variable {op : Op} {a : Answer} {r₁ r' : Rules} {kept : Prop}

/-- What is left is like something on which the request ends so. -/
theorem Ends.of_agree {r₀ : Rules} (hagree : Agree kept (op.rule r₀) (op.rule r'))
    (hanswer : (op.rule r₀).1 = .ok a) (hrecord : (op.rule r₀).2.record = r₁.record)
    (hshelf : (op.rule r₀).2.shelf = r₁.shelf) (hnow : (op.rule r₀).2.now = r₁.now) :
    Ends op a r₁ kept r' := by
  obtain ⟨hanswer', hclose⟩ := hagree a hanswer
  have hlike := hclose.record
  have hitems := hclose.items
  rw [hrecord, hnow] at hlike
  rw [hrecord, hshelf] at hitems
  exact ⟨hanswer', hlike, fun k => (hclose.kept k).trans hrecord, fun g hg => hitems g (.inl hg)⟩

theorem ends_unstored (hop : op.resent = true) (hrun : op.rule r = (.ok a, r₁))
    (h : Alike kept r r')
    (hbegin : ∀ caller request, op = .beginUpload caller request → op.dated r = false) :
    Ends op a r₁ kept r' := by
  refine .of_agree (Op.agree hop h hbegin) ?_ ?_ ?_ ?_ <;> rw [hrun]

theorem ends_stored (hop : op.resent = true) (hagain : Again op.rule a r₁)
    (h : Alike kept r₁ r')
    (hbegin : ∀ caller request, op = .beginUpload caller request → op.dated r₁ = false) :
    Ends op a r₁ kept r' :=
  .of_agree (Op.agree hop h hbegin) hagain.answer hagain.record hagain.shelf (Op.clock hop r₁).1

/-- A publish: what the commit found, and the shelf it leaves. -/
structure Publish (r : Rules) (caller : Caller) (u : UploadId) (ticket : Ticket) (g : Nat)
    (staged : Staged) (shelf : MemoryShelf) : Prop where
  live : r.record.liveTicket r.now caller u = some ticket
  target : r.record.Targets caller ticket.request g
  sent : r.shelf.staging[u]? = some staged
  size : staged.content.length = ticket.request.size
  new : findIn r.shelf g ticket.request.id.contentKey = none
  staging : shelf.staging = r.shelf.staging.erase u
  items : ∀ h, shelf.generation h =
    if g = h then
      (r.shelf.generation g).insert ticket.request.id
        ⟨staged.content, ⟨ticket.request.metaJson, ticket.request.expectedKeyId, r.now⟩⟩
    else r.shelf.generation h

section Publish

variable {u : UploadId} {ticket : Ticket} {g : Nat} {staged : Staged} {shelf : MemoryShelf}

omit [Crates] in
theorem Publish.others (h : r.Publish caller u ticket g staged shelf) {g' : Nat} (hne : g ≠ g') :
    shelf.generation g' = r.shelf.generation g' := by
  rw [h.items, if_neg hne]

omit [Crates] in
theorem Publish.item (h : r.Publish caller u ticket g staged shelf) :
    (shelf.generation g)[ticket.request.id]? = some
      ⟨staged.content, ⟨ticket.request.metaJson, ticket.request.expectedKeyId, r.now⟩⟩ := by
  rw [h.items, if_pos rfl, Map.get_insert_self]

omit [Crates] in
/-- The generation holds the bytes it held, and those of the content. -/
theorem Publish.bytes (h : r.Publish caller u ticket g staged shelf) :
    shelf.bytes g = r.shelf.bytes g + ticket.request.size := by
  have hid := get_of_findIn_eq_none h.new
  have hgen := h.items g
  rw [if_pos rfl] at hgen
  rw [MemoryShelf.bytes_insert hid hgen, h.size]

omit [Crates] in
/-- Books that count the publish are balanced, when they were before it. -/
theorem Publish.booked (h : r.Publish caller u ticket g staged shelf)
    (hbooks : ∀ g' ∈ r.record.liveGenerations, r.record.usedIn g' = r.shelf.bytes g') :
    ∀ g' ∈ r.record.liveGenerations,
      WorkspaceRecord.usedIn { r.record with used := r.record.used.insert g (shelf.bytes g) } g' =
        shelf.bytes g' := by
  intro g' hlive
  rw [WorkspaceRecord.usedIn_insert]
  split
  · rename_i e
    rw [e]
  · rename_i hne
    rw [hbooks g' hlive, MemoryShelf.bytes_congr (h.others hne)]

/-- A publish that was never recorded is recorded by the commit sent again, as it would
have been. -/
theorem commitUpload_refound {used : Map Nat Nat} (h : r.Publish caller u ticket g staged shelf)
    (hstone : r.record.tombstone r.now caller u = none)
    (hbooks : r.record.usedIn g = r.shelf.bytes g)
    (hused : used.insert g (shelf.bytes g) = r.record.used.insert g (shelf.bytes g)) :
    ∃ r₂, commitUpload { r with shelf, record := { r.record with used } } caller u =
        (.ok ⟨ticket.request.id, true, ticket.request.inRewrite⟩, r₂) ∧
      r₂.record = WorkspaceRecord.finished
        { r.record with
          used := r.record.used.insert g (r.record.usedIn g + ticket.request.size) }
        u (r.stone ticket ticket.request.id true) ∧
      r₂.shelf = shelf ∧ r₂.now = r.now := by
  have hgone : shelf.staging[u]? = none := by
    rw [h.staging, Map.get_erase_self]
  have hrun := commitUpload_recovered (r := { r with shelf, record := { r.record with used } })
    hstone h.live h.target.goes hgone h.item h.size
  refine ⟨_, hrun, ?_, rfl, rfl⟩
  show WorkspaceRecord.finished { r.record with used := used.insert g (shelf.bytes g) } u _ = _
  rw [hused, h.bytes, hbooks]
  rfl

/-- A commit that published was not answered from a remembered outcome: a replay leaves
the staging place where it is. -/
theorem Publish.unremembered {b : PutOutcome} (h : r.Publish caller u ticket g staged r₁.shelf)
    (hrun : r.commitUpload caller u = (.ok b, r₁)) :
    r.record.tombstone r.now caller u = none := by
  cases hstone : r.record.tombstone r.now caller u with
  | none => rfl
  | some stone =>
    have hr : r₁ = r := congrArg Prod.snd (hrun.symm.trans (commitUpload_replayed hstone))
    have hgone := h.sent
    rw [← hr, h.staging, Map.get_erase_self] at hgone
    cases hgone

end Publish

omit [Crates] in
/-- A begin that remembers something makes up an upload id. -/
theorem beginUpload_dated {request : UploadRequest} {begun : Begun}
    (hrun : r.beginUpload caller request = (.ok begun, r₁))
    (hdated : (Op.beginUpload caller request).dated r = true) :
    ∃ g u draws, r.LetsIn caller request g ∧
      findIn r.shelf g request.id.contentKey = none ∧
      r.record.liveTicketFor r.now caller request = none ∧
      ¬r.limits.quotaBytes < saturatingAdd (r.held g request.inRewrite) request.size ∧
      mint r.record.known r.draws = some (u, draws) ∧
      begun = .ticket ⟨u, wrappingAdd r.now r.limits.stagingSecs⟩ ∧
      r₁ = r.ticketed draws u
        ⟨caller.key, request, wrappingAdd r.now r.limits.stagingSecs⟩ := by
  obtain ⟨g, hlets, hbegins⟩ := beginUpload_ok.mp hrun
  rw [hlets.dated] at hdated
  cases hbegins with
  | stored hfound =>
    rw [hfound] at hdated
    cases hdated
  | live hnew hlive =>
    rw [hlive, Bool.and_comm] at hdated
    cases hdated
  | minted hnew hfirst hquota hmint =>
    exact ⟨g, _, _, hlets, hnew, hfirst, hquota, hmint, rfl, rfl⟩

omit [Crates] in
/-- On what is left when nothing of it was stored, it makes up another one, for the same
ticket. -/
theorem beginUpload_renamed {request : UploadRequest} {g : Nat} {u : UploadId}
    (h : Close kept r r')
    (hknown : ∀ u, r.record.known u = false → r'.record.known u = false)
    (hlets : r.LetsIn caller request g) (hnew : findIn r.shelf g request.id.contentKey = none)
    (hfirst : r.record.liveTicketFor r.now caller request = none)
    (hquota : ¬r.limits.quotaBytes < saturatingAdd (r.held g request.inRewrite) request.size)
    (hdraw : u ∈ r'.draws) (hu : r.record.known u = false) :
    ∃ v draws, r'.record.known v = false ∧
      r'.beginUpload caller request =
        (.ok (.ticket ⟨v, wrappingAdd r.now r.limits.stagingSecs⟩),
          r'.ticketed draws v
            ⟨caller.key, request, wrappingAdd r.now r.limits.stagingSecs⟩) := by
  obtain ⟨hwrite, htarget, hsize⟩ := hlets
  have hg : r.record.Reaches g := .inl (WorkspaceRecord.uploadTarget_ok htarget).live
  obtain ⟨v, draws, hmint⟩ := mint_isSome hdraw (hknown u hu)
  refine ⟨v, draws, (mint_eq_some hmint).2, ?_⟩
  have hends : wrappingAdd r'.now r'.limits.stagingSecs =
      wrappingAdd r.now r.limits.stagingSecs := by
    rw [h.now, h.limits]
  have hlets : r'.LetsIn caller request g := by
    refine ⟨hwrite, (h.record.uploadTarget caller request).trans htarget, ?_⟩
    rw [h.limits]
    exact hsize
  have hquota : ¬r'.limits.quotaBytes <
      saturatingAdd (r'.held g request.inRewrite) request.size := by
    rw [h.limits, h.held hg]
    exact hquota
  have hbegins : r'.Begins caller request g _ _ :=
    .minted ((findIn_congr (h.items g hg) _).trans hnew)
      ((h.liveTicketFor caller request).trans hfirst) hquota hmint
  rw [hends] at hbegins
  exact beginUpload_ok.mpr ⟨g, hlets, hbegins⟩

omit [Crates] in
/-- A begin whose own ticket has expired already makes up another id, and there is none
when the random source gives the same one again. -/
theorem beginUpload_late {request : UploadRequest} {g ends : Nat} {u : UploadId} {begun : Begun}
    (htarget : r.record.uploadTarget caller request = .ok g)
    (hnew : findIn r.shelf g request.id.contentKey = none)
    (hfirst : r.record.liveTicketFor r.now caller request = none) (hlate : ¬r.now < ends)
    (hrecord : r'.record =
      { r.record with tickets := r.record.tickets.insert u ⟨caller.key, request, ends⟩ })
    (hshelf : ∀ g, r'.shelf.generation g = r.shelf.generation g) (hnow : r'.now = r.now)
    (hdraws : r'.draws = [u]) :
    r'.beginUpload caller request ≠ (.ok begun, r₁) := by
  intro h
  obtain ⟨g', ⟨-, htarget', -⟩, hbegins⟩ := beginUpload_ok.mp h
  rw [hrecord] at htarget'
  have hg : g' = g := Except.ok.inj (htarget'.symm.trans htarget)
  subst hg
  cases hbegins with
  | stored hfound =>
    rw [findIn_congr (hshelf g'), hnew] at hfound
    cases hfound
  | live _ hlive =>
    rw [hrecord, hnow, WorkspaceRecord.liveTicketFor_late hfirst u hlate] at hlive
    cases hlive
  | minted _ _ _ hmint =>
    obtain ⟨hmem, hknown⟩ := mint_eq_some hmint
    rw [hdraws] at hmem
    cases List.mem_singleton.mp hmem
    rw [hrecord, WorkspaceRecord.known_eq_false] at hknown
    cases (Map.get_insert_self r.record.tickets u ⟨caller.key, request, ends⟩).symm.trans hknown.1

end

/-- Whether or not the workspace is opened in between. -/
theorem Close.left {r : Rules} {limits : Limits} {left : World} {call call' : Call}
    (h : Close True r (left.rules limits call)) (hnow : call'.now = r.now)
    (hvacant : ∀ g, r.record.nextGeneration ≤ g → r.shelf.generation g = ∅)
    (hbooks : ∀ g ∈ r.record.liveGenerations, r.record.usedIn g = r.shelf.bytes g)
    (reopened : Bool) :
    Close (reopened = false) r
      ((if reopened then left.reopen limits r.now else left).rules limits call') := by
  cases reopened with
  | false => exact ⟨hnow, h.limits, h.record, fun _ => h.kept trivial, h.items⟩
  | true =>
    obtain ⟨hnow, hlimits, hrecord, -, hitems⟩ := h.reopened hnow hvacant hbooks
    exact ⟨hnow, hlimits, hrecord, fun h => absurd h (by decide), hitems⟩

theorem Alike.left {r : Rules} {limits : Limits} {left : World} {call call' : Call}
    (h : Alike True r (left.rules limits call)) (hnow : call'.now = r.now)
    (hvacant : ∀ g, r.record.nextGeneration ≤ g → r.shelf.generation g = ∅)
    (hbooks : ∀ g ∈ r.record.liveGenerations, r.record.usedIn g = r.shelf.bytes g)
    (reopened : Bool) :
    Alike (reopened = false) r
      ((if reopened then left.reopen limits r.now else left).rules limits call') := by
  refine ⟨h.toClose.left hnow hvacant hbooks reopened, ?_, ?_⟩
  · cases reopened with
    | false => exact h.staging
    | true => exact (h.reopened hnow hvacant hbooks).staging
  · cases reopened with
    | false => exact h.known
    | true => exact (h.reopened hnow hvacant hbooks).known

end Rules

/-! ## The same request again -/

section
variable [Crates] {limits : Limits} {w : World} {call : Call} {op : Op} {a : Answer}
  {r₁ : Rules}

theorem Engine.run_done (hop : op.resent = true)
    (h : op.rule (w.rules limits call) = (.ok a, r₁)) :
    Engine.run w limits call op = (.ok a, ⟨r₁.record, r₁.shelf, w.pending ++ r₁.after⟩) := by
  have hwrites : op.readsOnly = false := by
    cases op <;> first | rfl | cases hop
  rw [Engine.run, hwrites, if_neg Bool.false_ne_true, Engine.write, h]

theorem Engine.rule_of_run (h : (Engine.run w limits call op).1 = .ok a) :
    ∃ r₁, op.rule (w.rules limits call) = (.ok a, r₁) := by
  unfold Engine.run Engine.read Engine.write at h
  rcases hout : op.rule (w.rules limits call) with ⟨res, r₁⟩
  rw [hout] at h
  cases res with
  | ok b =>
    refine ⟨r₁, ?_⟩
    split at h <;> cases h <;> rfl
  | error e => split at h <;> cases h

/-- The rules at work when the request is sent again. -/
def World.second (limits : Limits) (w : World) (call : Call) (op : Op) (stop : Stop)
    (reopened : Bool) (draws : List UploadId) : Rules :=
  (if reopened then (w.stopped limits call op stop).reopen limits call.now
    else w.stopped limits call op stop).rules limits { call with draws }

/-- A request that ends as it would have ended repeats what was done. -/
theorem World.repeats_of_ends (hop : op.resent = true)
    (hrun : op.rule (w.rules limits call) = (.ok a, r₁)) {stop : Stop} {reopened : Bool}
    {draws : List UploadId}
    (h : Rules.Ends op a r₁ (reopened = false) (w.second limits call op stop reopened draws)) :
    w.RepeatsAt limits call op stop reopened draws := by
  have hnow : r₁.now = call.now := by
    have hclock := (Op.clock hop (w.rules limits call)).1
    rw [hrun] at hclock
    exact hclock
  obtain ⟨hanswer, hrecord, hkept, hitems⟩ := h
  rcases hsecond : op.rule (w.second limits call op stop reopened draws) with ⟨res, r₂⟩
  rw [hsecond] at hanswer hrecord hkept hitems
  cases hanswer
  have hretried : w.retried limits call op stop reopened draws =
      (.ok a, ⟨r₂.record, r₂.shelf, _⟩) :=
    Engine.run_done hop hsecond
  unfold RepeatsAt
  rw [Engine.run_done hop hrun, hretried]
  refine ⟨a, a, r₁.record, rfl, rfl, .same, ?_, hitems⟩
  cases reopened with
  | false => exact hkept rfl
  | true =>
    rw [hnow] at hrecord
    exact hrecord

/-- Only the publish of a commit, and the staging places of begins, are left on the shelf
by a request of which nothing is stored. -/
theorem Change.resent_shelf {r : Rules} {rec : WorkspaceRecord} {shelf : MemoryShelf}
    {after : List Cleanup} (h : Change r op a rec shelf after) (hop : op.resent = true)
    (hbegin : ∀ caller request, op ≠ .beginUpload caller request) :
    shelf = r.shelf ∨ ∃ caller u ticket g staged, op = .commitUpload caller u ∧
      a = .outcome ⟨ticket.request.id, true, ticket.request.inRewrite⟩ ∧
      rec = WorkspaceRecord.finished
        { r.record with
          used := r.record.used.insert g (r.record.usedIn g + ticket.request.size) }
        u (r.stone ticket ticket.request.id true) ∧
      r.Publish caller u ticket g staged shelf := by
  cases h with
  | published hticket htarget hstaged hsize hnew hstaging hitems =>
    exact .inr ⟨_, _, _, _, _, rfl, rfl, rfl,
      ⟨hticket, htarget, hstaged, hsize, hnew, hstaging, hitems⟩⟩
  | deleted _ _ _ _ => cases hop
  | put _ => cases hop
  | probed _ => cases hop
  | begun _ _ _ _ _ _ _ => exact absurd rfl (hbegin _ _)
  | rebegun _ _ _ _ _ => exact absurd rfl (hbegin _ _)
  | _ => exact .inl rfl

/-- A commit is answered for an outcome that is remembered or an upload that is awaited. -/
theorem Change.commit_knows {r : Rules} {caller : Caller} {u : UploadId} {rec : WorkspaceRecord}
    {shelf : MemoryShelf} {after : List Cleanup}
    (h : Change r (.commitUpload caller u) a rec shelf after) :
    (∃ stone, r.record.tombstone r.now caller u = some stone) ∨
      ∃ ticket, r.record.liveTicket r.now caller u = some ticket := by
  cases h with
  | kept hdone => cases hdone
  | replayed hstone => exact .inl ⟨_, hstone⟩
  | duplicate hticket _ _ _ => exact .inr ⟨_, hticket⟩
  | published hticket _ _ _ _ _ _ => exact .inr ⟨_, hticket⟩
  | recovered hticket _ _ _ _ => exact .inr ⟨_, hticket⟩
  | renewed _ hrenews _ => cases hrenews
  | restored _ haborts => cases haborts
  | sealed _ _ hop _ => rcases hop with hop | hop <;> cases hop

/-- What the shelf is when nothing of a request is stored. -/
theorem World.stopped_unstored (hop : op.resent = true)
    (hrun : op.rule (w.rules limits call) = (.ok a, r₁)) :
    w.stopped limits call op .before = ⟨w.record, w.shelf, []⟩ ∧
      w.stopped limits call op .unstored = ⟨w.record, r₁.shelf, []⟩ := by
  have hcut : ∀ steps, op.cutShelf (w.rules limits call) steps =
      if steps = 0 then w.shelf else (op.rule (w.rules limits call)).2.shelf := by
    cases op with
    | probeWrite caller => cases hop
    | _ => exact fun _ => rfl
  constructor
  · rw [World.stopped, hcut, if_pos rfl]
  · rw [World.stopped, hcut, if_neg (by decide), hrun]

namespace World

/-- **A request that was stored**: it recognises what it did. -/
theorem repeats_stored (hl : w.Laid) (hb : Balanced w.record w.shelf) (hop : op.resent = true)
    (hrun : op.rule (w.rules limits call) = (.ok a, r₁))
    (hends : op.dated (w.rules limits call) = true →
      call.now < wrappingAdd call.now limits.stagingSecs) (n : Nat) (reopened : Bool)
    (draws : List UploadId) : w.RepeatsAt limits call op (.stored n) reopened draws := by
  have hagain := Op.again hop rfl hrun hends
  have hb₁ := (Op.change rfl hrun).balanced hl.layout hl.vacant hb
  have hl₁ := hl.step (w.exec_step limits (.request call op))
  have hexec : w.exec limits (.request call op) = ⟨r₁.record, r₁.shelf, w.pending ++ r₁.after⟩ :=
    congrArg Prod.snd (Engine.run_done hop hrun)
  rw [hexec] at hl₁
  have hnow : r₁.now = call.now := by
    have hclock := (Op.clock hop (w.rules limits call)).1
    rw [hrun] at hclock
    exact hclock
  have hsame : ({ call with draws } : Call).now = r₁.now := hnow.symm
  have halike := (Rules.alike_stored hop hl hrun n hsame).left hsame hl₁.vacant hb₁.books reopened
  rw [hnow] at halike
  refine repeats_of_ends hop hrun (Rules.ends_stored hop hagain halike ?_)
  rintro caller request rfl
  obtain ⟨begun, hbegun, -⟩ := answering_ok hrun
  exact (Rules.beginUpload_again hbegun hends).2

/-- **A publish that was not recorded**: its commit finds it, whether or not an opening has
counted it. -/
theorem repeats_published (hl : w.Laid) (hb : Balanced w.record w.shelf) {caller : Caller}
    {u : UploadId} {ticket : Ticket} {g : Nat} {staged : Staged}
    (hrun : (Op.commitUpload caller u).rule (w.rules limits call) =
      (.ok (.outcome ⟨ticket.request.id, true, ticket.request.inRewrite⟩), r₁))
    (hrecord : r₁.record = WorkspaceRecord.finished
      { w.record with
        used := w.record.used.insert g (w.record.usedIn g + ticket.request.size) }
      u ((w.rules limits call).stone ticket ticket.request.id true))
    (hp : (w.rules limits call).Publish caller u ticket g staged r₁.shelf) (reopened : Bool)
    (draws : List UploadId) :
    w.RepeatsAt limits call (.commitUpload caller u) .unstored reopened draws := by
  have hlive : g ∈ w.record.liveGenerations := hp.target.live
  have hstone : (w.rules limits call).record.tombstone call.now caller u = none := by
    obtain ⟨b, hb, -⟩ := answering_ok hrun
    exact hp.unremembered hb
  have hends : ∀ {used : Map Nat Nat} {kept : Prop} {r' : Rules},
      used.insert g (r₁.shelf.bytes g) = w.record.used.insert g (r₁.shelf.bytes g) →
      Rules.Alike kept { w.rules limits call with
        shelf := r₁.shelf
        record := { w.record with used } } r' →
      Rules.Ends (.commitUpload caller u)
        (.outcome ⟨ticket.request.id, true, ticket.request.inRewrite⟩) r₁ kept r' := by
    intro used kept r' hused halike
    obtain ⟨r₂, hagain, hrecord₂, hshelf₂, hnow₂⟩ :=
      Rules.commitUpload_refound hp hstone (hb.books g hlive) hused
    have hrule := congrArg (answering Answer.outcome) hagain
    have hresent : (Op.commitUpload caller u).resent = true := rfl
    have hclock := (Op.clock hresent (w.rules limits call)).1
    rw [hrun] at hclock
    refine .of_agree (Op.agree rfl halike (fun _ _ h => nomatch h)) ?_ ?_ ?_ ?_
    · exact congrArg Prod.fst hrule
    · exact (congrArg (·.2.record) hrule).trans (hrecord₂.trans hrecord.symm)
    · exact (congrArg (·.2.shelf) hrule).trans hshelf₂
    · exact (congrArg (·.2.now) hrule).trans (hnow₂.trans hclock.symm)
  refine repeats_of_ends rfl hrun ?_
  unfold second
  rw [(stopped_unstored rfl hrun).2]
  cases reopened with
  | false => exact hends rfl (.redrawn _ draws)
  | true =>
    -- the opening counts the publish, as if the books had been right before it
    have hvacant : ∀ h, w.record.nextGeneration ≤ h → r₁.shelf.generation h = ∅ := by
      intro h hnext
      have hne : g ≠ h := by
        rintro rfl
        exact absurd (hl.layout.live_lt g hlive) (Nat.not_lt.mpr hnext)
      exact (hp.others hne).trans (hl.vacant h hnext)
    have halike : Rules.Alike True
        { w.rules limits call with
          shelf := r₁.shelf
          record := { w.record with used := w.record.used.insert g (r₁.shelf.bytes g) } }
        (World.rules ⟨{ w.record with used := w.record.used.insert g (r₁.shelf.bytes g) },
          r₁.shelf, []⟩ limits { call with draws }) :=
      .redrawn _ draws
    have hnow : ({ call with draws } : Call).now = call.now := rfl
    have hopened := halike.left hnow hvacant (hp.booked hb.books) true
    rw [if_pos rfl] at hopened ⊢
    have hbooked : reopen limits call.now
        ⟨{ w.record with used := w.record.used.insert g (r₁.shelf.bytes g) }, r₁.shelf, []⟩ =
        reopen limits call.now ⟨w.record, r₁.shelf, []⟩ := reopen_booked hlive
    rw [← hbooked]
    exact hends (Map.insert_same (Map.get_insert_self _ _ _)) hopened

/-- **A request of which nothing was stored**, and which made up no upload id. -/
theorem repeats_unstored (hl : w.Laid) (hb : Balanced w.record w.shelf) (hop : op.resent = true)
    (hrun : op.rule (w.rules limits call) = (.ok a, r₁))
    (hbegin : ∀ caller request, op ≠ .beginUpload caller request) {stop : Stop}
    (hstop : stop = .before ∨ stop = .unstored) (reopened : Bool) (draws : List UploadId) :
    w.RepeatsAt limits call op stop reopened draws := by
  obtain ⟨hbefore, hunstored⟩ := stopped_unstored hop hrun
  -- the shelf is as it was
  have hsame : w.stopped limits call op stop = ⟨w.record, w.shelf, []⟩ →
      w.RepeatsAt limits call op stop reopened draws := by
    intro hstopped
    have halike : Rules.Alike True (w.rules limits call)
        ((w.stopped limits call op stop).rules limits { call with draws }) := by
      rw [hstopped]
      exact .redrawn _ draws
    have hnow : ({ call with draws } : Call).now = (w.rules limits call).now := rfl
    refine repeats_of_ends hop hrun (Rules.ends_unstored hop hrun
      (halike.left hnow hl.vacant hb.books reopened) ?_)
    exact fun caller request h => absurd h (hbegin caller request)
  rcases hstop with rfl | rfl
  · exact hsame hbefore
  rcases (Op.change rfl hrun).resent_shelf hop hbegin with hshelf |
    ⟨caller, u, ticket, g, staged, rfl, rfl, hrecord, hp⟩
  · refine hsame ?_
    rw [hunstored, hshelf]
    rfl
  · exact repeats_published hl hb hrun hrecord hp reopened draws

/-- **A begin of which nothing was stored**: it is answered alike, or with another id for
the same ticket. -/
theorem repeats_begin {caller : Caller} {request : UploadRequest} (hl : w.Laid)
    (hb : Balanced w.record w.shelf)
    (hrun : (Op.beginUpload caller request).rule (w.rules limits call) = (.ok a, r₁)) {stop : Stop}
    (hstop : stop = .before ∨ stop = .unstored) (reopened : Bool) {draws : List UploadId}
    (hdraws : (Op.beginUpload caller request).minted (w.rules limits call) ≠ [] →
      ∃ u ∈ draws, w.record.known u = false) :
    w.RepeatsAt limits call (.beginUpload caller request) stop reopened draws := by
  obtain ⟨hbefore, hunstored⟩ := stopped_unstored rfl hrun
  obtain ⟨begun, hbegun, rfl⟩ := answering_ok hrun
  have hgenerations : ∀ g, r₁.shelf.generation g = w.shelf.generation g := by
    intro g
    obtain ⟨g', -, hbegins⟩ := Rules.beginUpload_ok.mp hbegun
    cases hbegins with
    | stored _ => rfl
    | live _ _ => exact w.shelf.stageCreate_generation _ g
    | minted _ _ _ _ => exact w.shelf.stageCreate_generation _ g
  have hleft : ∃ shelf, w.stopped limits call (.beginUpload caller request) stop =
      ⟨w.record, shelf, []⟩ ∧ ∀ g, shelf.generation g = w.shelf.generation g := by
    rcases hstop with rfl | rfl
    · exact ⟨_, hbefore, fun _ => rfl⟩
    · exact ⟨_, hunstored, hgenerations⟩
  obtain ⟨shelf, hstopped, hshelf⟩ := hleft
  have hclose : Rules.Close True (w.rules limits call)
      ((w.stopped limits call (.beginUpload caller request) stop).rules limits
        { call with draws }) := by
    rw [hstopped]
    exact ⟨rfl, rfl, .refl _, fun _ => rfl, fun g _ => hshelf g⟩
  have hnow : ({ call with draws } : Call).now = (w.rules limits call).now := rfl
  have hclose : Rules.Close (reopened = false) (w.rules limits call)
      (w.second limits call (.beginUpload caller request) stop reopened draws) :=
    hclose.left hnow hl.vacant hb.books reopened
  cases hdated : (Op.beginUpload caller request).dated (w.rules limits call) with
  | false =>
    have hold : ∀ g, w.record.uploadTarget caller request = .ok g →
        findIn w.shelf g request.id.contentKey = none →
        (w.record.liveTicketFor call.now caller request).isSome := by
      intro g htarget hnew
      simp only [Op.dated, rules, htarget, hnew, Option.isNone_none, Bool.true_and] at hdated
      simpa using hdated
    refine repeats_of_ends rfl hrun (.of_agree
      ((Rules.beginUpload_agree hclose hold).answering _) ?_ ?_ ?_ ?_)
    · exact congrArg Prod.fst hrun
    · exact congrArg (·.2.record) hrun
    · exact congrArg (·.2.shelf) hrun
    · exact congrArg (·.2.now) hrun
  | true =>
    obtain ⟨g, u, drawn, hlets, hnew, hfirst, hquota, hmint, rfl, rfl⟩ :=
      Rules.beginUpload_dated hbegun hdated
    have hu := WorkspaceRecord.known_eq_false.mp (mint_eq_some hmint).2
    have hminted := Rules.minted_of_begun hbegun hu.1
    obtain ⟨x, hx, hxknown⟩ := hdraws (by rw [hminted]; simp)
    have hknown : ∀ u, w.record.known u = false →
        (w.second limits call (.beginUpload caller request) stop reopened draws).record.known u =
          false := by
      intro u hu
      unfold second
      rw [hstopped]
      cases reopened with
      | false => exact hu
      | true => exact Rules.known_reopened hu
    obtain ⟨v, left, hv, hsecond⟩ := Rules.beginUpload_renamed hclose hknown hlets hnew hfirst
      hquota hx hxknown
    have hretried : w.retried limits call (.beginUpload caller request) stop reopened draws =
        (.ok _, ⟨_, _, _⟩) :=
      Engine.run_done rfl (congrArg (answering Answer.begun) hsecond)
    unfold RepeatsAt
    rw [Engine.run_done rfl hrun, hretried, hminted]
    clear hsecond hretried hrun hbegun hgenerations hunstored
    generalize wrappingAdd (w.rules limits call).now (w.rules limits call).limits.stagingSecs = ends
    have hstop : ∀ n, stop ≠ .stored n := by
      rcases hstop with rfl | rfl <;> exact fun _ => nofun
    -- the id is new to the second request, so a ticket it had is one the opening swept
    have hfresh : ∀ old : Ticket, w.record.tickets[v]? = some old → old.expiresAt ≤ call.now := by
      intro old hold
      have hswept := hclose.record.tickets v
      rw [(WorkspaceRecord.known_eq_false.mp hv).1] at hswept
      by_contra hlate
      have hlive : (w.rules limits call).now < old.expiresAt := Nat.lt_of_not_le hlate
      rw [show (w.rules limits call).record.tickets[v]? = some old from hold, Option.filter_some,
        if_pos (decide_eq_true hlive)] at hswept
      cases hswept
    have hrenamed := @UpToMinted.of_fresh call.now stop w.record u v ⟨caller.key, request, ends⟩
      hstop hu.1 hfresh
    refine ⟨_, _, _, rfl, rfl, hrenamed, ?_, ?_⟩
    · cases reopened with
      | false =>
        have hkept := hclose.kept rfl
        exact congrArg (fun rec : WorkspaceRecord =>
          { rec with tickets := rec.tickets.insert v ⟨caller.key, request, ends⟩ }) hkept
      | true => exact hclose.record.ticketed v _
    · intro g hg
      show ((w.second limits call _ stop reopened draws).shelf.stageCreate v).generation g =
        (w.shelf.stageCreate u).generation g
      rw [MemoryShelf.stageCreate_generation, MemoryShelf.stageCreate_generation]
      exact hclose.items g (.inl hg)

/-- A deadline that is not past the last second is still to come. -/
theorem repeats_of_fits (hl : w.Laid) (hb : Balanced w.record w.shelf) (hop : op.resent = true)
    (hrun : op.rule (w.rules limits call) = (.ok a, r₁))
    (hends : op.dated (w.rules limits call) = true →
      call.now < wrappingAdd call.now limits.stagingSecs) : w.Repeats limits call op := by
  intro stop reopened draws hdraws
  have hunstored : stop = .before ∨ stop = .unstored →
      w.RepeatsAt limits call op stop reopened draws := by
    intro hstop
    by_cases hbegin : ∃ caller request, op = .beginUpload caller request
    · obtain ⟨caller, request, rfl⟩ := hbegin
      exact repeats_begin hl hb hrun hstop reopened hdraws
    · refine repeats_unstored hl hb hop hrun (fun caller request h => ?_) hstop reopened draws
      exact hbegin ⟨caller, request, h⟩
  cases stop with
  | before => exact hunstored (.inl rfl)
  | unstored => exact hunstored (.inr rfl)
  | stored n => exact repeats_stored hl hb hop hrun hends n reopened draws

/-- The request, at once, on what it left. -/
theorem second_of_stored {draws : List UploadId} {a' : Answer}
    (hrun : op.rule (w.rules limits call) = (.ok a, r₁))
    (h : (w.retried limits call op (.stored 0) false draws).1 = .ok a') :
    ∃ r₂, op.rule (World.rules ⟨r₁.record, r₁.shelf, []⟩ limits { call with draws }) =
      (.ok a', r₂) := by
  have hstopped : w.stopped limits call op (.stored 0) = ⟨r₁.record, r₁.shelf, []⟩ := by
    unfold stopped
    rw [hrun]
    rfl
  change (Engine.run (w.stopped limits call op (.stored 0)) limits { call with draws } op).1 =
    .ok a' at h
  rw [hstopped] at h
  exact Engine.rule_of_run h

/-- Where the deadline has passed already, a commit finds neither its outcome nor its
upload. -/
theorem not_repeats_commit {caller : Caller} {u : UploadId} (ha : w.record.Apart)
    (hrun : (Op.commitUpload caller u).rule (w.rules limits call) = (.ok a, r₁))
    (hdated : (Op.commitUpload caller u).dated (w.rules limits call) = true)
    (hlate : ¬call.now < wrappingAdd call.now limits.stagingSecs) :
    ¬w.Repeats limits call (.commitUpload caller u) := by
  intro h
  obtain ⟨-, a', -, -, hretried, -⟩ := h (.stored 0) false [] (fun hne => absurd rfl hne)
  obtain ⟨r₂, hagain⟩ := second_of_stored hrun hretried
  obtain ⟨outcome, hcommit, rfl⟩ := answering_ok hrun
  have hfirst : (w.rules limits call).record.tombstone call.now caller u = none :=
    Option.isNone_iff_eq_none.mp hdated
  have hchange := Rules.commitUpload_change rfl hcommit
  have hstone := hchange.records hfirst
  have hnone : r₁.record.tombstone call.now caller u = none := by
    rw [WorkspaceRecord.tombstone, hstone, Option.filter_some]
    exact if_neg (by simp [rules, hlate])
  have hticket : r₁.record.liveTicket call.now caller u = none := by
    rw [WorkspaceRecord.liveTicket, hchange.apart ha u _ hstone]
    rfl
  obtain ⟨stone, hfound⟩ | ⟨ticket, hfound⟩ := (Op.change rfl hagain).commit_knows
  · rw [show r₁.record.tombstone call.now caller u = some stone from hfound] at hnone
    cases hnone
  · rw [show r₁.record.liveTicket call.now caller u = some ticket from hfound] at hticket
    cases hticket

/-- Where the deadline has passed already, a begin does not take the ticket it left for
its own. -/
theorem not_repeats_begin {caller : Caller} {request : UploadRequest}
    (hrun : (Op.beginUpload caller request).rule (w.rules limits call) = (.ok a, r₁))
    (hdated : (Op.beginUpload caller request).dated (w.rules limits call) = true)
    (hlate : ¬call.now < wrappingAdd call.now limits.stagingSecs) :
    ¬w.Repeats limits call (.beginUpload caller request) := by
  intro h
  obtain ⟨begun, hbegun, rfl⟩ := answering_ok hrun
  obtain ⟨g, u, drawn, ⟨-, htarget, -⟩, hnew, hfirst, -, hmint, -, hr⟩ :=
    Rules.beginUpload_dated hbegun hdated
  obtain ⟨-, a', -, -, hretried, -⟩ := h (.stored 0) false [u]
    fun _ => ⟨u, List.mem_singleton_self u, (mint_eq_some hmint).2⟩
  obtain ⟨r₂, hagain⟩ := second_of_stored hrun hretried
  obtain ⟨begun', hbegun', -⟩ := answering_ok hagain
  rw [hr] at hbegun'
  exact absurd hbegun' (Rules.beginUpload_late htarget hnew hfirst hlate rfl
    (fun g => w.shelf.stageCreate_generation u g) rfl rfl)

/-- Whether the request sent again ends where it would have ended is a matter of its
deadline alone. -/
theorem repeats_iff (hl : w.Laid) (hb : Balanced w.record w.shelf) (ha : w.record.Apart)
    (hop : op.resent = true) (hrun : op.rule (w.rules limits call) = (.ok a, r₁)) :
    w.Repeats limits call op ↔ (op.dated (w.rules limits call) = true →
      call.now < wrappingAdd call.now limits.stagingSecs) := by
  constructor
  · intro h hdated
    by_contra hlate
    cases op with
    | beginUpload caller request => exact not_repeats_begin hrun hdated hlate h
    | commitUpload caller u => exact not_repeats_commit ha hrun hdated hlate h
    | _ => cases hdated
  · exact repeats_of_fits hl hb hop hrun

/-- **Crash and repeat is doing it once**: in every state a run can reach with balanced
books, and for every request that succeeds there and may be sent again, if and only if the
deadline of what the request remembers fits a `u64`. -/
theorem repeats_run (limits : Limits) (es : List Event) (call : Call) (op : Op)
    (hop : op.resent = true) (hstaging : 0 < limits.stagingSecs)
    (hbound : limits.stagingSecs < u64Bound) (hnow : call.now < u64Bound)
    (hbooks : ∀ g ∈ (initial.run limits es).record.liveGenerations,
      (initial.run limits es).record.usedIn g = (initial.run limits es).shelf.bytes g)
    (hok : ∃ a, (Engine.run (initial.run limits es) limits call op).1 = .ok a) :
    (initial.run limits es).Repeats limits call op ↔
      (op.dated ((initial.run limits es).rules limits call) = true →
        call.now + limits.stagingSecs < u64Bound) := by
  obtain ⟨a, ha⟩ := hok
  obtain ⟨r₁, hrun⟩ := Engine.rule_of_run ha
  rw [repeats_iff (laid_run laid_initial es) ⟨hbooks, only_run limits es⟩ (apart_run es) hop hrun,
    wrappingAdd_later hnow hstaging hbound]

end World

end

namespace Sample

/-- An upload whose content was sent. -/
def awaiting : List Event :=
  [.request (call 0 [1]) (.beginUpload laptop (request 2 none)),
    .request (call 0 []) (.putUploadContent laptop (upload 1) [.piece [1, 2]])]

/-- The longest time a `u64` holds, which `saturating_mul` makes of too many hours. -/
def endless : Limits := { limits with stagingSecs := u64Bound - 1 }

end Sample

/-- The commit of that upload may be cut anywhere. -/
theorem World.repeats_committed :
    @World.Repeats Sample.crates Sample.limits
      (@World.run Sample.crates Sample.limits .initial Sample.awaiting) (Sample.call 5 [])
      (.commitUpload Sample.laptop (Sample.upload 1)) :=
  (@World.repeats_run Sample.crates Sample.limits Sample.awaiting (Sample.call 5 [])
    (.commitUpload Sample.laptop (Sample.upload 1)) rfl (by decide) (by decide) (by decide)
    (by decide +kernel) ⟨.outcome ⟨Sample.note, true, false⟩, by decide +kernel⟩).mpr
    (fun _ => by decide)

/-- With an endless deadline, the sum of which wraps, a begin that was stored is answered
with another ticket when it is sent again. -/
theorem World.not_repeats_wrapped :
    let op : Op := .beginUpload Sample.laptop (Sample.request 2 none)
    (∀ g ∈ World.initial.record.liveGenerations,
      World.initial.record.usedIn g = World.initial.shelf.bytes g) ∧
    (@Engine.run Sample.crates .initial Sample.endless (Sample.call 20 [1]) op).1 =
      .ok (.begun (.ticket ⟨Sample.upload 1, 19⟩)) ∧
    (@World.retried Sample.crates Sample.endless .initial (Sample.call 20 [1]) op (.stored 0) false
      [Sample.upload 2]).1 = .ok (.begun (.ticket ⟨Sample.upload 2, 19⟩)) ∧
    ¬@World.Repeats Sample.crates Sample.endless .initial (Sample.call 20 [1]) op := by
  intro op
  have hfirst : (@Engine.run Sample.crates .initial Sample.endless (Sample.call 20 [1]) op).1 =
      .ok (.begun (.ticket ⟨Sample.upload 1, 19⟩)) := by decide +kernel
  have hsecond : (@World.retried Sample.crates Sample.endless .initial (Sample.call 20 [1]) op
      (.stored 0) false [Sample.upload 2]).1 =
        .ok (.begun (.ticket ⟨Sample.upload 2, 19⟩)) := by decide +kernel
  have hunknown : World.initial.record.known (Sample.upload 2) = false := by decide +kernel
  refine ⟨by decide +kernel, hfirst, hsecond, fun h => ?_⟩
  obtain ⟨a, a', rec, hanswer, hagain, hsame, -⟩ := h (.stored 0) false [Sample.upload 2]
    fun _ => ⟨_, List.mem_singleton_self _, hunknown⟩
  rw [hfirst] at hanswer
  rw [hsecond] at hagain
  cases hanswer
  cases hsame with
  | same => exact absurd hagain (by decide)
  | renamed hstop => exact hstop 0 rfl

end Passalong
