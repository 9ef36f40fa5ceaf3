import Passalong.Record

/-!
# The rewrite session (`rewrite.rs`)

Re-encrypting every item: a session stages the next generation beside the current
one under a lease, and its commit switches a pointer.
-/

namespace Passalong

open Lib

namespace Rules

/-- Renews the open session's lease for `holder`. -/
def renewLease (r : Rules) (holder : ApiKeyId) : Rules :=
  match r.record.state with
  | .settled _ => r
  | .rewriting session =>
    { r with
      record := { r.record with
        state := .rewriting { session with
          holder
          leaseExpiresAt := wrappingAdd r.now r.limits.leaseSecs } } }

/-- What every rule that answers with the session ends with. -/
def answerSession (r : Rules) : Except ApiError SessionView × Rules :=
  match r.sessionView with
  | some view => (.ok view, r)
  | none => (.error .notFound, r)

/-- `listItemIds` with `partition=staged`. -/
def stagedItemIds (r : Rules) (caller : Caller) : Except ApiError (List ItemId) :=
  (r.record.heldSession caller).map fun session => r.shelf.ids session.stagedGeneration

/-- `getItem` with `partition=staged`. -/
def stagedItem (r : Rules) (caller : Caller) (id : ItemId) : Except ApiError StoredItem :=
  match r.record.heldSession caller with
  | .error e => .error e
  | .ok session =>
    match r.shelf.get session.stagedGeneration id with
    | some item => .ok item
    | none => .error .notFound

/-- `beginRewrite`: takes the lease and opens an empty next generation. -/
def beginRewrite (r : Rules) (caller : Caller) (request : RewriteRequest) :
    Except ApiError SessionView × Rules :=
  r.check caller.mustWrite fun _ =>
  match r.record.state with
  | .rewriting session =>
    if session.holder = caller.key ∧ session.kind = request.kind ∧
        session.next.keyId = request.newKeyId then
      (r.renewLease caller.key).answerSession
    else (.error .rewriteInProgress, r)
  | .settled prior =>
    match request.kind, prior with
    | .migrate, some _ =>
      (.error (.invalidRequest
        "the workspace is encrypted already; rotate its key instead"), r)
    | .rotate, none =>
      (.error (.invalidRequest "the workspace is not encrypted; migrate it instead"), r)
    | .migrate, none | .rotate, some _ =>
      if request.newKeyId ∈ r.record.endedRewrites then (.error .rewriteEnded, r)
      else if prior.map Seal.keyId ≠ request.expectedKeyId then (.error .keyIdMismatch, r)
      else if prior.map Seal.keyId = some request.newKeyId then
        (.error (.invalidRequest "the new key is the current one"), r)
      else
        let session : Session :=
          { kind := request.kind
            prior
            next := ⟨request.newKeyId, request.newHeader⟩
            holder := caller.key
            leaseExpiresAt := wrappingAdd r.now r.limits.leaseSecs
            stagedGeneration := r.record.nextGeneration }
        answerSession { r with
          record := { r.record with
            nextGeneration := r.record.nextGeneration + 1
            state := .rewriting session } }

/-- `heartbeatRewrite`: the holder renews its lease. -/
def heartbeatRewrite (r : Rules) (caller : Caller) : Except ApiError SessionView × Rules :=
  r.check caller.mustWrite fun _ =>
  r.check (r.record.heldSession caller) fun _ =>
  (r.renewLease caller.key).answerSession

/-- `takeOverRewrite`: once the lease has ended, another key becomes the holder. -/
def takeOverRewrite (r : Rules) (caller : Caller) : Except ApiError SessionView × Rules :=
  r.check caller.mustWrite fun _ =>
  match r.record.state with
  | .settled _ => (.error .notFound, r)
  | .rewriting session =>
    if session.holder ≠ caller.key ∧ r.now < session.leaseExpiresAt then
      (.error .leaseHeld, r)
    else (r.renewLease caller.key).answerSession

/-- Drops the uploads of a rewrite that ended. -/
def dropRewriteUploads (r : Rules) : Rules :=
  r.giveUp fun _ ticket => ticket.request.inRewrite

/-- `commitRewrite`: generation, header and key id change together. -/
def commitRewrite (r : Rules) (caller : Caller) (newKeyId : KeyId) :
    Except ApiError EncryptionView × Rules :=
  r.check caller.mustWrite fun _ =>
  match r.record.state with
  | .settled sealed =>
    if sealed.map Seal.keyId = some newKeyId then (.ok r.encryption, r)
    else (.error .notFound, r)
  | .rewriting _ =>
    r.check (r.record.heldSession caller) fun session =>
    if session.next.keyId ≠ newKeyId then (.error .keyIdMismatch, r)
    else
      let staged := (r.shelf.ids session.stagedGeneration).length
      let source := (r.shelf.ids r.record.generation).length
      if staged ≠ source then (.error (.rewriteIncomplete staged source), r)
      else
        let old := r.record.generation
        let r := dropRewriteUploads { r with
          record := { r.record with
            generation := session.stagedGeneration
            state := .settled (some session.next)
            used := r.record.used.erase old }
          after := r.after ++ [.dropGeneration old] }
        (.ok r.encryption, r)

/-- What every abort does: the workspace is again what it was, the staged
generation is rubbish, and the rewrite's new key id is ended for good. -/
def endAborted (r : Rules) (session : Session) : Except ApiError EncryptionView × Rules :=
  let r := dropRewriteUploads { r with
    record := { r.record with
      endedRewrites := insert session.next.keyId r.record.endedRewrites
      state := .settled session.prior
      used := r.record.used.erase session.stagedGeneration }
    after := r.after ++ [.dropGeneration session.stagedGeneration] }
  (.ok r.encryption, r)

/-- `abortRewrite`. -/
def abortRewrite (r : Rules) (caller : Caller) (newKeyId : KeyId) :
    Except ApiError EncryptionView × Rules :=
  r.check caller.mustWrite fun _ =>
  match r.record.state with
  | .settled _ => (.ok r.encryption, r)
  | .rewriting _ =>
    r.check (r.record.heldSession caller) fun session =>
    if session.next.keyId ≠ newKeyId then (.error .keyIdMismatch, r)
    else r.endAborted session

/-- `passalong-server rewrite abort`: the operator ends a session from the host. -/
def operatorAbortRewrite (r : Rules) (force : Bool) :
    Except ApiError EncryptionView × Rules :=
  match r.record.state with
  | .settled _ => (.error .notFound, r)
  | .rewriting session =>
    if !force ∧ r.now < session.leaseExpiresAt then (.error .leaseHeld, r)
    else r.endAborted session

end Rules

end Passalong
