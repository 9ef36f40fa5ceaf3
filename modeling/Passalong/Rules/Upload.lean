import Passalong.Record

/-!
# The upload lifecycle (`upload.rs`)

`beginUpload`, `putUploadContent`, `commitUpload`, `abortUpload`, and the
janitor. The upload id is the idempotency key: a client that lost an answer
repeats the request and gets the answer it missed.
-/

namespace Passalong

open Lib

/-- The id loop: draws until the record does not know the id. `none` when every
id drawn so far is known: the loop is drawing still. -/
def mint (known : UploadId → Bool) : List UploadId → Option (UploadId × List UploadId)
  | [] => none
  | candidate :: rest => if known candidate then mint known rest else some (candidate, rest)

/-- What is minted was drawn, and the record does not know it. -/
theorem mint_eq_some {known : UploadId → Bool} {draws rest : List UploadId} {u : UploadId}
    (h : mint known draws = some (u, rest)) : u ∈ draws ∧ known u = false := by
  induction draws with
  | nil => cases h
  | cons candidate draws ih =>
    unfold mint at h
    split at h
    · obtain ⟨hmem, hknown⟩ := ih h
      exact ⟨List.mem_cons_of_mem _ hmem, hknown⟩
    · rename_i hknown
      obtain ⟨rfl, -⟩ := Prod.mk.inj (Option.some.inj h)
      exact ⟨List.mem_cons_self, by simpa using hknown⟩

/-- A source that gives an id the record does not know lets the loop end. -/
theorem mint_isSome {known : UploadId → Bool} {draws : List UploadId} {u : UploadId}
    (hu : u ∈ draws) (hknown : known u = false) : ∃ v rest, mint known draws = some (v, rest) := by
  induction draws with
  | nil => cases hu
  | cons candidate draws ih =>
    unfold mint
    split
    · rename_i hc
      rcases List.mem_cons.mp hu with rfl | hu
      · rw [hknown] at hc
        cases hc
      · exact ih hu
    · exact ⟨_, _, rfl⟩

/-- What `putUploadContent` needs to know before it reads a byte. -/
inductive UploadState where
  /-- Content is awaited, of exactly this size. -/
  | awaiting (size : Nat)
  /-- Committed already: content sent now is acknowledged and discarded. -/
  | finished
  deriving DecidableEq, Repr

namespace Rules

/-- What the quota already holds against an upload to generation `g`. -/
def held (r : Rules) (g : Nat) (inRewrite : Bool) : Nat :=
  if inRewrite then
    -- the next generation has the quota as an allowance of its own
    saturatingAdd (r.record.usedIn g) (r.record.reservedBy r.now true)
  else
    saturatingAdd (r.record.usedBytes - r.record.stagedBytes)
      (r.record.reservedBy r.now false)

/-- `beginUpload`. -/
def beginUpload (r : Rules) (caller : Caller) (request : UploadRequest) :
    Except ApiError Begun × Rules :=
  r.check caller.mustWrite fun _ =>
  r.check (r.record.uploadTarget caller request) fun g =>
  if r.limits.maxItemBytes.any (· < request.size) then (.error .itemTooLarge, r)
  else
    match findIn r.shelf g request.id.contentKey with
    | some id =>
      -- Someone stored this content first. A ticket the caller still holds for
      -- the same request is of no use any more.
      (.ok (.stored ⟨id, false, request.inRewrite⟩),
        r.giveUp fun _ ticket => ticket.owner = caller.key && ticket.request = request)
    | none =>
      match r.record.liveTicketFor r.now caller request with
      | some (uploadId, ticket) =>
        (.ok (.ticket ⟨uploadId, ticket.expiresAt⟩),
          { r with shelf := r.shelf.stageCreate uploadId })
      | none =>
        if r.limits.quotaBytes < saturatingAdd (r.held g request.inRewrite) request.size then
          (.error .quotaExceeded, r)
        else
          match mint r.record.known r.draws with
          -- A source that only ever repeats known ids keeps the request waiting.
          -- Nothing is stored; whoever sent it is told nothing.
          | none => (.error .serviceUnavailable, { r with draws := [] })
          | some (uploadId, draws) =>
            let expiresAt := wrappingAdd r.now r.limits.stagingSecs
            (.ok (.ticket ⟨uploadId, expiresAt⟩),
              { r with
                draws
                shelf := r.shelf.stageCreate uploadId
                record := { r.record with
                  tickets := r.record.tickets.insert uploadId
                    ⟨caller.key, request, expiresAt⟩ } })

/-- Whether an upload awaits content, and how much. -/
def uploadState (r : Rules) (caller : Caller) (upload : UploadId) :
    Except ApiError UploadState :=
  match r.record.tombstone r.now caller upload with
  | some _ => .ok .finished
  | none =>
    match r.record.liveTicket r.now caller upload with
    | some ticket => .ok (.awaiting ticket.request.size)
    | none => .error .notFound

/-- Whether an upload's content is checked against its `meta`: only plaintext. -/
def checksContent (r : Rules) (request : UploadRequest) : Bool :=
  r.limits.checkPlaintextContent && request.expectedKeyId.isNone

section
variable [Crates]

/-- The one look the server takes inside `meta`: the content's SHA-256 and size
are what `meta` says, and the id's content key is the start of that SHA-256. -/
def checkPlaintext (r : Rules) (upload : UploadId) (request : UploadRequest) :
    Except ApiError Unit :=
  match Crates.readMeta request.metaJson with
  | none => .error .contentMismatch
  | some fields =>
    match r.shelf.stageDigest upload, fields.sha256, fields.size with
    | some digest, some saidSha, some saidSize =>
      if digest.hex = saidSha ∧ saidSize = request.size ∧
          request.id.contentKey = digest.contentKey then .ok ()
      else .error .contentMismatch
    | _, _, _ => .error .contentMismatch

/-- `putUploadContent`. Before the commit it replaces what was sent before; after
it, it is acknowledged and the content discarded. -/
def putUploadContent (r : Rules) (caller : Caller) (upload : UploadId) (content : Source) :
    Except ApiError Unit × Rules :=
  match r.record.tombstone r.now caller upload with
  | some _ => (.ok (), r)
  | none =>
    match r.record.liveTicket r.now caller upload with
    | none => (.error .notFound, r)
    | some ticket =>
      let announced := ticket.request.size
      let (written, shelf) :=
        if r.checksContent ticket.request then
          r.shelf.stageWriteHashed upload content announced
        else r.shelf.stageWrite upload content announced
      (written.map fun _ => (), { r with shelf })

/-- Records an upload's outcome: the ticket goes, the outcome stays for replays,
and what is left of the staging place is removed once the record is stored. -/
def finishUpload (r : Rules) (upload : UploadId) (ticket : Ticket) (id : ItemId)
    (created : Bool) : PutOutcome × Rules :=
  let outcome : PutOutcome := ⟨id, created, ticket.request.inRewrite⟩
  (outcome,
    { r with
      after := r.after ++ [.removeStaging upload]
      record := { r.record with
        tickets := r.record.tickets.erase upload
        tombstones := r.record.tombstones.insert upload
          ⟨ticket.owner, outcome, wrappingAdd r.now r.limits.stagingSecs⟩ } })

/-- Adds to the books of a generation. -/
def addUsed (r : Rules) (g : Nat) (bytes : Nat) : Rules :=
  { r with record := { r.record with used := r.record.used.insert g (r.record.usedIn g + bytes) } }

/-- The part of `commitUpload` after the looks at the staging place: deduplicates,
and publishes. -/
def settleUpload (r : Rules) (upload : UploadId) (ticket : Ticket) (g : Nat) :
    Except ApiError PutOutcome × Rules :=
  match findIn r.shelf g ticket.request.id.contentKey with
  | some id =>
    let (outcome, r) := r.finishUpload upload ticket id false
    (.ok outcome, r)
  | none =>
    let envelope : Envelope :=
      ⟨ticket.request.metaJson, ticket.request.expectedKeyId, r.now⟩
    match r.shelf.publish upload g ticket.request.id envelope with
    | (.error e, shelf) => (.error e, { r with shelf })
    | (.ok _, shelf) =>
      let r := ({ r with shelf } : Rules).addUsed g ticket.request.size
      let (outcome, r) := r.finishUpload upload ticket ticket.request.id true
      (.ok outcome, r)

/-- `commitUpload`: checks, deduplicates, and publishes, all under the workspace
lock. -/
def commitUpload (r : Rules) (caller : Caller) (upload : UploadId) :
    Except ApiError PutOutcome × Rules :=
  match r.record.tombstone r.now caller upload with
  | some stone => (.ok stone.outcome, r)
  | none =>
    match r.record.liveTicket r.now caller upload with
    | none => (.error .notFound, r)
    | some ticket =>
      r.check (r.record.uploadTarget caller ticket.request) fun g =>
      let staged := r.shelf.stageSize upload
      if staged = none ∧
          (r.shelf.get g ticket.request.id).any (·.size = ticket.request.size) then
        -- The staging place is gone though the upload never finished: an earlier
        -- commit published the item and died before it could record that.
        let r := { r with
          record := { r.record with used := r.record.used.insert g (r.shelf.bytes g) } }
        let (outcome, r) := r.finishUpload upload ticket ticket.request.id true
        (.ok outcome, r)
      else if staged ≠ some ticket.request.size then (.error .contentMismatch, r)
      else if r.checksContent ticket.request then
        r.check (r.checkPlaintext upload ticket.request) fun _ =>
        r.settleUpload upload ticket g
      else r.settleUpload upload ticket g

end

/-- `abortUpload`. Succeeds whether or not there was anything to abort. -/
def abortUpload (r : Rules) (caller : Caller) (upload : UploadId) :
    Except ApiError Unit × Rules :=
  (.ok (), r.giveUp fun u ticket => u = upload && ticket.owner = caller.key)

/-- `probeWrite`'s checks: the role, and that no rewrite is open. -/
def probeAllowed (r : Rules) (caller : Caller) : Except ApiError Unit :=
  match caller.mustWrite with
  | .error e => .error e
  | .ok _ =>
    match r.record.state with
    | .rewriting _ => .error .rewriteInProgress
    | .settled _ => .ok ()

/-- `probeWrite`: whether this key could store an item now, without storing one.
A staging place is made and removed again. -/
def probeWrite (r : Rules) (caller : Caller) : Except ApiError Unit × Rules :=
  r.check (r.probeAllowed caller) fun _ =>
  match r.draws with
  | [] => (.error .serviceUnavailable, r)
  | probe :: draws =>
    (.ok (), { r with draws, shelf := (r.shelf.stageCreate probe).stageRemove probe })

/-- `cleanStaging`, which the janitor also runs unasked: forgets expired uploads
and outcomes, and asks for the removal of what interrupted changes left. -/
def cleanStaging (r : Rules) : Except ApiError Nat × Rules :=
  let tickets := r.record.tickets.filter fun _ ticket => r.now < ticket.expiresAt
  let tombstones := r.record.tombstones.filter fun _ stone => r.now < stone.expiresAt
  let orphans := r.shelf.staged.filter fun upload => !tickets.contains upload
  let dead := r.shelf.generations.filter fun g => !r.record.liveGenerations.contains g
  (.ok orphans.length,
    { r with
      record := { r.record with
        tickets
        tombstones
        used := r.record.used.filter fun g _ => !dead.contains g }
      after := r.after ++ orphans.map .removeStaging ++ dead.map .dropGeneration })

/-- What a workspace needs when it is opened: the bytes the quota counts are taken
from the shelf, and what nothing points to is removed. -/
def reconcile (r : Rules) : Except ApiError Unit × Rules :=
  let used := r.record.liveGenerations.foldl
    (fun used g => used.insert g (r.shelf.bytes g)) r.record.used
  match ({ r with record := { r.record with used } } : Rules).cleanStaging with
  | (.ok _, r) => (.ok (), r)
  | (.error e, r) => (.error e, r)

end Rules

end Passalong
