import Passalong.Shelf

/-!
# The record of one workspace (`ledger/mod.rs`, `workspace.rs`, `upload.rs`, `rewrite.rs`)

The data the rules remember between requests, and the requests and answers they
deal in. The record's two maps of uploads stand in it directly, where the source
has them in a record of their own. Texts for logs and the fields of `getWorkspace`
that no rule reads are left out.
-/

namespace Passalong

open Lib

/-! ## Callers and limits -/

/-- What an API key may do. -/
inductive Role where
  | readWrite
  | readOnly
  deriving DecidableEq, Repr

/-- Who makes a request: the API key the authentication layer accepted. -/
structure Caller where
  key : ApiKeyId
  role : Role
  deriving DecidableEq, Repr

def Caller.mustWrite (caller : Caller) : Except ApiError Unit :=
  match caller.role with
  | .readWrite => .ok ()
  | .readOnly => .error .forbiddenRole

/-- The limits of one workspace, from the configuration. -/
structure Limits where
  quotaBytes : Nat
  /-- `none` is "unlimited". -/
  maxItemBytes : Option Nat
  /-- How long an upload ticket lives, and how long a committed upload's outcome
  is remembered for replays. -/
  stagingSecs : Nat
  /-- How long a rewrite session's lease lasts without a heartbeat. -/
  leaseSecs : Nat
  /-- Whether, in a plaintext workspace, a commit checks the content against its
  `meta` and the id. -/
  checkPlaintextContent : Bool
  deriving DecidableEq, Repr

/-- Which items a request means. -/
inductive Partition where
  | current
  | plain
  deriving DecidableEq, Repr

/-! ## Encryption and the rewrite session -/

/-- A workspace's key id and header while it is sealed. -/
structure Seal where
  keyId : KeyId
  header : Bytes
  deriving DecidableEq, Repr

inductive RewriteKind where
  | migrate
  | rotate
  deriving DecidableEq, Repr

/-- An open rewrite session. -/
structure Session where
  kind : RewriteKind
  /-- The seal before the rewrite, which readers still go by and which an abort
  restores; `none` for a migration. -/
  prior : Option Seal
  next : Seal
  holder : ApiKeyId
  leaseExpiresAt : Nat
  stagedGeneration : Nat
  deriving DecidableEq, Repr

/-- A workspace's encryption. -/
inductive State where
  /-- `none` is plaintext. -/
  | settled (sealed : Option Seal)
  | rewriting (session : Session)
  deriving DecidableEq, Repr

/-- `beginRewrite`'s request. -/
structure RewriteRequest where
  kind : RewriteKind
  expectedKeyId : Option KeyId
  newKeyId : KeyId
  newHeader : Bytes
  deriving DecidableEq, Repr

/-! ## Uploads -/

/-- `beginUpload`'s request. -/
structure UploadRequest where
  id : ItemId
  metaJson : Bytes
  size : Nat
  /-- The data key the item is made under; `none` for plaintext. -/
  expectedKeyId : Option KeyId
  /-- Whether this stages an item of the open rewrite's next generation. -/
  inRewrite : Bool
  deriving DecidableEq, Repr

/-- An upload the server is ready to receive. -/
structure UploadTicket where
  uploadId : UploadId
  expiresAt : Nat
  deriving DecidableEq, Repr

/-- The stored item, and whether this upload made it. -/
structure PutOutcome where
  id : ItemId
  /-- `false` when identical content was already stored. -/
  created : Bool
  /-- Whether the item is one of an open rewrite's next generation. -/
  staged : Bool
  deriving DecidableEq, Repr

/-- `beginUpload`'s answer. -/
inductive Begun where
  | ticket (ticket : UploadTicket)
  | stored (outcome : PutOutcome)
  deriving DecidableEq, Repr

structure Ticket where
  owner : ApiKeyId
  request : UploadRequest
  expiresAt : Nat
  deriving DecidableEq, Repr

structure Tombstone where
  owner : ApiKeyId
  outcome : PutOutcome
  expiresAt : Nat
  deriving DecidableEq, Repr

/-! ## The record -/

/-- Everything the rules remember about one workspace. The items are not here:
the shelf is their only record. -/
@[ext] structure WorkspaceRecord where
  state : State
  /-- The generation that holds the workspace's items. -/
  generation : Nat
  /-- The generation a fresh start set aside, if it held anything. -/
  plain : Option Nat
  nextGeneration : Nat
  /-- Bytes published per live generation, as the quota counts them. -/
  used : Map Nat Nat
  tickets : Map UploadId Ticket
  tombstones : Map UploadId Tombstone
  /-- The new key ids of aborted rewrites, kept for good. -/
  endedRewrites : Finset KeyId

namespace WorkspaceRecord

/-- A new workspace: plaintext and empty. -/
def initial : WorkspaceRecord where
  state := .settled none
  generation := 0
  plain := none
  nextGeneration := 1
  used := ∅
  tickets := ∅
  tombstones := ∅
  endedRewrites := ∅

variable (rec : WorkspaceRecord)

/-- The seal readers and ordinary writers go by: during a rewrite, the one before
it. -/
def seal? : Option Seal :=
  match rec.state with
  | .settled sealed => sealed
  | .rewriting session => session.prior

/-- The key id of that seal. -/
def keyId : Option KeyId := rec.seal?.map Seal.keyId

/-- The open session's staged generation, if a session is open. -/
def stagedGeneration : Option Nat :=
  match rec.state with
  | .settled _ => none
  | .rewriting session => some session.stagedGeneration

def generationOf : Partition → Option Nat
  | .current => some rec.generation
  | .plain => rec.plain

/-- The generations the workspace points to. -/
def liveGenerations : List Nat :=
  rec.generation :: (rec.plain.toList ++ rec.stagedGeneration.toList)

/-- What the books say a generation holds; no entry is nothing. -/
def usedIn (g : Nat) : Nat := rec.used[g]?.getD 0

/-- Bytes published in every generation the workspace still points to. -/
def usedBytes : Nat := (rec.liveGenerations.map rec.usedIn).sum

/-- Bytes published in the open rewrite's next generation. -/
def stagedBytes : Nat :=
  match rec.state with
  | .rewriting session => rec.usedIn session.stagedGeneration
  | .settled _ => 0

/-- Bytes promised to live uploads: those of a rewrite, or the others. -/
def reservedBy (now : Nat) (inRewrite : Bool) : Nat :=
  (((Map.vals rec.tickets).filter fun ticket =>
    now < ticket.expiresAt && ticket.request.inRewrite == inRewrite).map
      fun ticket => ticket.request.size).sum

/-- Refuses ordinary writes during a rewrite, and writes made under a key id
other than the workspace's. -/
def checkWritable (expected : Option KeyId) : Except ApiError Unit :=
  match rec.state with
  | .rewriting _ => .error .rewriteInProgress
  | .settled sealed =>
    if sealed.map Seal.keyId = expected then .ok () else .error .keyIdMismatch

/-- The open session, for its holder. -/
def heldSession (caller : Caller) : Except ApiError Session :=
  match rec.state with
  | .settled _ => .error .notFound
  | .rewriting session =>
    if session.holder ≠ caller.key then .error .leaseHeld else .ok session

/-- The generation an upload of the open rewrite goes to. -/
def rewriteTarget (caller : Caller) (expected : Option KeyId) : Except ApiError Nat :=
  match rec.heldSession caller with
  | .error e => .error e
  | .ok session =>
    if expected ≠ some session.next.keyId then .error .keyIdMismatch
    else .ok session.stagedGeneration

/-- Where an upload goes, if it may go anywhere. Checked when the upload begins
and again when it commits. -/
def uploadTarget (caller : Caller) (request : UploadRequest) : Except ApiError Nat :=
  if request.inRewrite then rec.rewriteTarget caller request.expectedKeyId
  else
    match rec.checkWritable request.expectedKeyId with
    | .error e => .error e
    | .ok _ => .ok rec.generation

/-- The caller's unexpired ticket of an upload. -/
def liveTicket (now : Nat) (caller : Caller) (upload : UploadId) : Option Ticket :=
  rec.tickets[upload]?.filter fun ticket =>
    ticket.owner = caller.key && now < ticket.expiresAt

/-- The caller's unexpired outcome of an upload. -/
def tombstone (now : Nat) (caller : Caller) (upload : UploadId) : Option Tombstone :=
  rec.tombstones[upload]?.filter fun stone =>
    stone.owner = caller.key && now < stone.expiresAt

/-- The first live ticket the caller holds for a request. -/
def liveTicketFor (now : Nat) (caller : Caller) (request : UploadRequest) :
    Option (UploadId × Ticket) :=
  rec.tickets.toList.find? fun e =>
    now < e.2.expiresAt && (e.2.owner = caller.key && e.2.request = request)

/-- Whether the record knows an upload id, as an upload in flight or as a
remembered outcome. -/
def known (upload : UploadId) : Bool :=
  rec.tickets.contains upload || rec.tombstones.contains upload

end WorkspaceRecord

/-! ## Rules at work -/

/-- A destructive shelf step, asked for by a rule and performed once the record is
stored. -/
inductive Cleanup where
  | dropGeneration (generation : Nat)
  | removeStaging (upload : UploadId)
  deriving DecidableEq, Repr

/-- The rules of one workspace, at work on its record. -/
structure Rules where
  record : WorkspaceRecord
  shelf : MemoryShelf
  /-- What the clock shows. -/
  now : Nat
  /-- The upload ids the random source will give, in order. -/
  draws : List UploadId
  limits : Limits
  /-- What to remove from the shelf once the record is safely stored. -/
  after : List Cleanup

/-- A session as `getRewrite` reports it. -/
structure SessionView where
  kind : RewriteKind
  holder : ApiKeyId
  leaseExpiresAt : Nat
  newKeyId : KeyId
  newHeader : Bytes
  /-- The ids already staged, newest first. -/
  stagedIds : List ItemId
  /-- How many items the source generation holds. -/
  sourceItems : Nat
  deriving DecidableEq, Repr

inductive EncryptionState where
  | plaintext
  | sealed
  | rewriting
  deriving DecidableEq, Repr

/-- `getWorkspace`'s `encryption`. -/
structure EncryptionView where
  state : EncryptionState
  keyId : Option KeyId
  header : Option Bytes
  rewrite : Option SessionView
  deriving DecidableEq, Repr

namespace Rules

/-- The `?` operator: goes on with what a check gives, or stops with its refusal
and the work so far. -/
def check {α β : Type} (r : Rules) (c : Except ApiError α)
    (next : α → Except ApiError β × Rules) : Except ApiError β × Rules :=
  match c with
  | .ok a => next a
  | .error e => (.error e, r)

/-- `getRewrite`. -/
def sessionView (r : Rules) : Option SessionView :=
  match r.record.state with
  | .settled _ => none
  | .rewriting session => some
    { kind := session.kind
      holder := session.holder
      leaseExpiresAt := session.leaseExpiresAt
      newKeyId := session.next.keyId
      newHeader := session.next.header
      stagedIds := r.shelf.ids session.stagedGeneration
      sourceItems := (r.shelf.ids r.record.generation).length }

/-- `getWorkspace`: the encryption part. -/
def encryption (r : Rules) : EncryptionView where
  state :=
    match r.record.state, r.record.seal? with
    | .rewriting _, _ => .rewriting
    | .settled _, some _ => .sealed
    | .settled _, none => .plaintext
  keyId := r.record.seal?.map Seal.keyId
  header := r.record.seal?.map Seal.header
  rewrite := r.sessionView

/-- Takes away the tickets `p` picks, and asks for their staging places to be
removed: what a repeated begin, an abort and the end of a rewrite do. -/
def giveUp (r : Rules) (p : UploadId → Ticket → Bool) : Rules :=
  { r with
    record := { r.record with tickets := r.record.tickets.filter fun u t => !p u t }
    after := r.after ++ (r.record.tickets.filter p).keys.map .removeStaging }

/-- A check that stops, or goes on. -/
theorem check_cases {α β : Type} {r : Rules} {c : Except ApiError α}
    {next : α → Except ApiError β × Rules} {out : Except ApiError β × Rules}
    (h : r.check c next = out) :
    (∃ e, c = .error e ∧ out = (.error e, r)) ∨ (∃ a, c = .ok a ∧ next a = out) := by
  cases c with
  | error e => exact .inl ⟨e, rfl, h.symm⟩
  | ok a => exact .inr ⟨a, rfl, h⟩

end Rules

end Passalong
