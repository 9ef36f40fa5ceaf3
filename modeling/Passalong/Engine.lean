import Passalong.Lib.Runs
import Passalong.Rules.Workspace
import Passalong.Rules.Rewrite
import Passalong.Rules.Upload

/-!
# The engine, and runs of a workspace (`workspace.rs`, `Engine`)

`Engine.write` runs a rule as one ledger transaction: its edits of the record are
stored only when it succeeds, and only then are its clean-ups issued. A `World`
is one workspace between such steps: the stored record, the shelf, and the
clean-ups that were issued and not yet performed.

What can happen to it is an `Event`:

- `request`: an operation runs and is answered;
- `cut`: an operation's rule runs and the process stops before the record is
  stored, after some of the rule's shelf steps;
- `cleanup`: a pending clean-up is performed, at any later time and in any order;
- `lose`: a pending clean-up is lost, because the process that owed it stopped;
- `lateWrite`: a put writes that looked at the record at some earlier time. Puts
  run outside any transaction, so what they were told may be out of date.

A reopening is the request `reconcile`, preceded by the losses of the process
that stopped. `World.run` is a whole run: `exec` over a list of events. Requests
carry the clock and the ids the random source gives, so a run is a function of
its events, and may be evaluated.
-/

namespace Passalong

open Lib

/-- The API operations that change anything, with their arguments, and what an
engine runs by itself. -/
inductive Op where
  | deleteItem (caller : Caller) (partition : Partition) (id : ItemId) (expected : Option KeyId)
  | enableEncryption (caller : Caller) (keyId : KeyId) (header : Bytes)
  | freshStart (caller : Caller) (keyId : KeyId) (header : Bytes)
  | replaceHeader (caller : Caller) (expected : KeyId) (header : Bytes)
  | beginUpload (caller : Caller) (request : UploadRequest)
  | putUploadContent (caller : Caller) (upload : UploadId) (content : Source)
  | commitUpload (caller : Caller) (upload : UploadId)
  | abortUpload (caller : Caller) (upload : UploadId)
  | probeWrite (caller : Caller)
  | beginRewrite (caller : Caller) (request : RewriteRequest)
  | heartbeatRewrite (caller : Caller)
  | takeOverRewrite (caller : Caller)
  | commitRewrite (caller : Caller) (newKeyId : KeyId)
  | abortRewrite (caller : Caller) (newKeyId : KeyId)
  | operatorAbortRewrite (force : Bool)
  | cleanStaging
  | reconcile
  deriving DecidableEq, Repr

/-- What an operation answers when it succeeds. -/
inductive Answer where
  | item (item : StoredItem)
  | encryption (view : EncryptionView)
  | session (view : SessionView)
  | begun (begun : Begun)
  | outcome (outcome : PutOutcome)
  | count (n : Nat)
  | done
  deriving DecidableEq, Repr

/-- What of an operation's context is not its arguments: the clock, and what the
random source gives. -/
structure Call where
  now : Nat
  draws : List UploadId
  deriving DecidableEq, Repr

/-- One workspace between two steps. -/
structure World where
  /-- The record as the ledger holds it. -/
  record : WorkspaceRecord
  shelf : MemoryShelf
  /-- The clean-ups issued and not yet performed. -/
  pending : List Cleanup

/-- A new workspace over an empty shelf. -/
def World.initial : World := ⟨.initial, .empty, []⟩

/-- What a rule is given to work on. -/
def World.rules (w : World) (limits : Limits) (call : Call) : Rules where
  record := w.record
  shelf := w.shelf
  now := call.now
  draws := call.draws
  limits := limits
  after := []

/-- Performs a clean-up. -/
def Cleanup.perform (s : MemoryShelf) : Cleanup → MemoryShelf
  | .dropGeneration g => s.dropGeneration g
  | .removeStaging u => s.stageRemove u

namespace Engine

/-- Runs a rule in a transaction; its changes to the record are stored only when
it succeeds. -/
def write {α : Type} (w : World) (limits : Limits) (call : Call)
    (rule : Rules → Except ApiError α × Rules) : Except ApiError α × World :=
  match rule (w.rules limits call) with
  | (.ok answer, r) => (.ok answer, ⟨r.record, r.shelf, w.pending ++ r.after⟩)
  | (.error e, r) => (.error e, ⟨w.record, r.shelf, w.pending⟩)

/-- Runs a rule on a copy of the record and stores nothing. -/
def read {α : Type} (w : World) (limits : Limits) (call : Call)
    (rule : Rules → Except ApiError α × Rules) : Except ApiError α × World :=
  let (answer, r) := rule (w.rules limits call)
  (answer, ⟨w.record, r.shelf, w.pending⟩)

end Engine

/-- Turns a rule's own answer into one of the answers of all operations. -/
def answering {α : Type} (f : α → Answer) (out : Except ApiError α × Rules) :
    Except ApiError Answer × Rules :=
  (out.1.map f, out.2)

section
variable [Crates]

/-- The rule an operation runs. -/
def Op.rule : Op → Rules → Except ApiError Answer × Rules
  | .deleteItem caller partition id expected, r =>
    answering .item (r.deleteItem caller partition id expected)
  | .enableEncryption caller keyId header, r =>
    answering .encryption (r.enableEncryption caller keyId header)
  | .freshStart caller keyId header, r =>
    answering .encryption (r.freshStart caller keyId header)
  | .replaceHeader caller expected header, r =>
    answering .encryption (r.replaceHeader caller expected header)
  | .beginUpload caller request, r => answering .begun (r.beginUpload caller request)
  | .putUploadContent caller upload content, r =>
    answering (fun _ => .done) (r.putUploadContent caller upload content)
  | .commitUpload caller upload, r => answering .outcome (r.commitUpload caller upload)
  | .abortUpload caller upload, r => answering (fun _ => .done) (r.abortUpload caller upload)
  | .probeWrite caller, r => answering (fun _ => .done) (r.probeWrite caller)
  | .beginRewrite caller request, r => answering .session (r.beginRewrite caller request)
  | .heartbeatRewrite caller, r => answering .session (r.heartbeatRewrite caller)
  | .takeOverRewrite caller, r => answering .session (r.takeOverRewrite caller)
  | .commitRewrite caller newKeyId, r =>
    answering .encryption (r.commitRewrite caller newKeyId)
  | .abortRewrite caller newKeyId, r =>
    answering .encryption (r.abortRewrite caller newKeyId)
  | .operatorAbortRewrite force, r => answering .encryption (r.operatorAbortRewrite force)
  | .cleanStaging, r => answering .count r.cleanStaging
  | .reconcile, r => answering (fun _ => .done) r.reconcile

/-- Which operations an engine runs outside any transaction. -/
def Op.readsOnly : Op → Bool
  | .putUploadContent .. | .probeWrite _ => true
  | _ => false

/-- Runs an operation. -/
def Engine.run (w : World) (limits : Limits) (call : Call) (op : Op) :
    Except ApiError Answer × World :=
  if op.readsOnly then Engine.read w limits call op.rule
  else Engine.write w limits call op.rule

/-- The shelf an operation leaves when it is cut after so many of its shelf steps.
Only a probe takes two. -/
def Op.cutShelf (r : Rules) (steps : Nat) : Op → MemoryShelf
  | .probeWrite caller =>
    match steps, r.draws with
    | 1, probe :: _ =>
      match r.probeAllowed caller with
      | .ok _ => r.shelf.stageCreate probe
      | .error _ => r.shelf
    | _, _ => r.shelf
  | op => if steps = 0 then r.shelf else (op.rule r).2.shelf

/-- The upload ids an operation makes up: that of a new ticket, or of a probe. -/
def Op.minted (r : Rules) : Op → List UploadId
  | .beginUpload caller request =>
    match (r.beginUpload caller request).1 with
    | .ok (.ticket ticket) =>
      if r.record.tickets.contains ticket.uploadId then [] else [ticket.uploadId]
    | _ => []
  | .probeWrite caller =>
    match r.probeAllowed caller with
    | .ok _ => r.draws.take 1
    | .error _ => []
  | _ => []

/-- What can happen to a workspace. -/
inductive Event where
  | request (call : Call) (op : Op)
  | cut (call : Call) (op : Op) (steps : Nat)
  | cleanup (i : Nat)
  | lose (i : Nat)
  | lateWrite (upload : UploadId) (content : Source) (announced : Nat) (hashed : Bool)
  deriving DecidableEq, Repr

/-- What the clock shows at an event, where the event looks at it. -/
def Event.times : Event → List Nat
  | .request call _ | .cut call _ _ => [call.now]
  | _ => []

namespace World

/-- One event. -/
def exec (limits : Limits) (w : World) : Event → World
  | .request call op => (Engine.run w limits call op).2
  | .cut call op steps => { w with shelf := op.cutShelf (w.rules limits call) steps }
  | .cleanup i =>
    match w.pending[i]? with
    | some c => { w with shelf := c.perform w.shelf, pending := w.pending.eraseIdx i }
    | none => w
  | .lose i => { w with pending := w.pending.eraseIdx i }
  | .lateWrite upload content announced hashed =>
    { w with shelf := (w.shelf.write upload content announced hashed).2 }

/-- A whole run. -/
def run (limits : Limits) : World → List Event → World := Runs.run (exec limits)

/-- The upload ids an event makes up. -/
def minted (limits : Limits) (w : World) : Event → List UploadId
  | .request call op | .cut call op _ => op.minted (w.rules limits call)
  | _ => []

/-- The upload ids made up in a whole run, in order. -/
def mintedIn (limits : Limits) : World → List Event → List UploadId :=
  Runs.history (exec limits) (minted limits)

end World

end

/-! ## Small values, for runs that are evaluated -/

namespace Sample

/-- Stands for the crates in runs where nothing is hashed and no `meta` is read. -/
@[reducible] def crates : Crates := ⟨fun _ => ⟨0⟩, fun _ => none⟩

def laptop : Caller := ⟨⟨"laptop"⟩, .readWrite⟩

def phone : Caller := ⟨⟨"phone"⟩, .readWrite⟩

def keyA : KeyId := ⟨[10], by decide⟩

def keyB : KeyId := ⟨[11], by decide⟩

def note : ItemId := ⟨1, 7⟩

def upload (n : Fin (2 ^ 128)) : UploadId := ⟨n⟩

/-- A request at a time at which the random source gives the ids of these numbers. -/
def call (now : Nat) (draws : List (Fin (2 ^ 128))) : Call := ⟨now, draws.map upload⟩

/-- An ordinary upload of `note`. -/
def request (size : Nat) (key : Option KeyId) : UploadRequest := ⟨note, [], size, key, false⟩

/-- An upload of `note` to the next generation of a rewrite. -/
def restaged (size : Nat) (key : KeyId) : UploadRequest := ⟨note, [], size, some key, true⟩

/-- A small quota, short times, and no plaintext check. -/
def limits : Limits where
  quotaBytes := 10
  maxItemBytes := none
  stagingSecs := 10
  leaseSecs := 10
  checkPlaintextContent := false

end Sample

end Passalong
