import Passalong.Lib.Calls
import Passalong.Answers
import Passalong.Conformance

/-!
# The rules over any shelf (`workspace.rs`, `rewrite.rs`, `upload.rs`)

The source writes the rules against the `ItemShelf` trait: what a rule knows of a shelf is
what its calls are answered. Here each rule is such a program, over the calls of the
trait. A `Work` is a rule's state without the shelf.

- `MemoryShelf.serve` and `FsShelf.serve`: the two shelves as servers of the trait, which
  are alike (`FsShelf.serve_alike`);
- `Op.program`: the rule of an operation.
-/

namespace Passalong

open Lib

/-! ## The trait as an interface -/

/-- What a call of the trait answers when it succeeds. -/
def ShelfCall.Answer : ShelfCall → Type
  | .stageCreate _ | .stageRemove _ | .dropGeneration _ => Unit
  | .stageWrite .. | .stageWriteHashed .. | .bytes _ => Nat
  | .stageDigest _ => Option Digest
  | .stageSize _ => Option Nat
  | .staged => List UploadId
  | .publish .. => Bool
  | .get .. | .remove .. => Option StoredItem
  | .openContent .. | .openContentFrom .. => Option Bytes
  | .ids _ => List ItemId
  | .generations => List Nat

/-- A program over the calls of the trait. -/
abbrev ShelfProgram (α : Type) : Type := Calls ShelfCall ShelfCall.Answer ApiError α

section
variable [Crates]

/-- The shelf in memory as a server of the trait. -/
def MemoryShelf.serve : Server ShelfCall ShelfCall.Answer ApiError MemoryShelf
  | .stageCreate upload, s => (.ok (), s.stageCreate upload)
  | .stageWrite upload content announced, s => s.stageWrite upload content announced
  | .stageWriteHashed upload content announced, s => s.stageWriteHashed upload content announced
  | .stageDigest upload, s => (.ok (s.stageDigest upload), s)
  | .stageSize upload, s => (.ok (s.stageSize upload), s)
  | .stageRemove upload, s => (.ok (), s.stageRemove upload)
  | .staged, s => (.ok s.staged, s)
  | .publish upload generation id envelope, s => s.publish upload generation id envelope
  | .get generation id, s => (.ok (s.get generation id), s)
  | .openContent generation id, s => (.ok (s.openContentFrom generation id 0), s)
  | .openContentFrom generation id offset, s => (.ok (s.openContentFrom generation id offset), s)
  | .ids generation, s => (.ok (s.ids generation), s)
  | .remove generation id, s => (.ok (s.remove generation id).1, (s.remove generation id).2)
  | .dropGeneration generation, s => (.ok (), s.dropGeneration generation)
  | .generations, s => (.ok s.generations, s)
  | .bytes generation, s => (.ok (s.bytes generation), s)

variable [ServerJson]

/-- The shelf in a directory as a server of the trait. -/
def FsShelf.serve : Server ShelfCall ShelfCall.Answer ApiError FsShelf
  | .stageCreate upload => stageCreate upload
  | .stageWrite upload content announced => write upload content announced false
  | .stageWriteHashed upload content announced => write upload content announced true
  | .stageDigest upload => stageDigest upload
  | .stageSize upload => stageSize upload
  | .stageRemove upload => stageRemove upload
  | .staged => staged
  | .publish upload generation id envelope => publish upload generation id envelope
  | .get generation id => get generation id
  | .openContent generation id => openContentFrom generation id 0
  | .openContentFrom generation id offset => openContentFrom generation id offset
  | .ids generation => ids generation
  | .remove generation id => remove generation id
  | .dropGeneration generation => dropGeneration generation
  | .generations => generations
  | .bytes generation => bytes generation

omit [Crates] in
theorem FsShelf.alike_of {α : Type} {out : Except ApiError α × FsShelf}
    {answer : Except ApiError α} {fs : FsShelf} {s : MemoryShelf} (h : out = (answer, fs))
    (hholds : Holds fs.disk s) : out.1 = answer ∧ Holds out.2.disk s := by
  rw [h]
  exact ⟨rfl, hholds⟩

/-- **The two are alike**, as far as the numbers of a call are in range. -/
theorem FsShelf.serve_alike (hjson : ReadsBack) :
    Calls.Alike (fun fs s => Holds fs.disk s) ShelfCall.InRange FsShelf.serve
      MemoryShelf.serve := by
  intro call fs s hrange h
  cases call with
  | stageCreate u =>
    obtain ⟨disk, hsteps, hholds⟩ := stageCreate_holds h u
    exact alike_of hsteps hholds
  | stageWrite u content announced =>
    obtain ⟨disk, hsteps, hholds⟩ := write_holds h u content announced false
    exact alike_of hsteps hholds
  | stageWriteHashed u content announced =>
    obtain ⟨disk, hsteps, hholds⟩ := write_holds h u content announced true
    exact alike_of hsteps hholds
  | stageDigest u => exact alike_of (stageDigest_holds h u) h
  | stageSize u => exact alike_of (stageSize_holds h u) h
  | stageRemove u =>
    obtain ⟨disk, hsteps, hholds⟩ := stageRemove_holds h u
    exact alike_of hsteps hholds
  | staged => exact alike_of (staged_holds h) h
  | publish u g id envelope =>
    obtain ⟨disk, hsteps, hholds⟩ := publish_holds h u id hrange.1 hrange.2
    exact alike_of hsteps hholds
  | get g id => exact alike_of (readItem_holds hjson h g id) h
  | openContent g id => exact alike_of (openContentFrom_holds h g id (by decide)) h
  | openContentFrom g id offset => exact alike_of (openContentFrom_holds h g id hrange) h
  | ids g => exact alike_of (ids_holds h g) h
  | remove g id =>
    obtain ⟨disk, trashed, hsteps, hholds⟩ := remove_holds hjson h g id
    exact alike_of hsteps hholds
  | dropGeneration g =>
    obtain ⟨disk, hsteps, hholds⟩ := dropGeneration_holds h g
    exact alike_of hsteps hholds
  | generations => exact alike_of (generations_holds h) h
  | bytes g => exact alike_of (bytes_holds h g) h

end

/-! ## Rules without their shelf -/

/-- The rules at work, without the shelf they call. -/
structure Work where
  record : WorkspaceRecord
  /-- What the clock shows. -/
  now : Nat
  /-- The upload ids the random source will give, in order. -/
  draws : List UploadId
  limits : Limits
  /-- What to remove from the shelf once the record is safely stored. -/
  after : List Cleanup

/-- The rules at work on the shelf in memory. -/
def Work.on (w : Work) (shelf : MemoryShelf) : Rules where
  record := w.record
  shelf := shelf
  now := w.now
  draws := w.draws
  limits := w.limits
  after := w.after

def Rules.work (r : Rules) : Work where
  record := r.record
  now := r.now
  draws := r.draws
  limits := r.limits
  after := r.after

/-- A part of a rule that does not call the shelf. -/
def Work.apart (w : Work) (f : Rules → Rules) : Work := (f (w.on .empty)).work

/-- What a rule's run on the shelf in memory comes to. -/
def Rules.served {α : Type} (out : Except ApiError α × Rules) :
    Except ApiError (α × Work) × MemoryShelf :=
  match out with
  | (.ok a, r) => (.ok (a, r.work), r.shelf)
  | (.error e, r) => (.error e, r.shelf)

namespace Shelves

/-! ### The calls rules make -/

def stageCreate (upload : UploadId) : ShelfProgram Unit := Calls.ask (ShelfCall.stageCreate upload)

def stageDigest (upload : UploadId) : ShelfProgram (Option Digest) :=
  Calls.ask (ShelfCall.stageDigest upload)

def stageSize (upload : UploadId) : ShelfProgram (Option Nat) :=
  Calls.ask (ShelfCall.stageSize upload)

def stageRemove (upload : UploadId) : ShelfProgram Unit := Calls.ask (ShelfCall.stageRemove upload)

def staged : ShelfProgram (List UploadId) := Calls.ask ShelfCall.staged

def publish (upload : UploadId) (g : Nat) (id : ItemId) (envelope : Envelope) : ShelfProgram Bool :=
  Calls.ask (ShelfCall.publish upload g id envelope)

def get (g : Nat) (id : ItemId) : ShelfProgram (Option StoredItem) :=
  Calls.ask (ShelfCall.get g id)

def openContentFrom (g : Nat) (id : ItemId) (offset : Nat) : ShelfProgram (Option Bytes) :=
  Calls.ask (ShelfCall.openContentFrom g id offset)

def ids (g : Nat) : ShelfProgram (List ItemId) := Calls.ask (ShelfCall.ids g)

def remove (g : Nat) (id : ItemId) : ShelfProgram (Option StoredItem) :=
  Calls.ask (ShelfCall.remove g id)

def generations : ShelfProgram (List Nat) := Calls.ask ShelfCall.generations

def bytes (g : Nat) : ShelfProgram Nat := Calls.ask (ShelfCall.bytes g)

/-- A write with a note of the SHA-256, or one without. -/
def write (upload : UploadId) (content : Source) (announced : Nat) : Bool → ShelfProgram Nat
  | true => Calls.ask (ShelfCall.stageWriteHashed upload content announced)
  | false => Calls.ask (ShelfCall.stageWrite upload content announced)

/-- `find_in`: the oldest item with a content key. -/
def findIn (g : Nat) (contentKey : Fin (2 ^ 48)) : ShelfProgram (Option ItemId) := do
  let here ← ids g
  return here.reverse.find? fun id => id.contentKey = contentKey

end Shelves

namespace Work

open Shelves

/-! ### What several rules share -/

/-- `getRewrite`. -/
def sessionView (w : Work) : ShelfProgram (Option SessionView) :=
  match w.record.state with
  | .settled _ => return none
  | .rewriting session => do
    let stagedIds ← ids session.stagedGeneration
    let source ← ids w.record.generation
    return some
      { kind := session.kind
        holder := session.holder
        leaseExpiresAt := session.leaseExpiresAt
        newKeyId := session.next.keyId
        newHeader := session.next.header
        stagedIds
        sourceItems := source.length }

/-- `getWorkspace`: the encryption part. -/
def encryption (w : Work) : ShelfProgram EncryptionView := do
  let rewrite ← w.sessionView
  return { (w.on .empty).encryption with rewrite }

/-- What every rule that answers with the encryption state ends with. -/
def answerEncryption (w : Work) : ShelfProgram (EncryptionView × Work) := do
  return (← w.encryption, w)

/-- What every rule that answers with the session ends with. -/
def answerSession (w : Work) : ShelfProgram (SessionView × Work) := do
  match ← w.sessionView with
  | some view => return (view, w)
  | none => .stop .notFound

/-! ### Items and encryption -/

def deleteItem (w : Work) (caller : Caller) (partition : Partition) (id : ItemId)
    (expected : Option KeyId) : ShelfProgram (StoredItem × Work) := do
  Calls.check caller.mustWrite
  Calls.check (w.record.checkWritable expected)
  match w.record.generationOf partition with
  | none => .stop .notFound
  | some g =>
    match ← remove g id with
    | none => .stop .notFound
    | some item =>
      let used := w.record.used.insert g (w.record.usedIn g - item.size)
      return (item, { w with record := { w.record with used } })

def enableEncryption (w : Work) (caller : Caller) (keyId : KeyId) (header : Bytes) :
    ShelfProgram (EncryptionView × Work) := do
  let already ← Calls.check ((w.on .empty).settle caller keyId)
  if already then w.answerEncryption
  else
    let here ← ids w.record.generation
    if !here.isEmpty then
      .stop (.invalidRequest "the workspace holds items; use a fresh start or migrate")
    else
      answerEncryption
        { w with record := { w.record with state := .settled (some ⟨keyId, header⟩) } }

def freshStart (w : Work) (caller : Caller) (keyId : KeyId) (header : Bytes) :
    ShelfProgram (EncryptionView × Work) := do
  let already ← Calls.check ((w.on .empty).settle caller keyId)
  if already then w.answerEncryption
  else
    let here ← ids w.record.generation
    let record :=
      if here.isEmpty then w.record
      else
        { w.record with
          plain := some w.record.generation
          generation := w.record.nextGeneration
          nextGeneration := w.record.nextGeneration + 1 }
    answerEncryption
      { w with record := { record with state := .settled (some ⟨keyId, header⟩) } }

def replaceHeader (w : Work) (caller : Caller) (expected : KeyId) (header : Bytes) :
    ShelfProgram (EncryptionView × Work) := do
  Calls.check caller.mustWrite
  match w.record.state with
  | .rewriting _ => .stop .rewriteInProgress
  | .settled none => .stop (.invalidRequest "the workspace is not encrypted")
  | .settled (some sealed) =>
    if sealed.keyId ≠ expected then .stop .keyIdMismatch
    else
      answerEncryption
        { w with record := { w.record with state := .settled (some { sealed with header }) } }

/-! ### Uploads -/

def beginUpload (w : Work) (caller : Caller) (request : UploadRequest) :
    ShelfProgram (Begun × Work) := do
  Calls.check caller.mustWrite
  let g ← Calls.check (w.record.uploadTarget caller request)
  if w.limits.maxItemBytes.any (· < request.size) then .stop .itemTooLarge
  else
    match ← Shelves.findIn g request.id.contentKey with
    | some id =>
      return (.stored ⟨id, false, request.inRewrite⟩, w.apart (·.giveUp fun _ ticket =>
        ticket.owner = caller.key && ticket.request = request))
    | none =>
      match w.record.liveTicketFor w.now caller request with
      | some (uploadId, ticket) => do
        stageCreate uploadId
        return (.ticket ⟨uploadId, ticket.expiresAt⟩, w)
      | none =>
        if w.limits.quotaBytes <
            saturatingAdd ((w.on .empty).held g request.inRewrite) request.size then
          .stop .quotaExceeded
        else
          match mint w.record.known w.draws with
          | none => .stop .serviceUnavailable
          | some (uploadId, draws) => do
            stageCreate uploadId
            let expiresAt := wrappingAdd w.now w.limits.stagingSecs
            return (.ticket ⟨uploadId, expiresAt⟩,
              { w with
                draws
                record := { w.record with
                  tickets := w.record.tickets.insert uploadId
                    ⟨caller.key, request, expiresAt⟩ } })

def putUploadContent (w : Work) (caller : Caller) (upload : UploadId) (content : Source) :
    ShelfProgram (Unit × Work) :=
  match w.record.tombstone w.now caller upload with
  | some _ => return ((), w)
  | none =>
    match w.record.liveTicket w.now caller upload with
    | none => .stop .notFound
    | some ticket => do
      let _ ← write upload content ticket.request.size
        ((w.on .empty).checksContent ticket.request)
      return ((), w)

def finishUpload (w : Work) (upload : UploadId) (ticket : Ticket) (id : ItemId)
    (created : Bool) : PutOutcome × Work :=
  let (outcome, r) := (w.on .empty).finishUpload upload ticket id created
  (outcome, r.work)

section
variable [Crates]

def checkPlaintext (upload : UploadId) (request : UploadRequest) : ShelfProgram Unit :=
  match Crates.readMeta request.metaJson with
  | none => .stop .contentMismatch
  | some fields => do
    match ← stageDigest upload, fields.sha256, fields.size with
    | some digest, some saidSha, some saidSize =>
      if digest.hex = saidSha ∧ saidSize = request.size ∧
          request.id.contentKey = digest.contentKey then return ()
      else .stop .contentMismatch
    | _, _, _ => .stop .contentMismatch

/-- The part of `commitUpload` after the looks at the staging place. -/
def settleUpload (w : Work) (upload : UploadId) (ticket : Ticket) (g : Nat) :
    ShelfProgram (PutOutcome × Work) := do
  match ← Shelves.findIn g ticket.request.id.contentKey with
  | some id => return w.finishUpload upload ticket id false
  | none =>
    let _ ← publish upload g ticket.request.id
      ⟨ticket.request.metaJson, ticket.request.expectedKeyId, w.now⟩
    return (w.apart (·.addUsed g ticket.request.size)).finishUpload upload ticket
      ticket.request.id true

def commitUpload (w : Work) (caller : Caller) (upload : UploadId) :
    ShelfProgram (PutOutcome × Work) :=
  match w.record.tombstone w.now caller upload with
  | some stone => return (stone.outcome, w)
  | none =>
    match w.record.liveTicket w.now caller upload with
    | none => .stop .notFound
    | some ticket => do
      let g ← Calls.check (w.record.uploadTarget caller ticket.request)
      match ← stageSize upload with
      | none => do
        let published ← get g ticket.request.id
        if published.any (·.size = ticket.request.size) then
          let bytes ← bytes g
          return finishUpload
            { w with record := { w.record with used := w.record.used.insert g bytes } }
            upload ticket ticket.request.id true
        else .stop .contentMismatch
      | some size =>
        if size ≠ ticket.request.size then .stop .contentMismatch
        else if (w.on .empty).checksContent ticket.request then do
          checkPlaintext upload ticket.request
          w.settleUpload upload ticket g
        else w.settleUpload upload ticket g

end

def abortUpload (w : Work) (caller : Caller) (upload : UploadId) : ShelfProgram (Unit × Work) :=
  return ((), w.apart (·.giveUp fun u ticket => u = upload && ticket.owner = caller.key))

def probeWrite (w : Work) (caller : Caller) : ShelfProgram (Unit × Work) := do
  Calls.check ((w.on .empty).probeAllowed caller)
  match w.draws with
  | [] => .stop .serviceUnavailable
  | probe :: draws => do
    stageCreate probe
    stageRemove probe
    return ((), { w with draws })

def cleanStaging (w : Work) : ShelfProgram (Nat × Work) := do
  let tickets := w.record.tickets.filter fun _ ticket => w.now < ticket.expiresAt
  let tombstones := w.record.tombstones.filter fun _ stone => w.now < stone.expiresAt
  let places ← staged
  let orphans := places.filter fun upload => !tickets.contains upload
  let here ← generations
  let dead := here.filter fun g => !w.record.liveGenerations.contains g
  return (orphans.length,
    { w with
      record := { w.record with
        tickets
        tombstones
        used := w.record.used.filter fun g _ => !dead.contains g }
      after := w.after ++ orphans.map .removeStaging ++ dead.map .dropGeneration })

/-- The books of some generations, taken from the shelf. -/
def recount (used : Map Nat Nat) : List Nat → ShelfProgram (Map Nat Nat)
  | [] => return used
  | g :: gs => do
    let bytes ← bytes g
    recount (used.insert g bytes) gs

def reconcile (w : Work) : ShelfProgram (Unit × Work) := do
  let used ← recount w.record.used w.record.liveGenerations
  let (_, w) ← cleanStaging { w with record := { w.record with used } }
  return ((), w)

/-! ### The rewrite session -/

def beginRewrite (w : Work) (caller : Caller) (request : RewriteRequest) :
    ShelfProgram (SessionView × Work) := do
  Calls.check caller.mustWrite
  match w.record.state with
  | .rewriting session =>
    if session.holder = caller.key ∧ session.kind = request.kind ∧
        session.next.keyId = request.newKeyId then
      (w.apart (·.renewLease caller.key)).answerSession
    else .stop .rewriteInProgress
  | .settled prior =>
    match request.kind, prior with
    | .migrate, some _ =>
      .stop (.invalidRequest "the workspace is encrypted already; rotate its key instead")
    | .rotate, none =>
      .stop (.invalidRequest "the workspace is not encrypted; migrate it instead")
    | .migrate, none | .rotate, some _ =>
      if request.newKeyId ∈ w.record.endedRewrites then .stop .rewriteEnded
      else if prior.map Seal.keyId ≠ request.expectedKeyId then .stop .keyIdMismatch
      else if prior.map Seal.keyId = some request.newKeyId then
        .stop (.invalidRequest "the new key is the current one")
      else
        let session : Session :=
          { kind := request.kind
            prior
            next := ⟨request.newKeyId, request.newHeader⟩
            holder := caller.key
            leaseExpiresAt := wrappingAdd w.now w.limits.leaseSecs
            stagedGeneration := w.record.nextGeneration }
        answerSession { w with
          record := { w.record with
            nextGeneration := w.record.nextGeneration + 1
            state := .rewriting session } }

def heartbeatRewrite (w : Work) (caller : Caller) : ShelfProgram (SessionView × Work) := do
  Calls.check caller.mustWrite
  let _ ← Calls.check (w.record.heldSession caller)
  (w.apart (·.renewLease caller.key)).answerSession

def takeOverRewrite (w : Work) (caller : Caller) : ShelfProgram (SessionView × Work) := do
  Calls.check caller.mustWrite
  match w.record.state with
  | .settled _ => .stop .notFound
  | .rewriting session =>
    if session.holder ≠ caller.key ∧ w.now < session.leaseExpiresAt then .stop .leaseHeld
    else (w.apart (·.renewLease caller.key)).answerSession

def commitRewrite (w : Work) (caller : Caller) (newKeyId : KeyId) :
    ShelfProgram (EncryptionView × Work) := do
  Calls.check caller.mustWrite
  match w.record.state with
  | .settled sealed =>
    if sealed.map Seal.keyId = some newKeyId then w.answerEncryption else .stop .notFound
  | .rewriting _ => do
    let session ← Calls.check (w.record.heldSession caller)
    if session.next.keyId ≠ newKeyId then .stop .keyIdMismatch
    else
      let stagedIds ← ids session.stagedGeneration
      let source ← ids w.record.generation
      if stagedIds.length ≠ source.length then
        .stop (.rewriteIncomplete stagedIds.length source.length)
      else
        let old := w.record.generation
        answerEncryption <| Work.apart
          { w with
            record := { w.record with
              generation := session.stagedGeneration
              state := .settled (some session.next)
              used := w.record.used.erase old }
            after := w.after ++ [.dropGeneration old] }
          Rules.dropRewriteUploads

def endAborted (w : Work) (session : Session) : ShelfProgram (EncryptionView × Work) :=
  answerEncryption <| Work.apart
    { w with
      record := { w.record with
        endedRewrites := insert session.next.keyId w.record.endedRewrites
        state := .settled session.prior
        used := w.record.used.erase session.stagedGeneration }
      after := w.after ++ [.dropGeneration session.stagedGeneration] }
    Rules.dropRewriteUploads

def abortRewrite (w : Work) (caller : Caller) (newKeyId : KeyId) :
    ShelfProgram (EncryptionView × Work) := do
  Calls.check caller.mustWrite
  match w.record.state with
  | .settled _ => w.answerEncryption
  | .rewriting _ => do
    let session ← Calls.check (w.record.heldSession caller)
    if session.next.keyId ≠ newKeyId then .stop .keyIdMismatch
    else w.endAborted session

def operatorAbortRewrite (w : Work) (force : Bool) : ShelfProgram (EncryptionView × Work) :=
  match w.record.state with
  | .settled _ => .stop .notFound
  | .rewriting session =>
    if !force ∧ w.now < session.leaseExpiresAt then .stop .leaseHeld else w.endAborted session

/-! ### All operations -/

/-- A rule's own answer as one of the answers of all operations. -/
def answering {α : Type} (f : α → Answer) (p : ShelfProgram (α × Work)) :
    ShelfProgram (Answer × Work) := do
  let (a, w) ← p
  return (f a, w)

end Work

/-- The rule an operation runs, over any shelf. -/
def Op.program [Crates] (w : Work) : Op → ShelfProgram (Answer × Work)
  | .deleteItem caller partition id expected =>
    Work.answering .item (w.deleteItem caller partition id expected)
  | .enableEncryption caller keyId header =>
    Work.answering .encryption (w.enableEncryption caller keyId header)
  | .freshStart caller keyId header =>
    Work.answering .encryption (w.freshStart caller keyId header)
  | .replaceHeader caller expected header =>
    Work.answering .encryption (w.replaceHeader caller expected header)
  | .beginUpload caller request => Work.answering .begun (w.beginUpload caller request)
  | .putUploadContent caller upload content =>
    Work.answering (fun _ => .done) (w.putUploadContent caller upload content)
  | .commitUpload caller upload => Work.answering .outcome (w.commitUpload caller upload)
  | .abortUpload caller upload => Work.answering (fun _ => .done) (w.abortUpload caller upload)
  | .probeWrite caller => Work.answering (fun _ => .done) (w.probeWrite caller)
  | .beginRewrite caller request => Work.answering .session (w.beginRewrite caller request)
  | .heartbeatRewrite caller => Work.answering .session (w.heartbeatRewrite caller)
  | .takeOverRewrite caller => Work.answering .session (w.takeOverRewrite caller)
  | .commitRewrite caller newKeyId => Work.answering .encryption (w.commitRewrite caller newKeyId)
  | .abortRewrite caller newKeyId => Work.answering .encryption (w.abortRewrite caller newKeyId)
  | .operatorAbortRewrite force => Work.answering .encryption (w.operatorAbortRewrite force)
  | .cleanStaging => Work.answering .count w.cleanStaging
  | .reconcile => Work.answering (fun _ => .done) w.reconcile

end Passalong
