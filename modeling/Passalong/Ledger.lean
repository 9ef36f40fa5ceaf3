import Passalong.Lib.Runs
import Passalong.Lib.Tables
import Passalong.Texts

/-!
# The ledger: records in memory and in the control database (`ledger/`)

`MemoryLedger` keeps each workspace's record as it is. `SqliteLedger` keeps it in five
tables of the control database (`control/schema.rs`): the record's sum types lie flat over
the nullable columns of one row of `workspaces`, and its collections are rows of four
child tables. This file models the tables with their keys and references, `read`, `write`
and the three calls of both ledgers.

- `View`: the rows one workspace has, as the five statements of `read` give them;
- `replaceRows`: what `write` does to a child table.

The columns that `control` alone uses (a workspace's name, quota and birthday) are left
out: the ledger neither reads nor writes them, and a name it leaves `NULL` conflicts with
none. SQLite's integers are `Int`; a statement that a constraint refuses is an error, and
a transaction that meets an error leaves the database as it was.
-/

namespace Passalong

open Lib

deriving instance DecidableEq for WorkspaceRecord

/-! ## The tables -/

/-- A row of `workspaces`; its key is `id`. -/
structure WorkspaceRow where
  id : String
  generation : Int
  plain : Option Int
  nextGeneration : Int
  /-- The seal readers go by; during a rewrite, the one before it. -/
  sealKey : Option String
  sealHeader : Option Bytes
  /-- The open rewrite session; `rwKind` is `NULL` when there is none. -/
  rwKind : Option String
  rwNextKey : Option String
  rwNextHeader : Option Bytes
  rwHolder : Option String
  rwLeaseExpiresAt : Option Int
  rwStagedGeneration : Option Int
  deriving DecidableEq, Repr

/-- A row of `generations`; its key is the workspace with the generation. -/
structure GenerationRow where
  workspace : String
  generation : Int
  usedBytes : Int
  deriving DecidableEq, Repr

/-- A row of `uploads`; its key is the workspace with the upload id. -/
structure UploadRow where
  workspace : String
  uploadId : String
  owner : String
  itemId : String
  metaJson : Bytes
  size : Int
  expectedKey : Option String
  inRewrite : Int
  expiresAt : Int
  deriving DecidableEq, Repr

/-- A row of `tombstones`; its key is the workspace with the upload id. -/
structure TombstoneRow where
  workspace : String
  uploadId : String
  owner : String
  itemId : String
  created : Int
  expiresAt : Int
  staged : Int
  deriving DecidableEq, Repr

/-- A row of `ended_rewrites`; both columns are its key. -/
structure EndedRow where
  workspace : String
  keyId : String
  deriving DecidableEq, Repr

/-- What the ledger uses of the control database. -/
structure Database where
  workspaces : List WorkspaceRow
  generations : List GenerationRow
  uploads : List UploadRow
  tombstones : List TombstoneRow
  endedRewrites : List EndedRow
  deriving DecidableEq, Repr

/-- A new database. -/
def Database.empty : Database := ⟨[], [], [], [], []⟩

/-- Why a ledger refuses: as a rule or the lookup says, or because the database cannot be
used, which the log explains and the caller does not see. -/
inductive Refusal where
  | api (e : ApiError)
  | unavailable (action err : String)
  deriving DecidableEq, Repr

/-- What a row held does not parse. -/
def damaged (what : String) : Refusal :=
  .unavailable "read a record" (what ++ " does not parse")

/-- A statement that broke a constraint of its table. -/
def constraintFailed : Refusal := .unavailable "store a record" "constraint failed"

/-- A number that does not fit a column. -/
def tooLarge : Refusal := .unavailable "store a number" "larger than SQLite holds"

/-- What the caller sees of a refusal. -/
def Refusal.shown : Refusal → ApiError
  | .api e => e
  | .unavailable _ _ => .serviceUnavailable

/-! ## Columns -/

/-- One more than the greatest `i64`. -/
def dbBound : Nat := 2 ^ 63

def toDb (number : Nat) : Except Refusal Int :=
  if number < dbBound then .ok number else .error tooLarge

def fromDb (number : Int) : Except Refusal Nat :=
  if 0 ≤ number then .ok number.toNat else .error (damaged "a negative number")

/-- An identifier's text, parsed. -/
def parsed {α : Type} (what : String) (result : Except ApiError α) : Except Refusal α :=
  match result with
  | .ok id => .ok id
  | .error _ => .error (damaged what)

def keyFrom : Option String → Except Refusal (Option KeyId)
  | none => .ok none
  | some text => (parsed "a key id" (KeyId.parse text)).map some

/-- A column that must not be `NULL` here. -/
def needed {α : Type} (what : String) : Option α → Except Refusal α
  | some a => .ok a
  | none => .error (damaged what)

/-- A `bool` column. -/
def boolToDb (b : Bool) : Int := if b then 1 else 0

def boolFromDb (number : Int) : Bool := number ≠ 0

def RewriteKind.asStr : RewriteKind → String
  | .migrate => "migrate"
  | .rotate => "rotate"

def kindFrom (text : String) : Except Refusal RewriteKind :=
  if text = "migrate" then .ok .migrate
  else if text = "rotate" then .ok .rotate
  else .error (damaged "a rewrite kind")

/-! ## `read` -/

/-- The rows of one workspace, table by table: what `read`'s five statements give. -/
@[ext] structure View where
  row : Option WorkspaceRow
  generations : List GenerationRow
  uploads : List UploadRow
  tombstones : List TombstoneRow
  endedRewrites : List EndedRow

def Database.view (db : Database) (id : String) : View where
  row := db.workspaces.find? (·.id = id)
  generations := db.generations.filter (·.workspace = id)
  uploads := db.uploads.filter (·.workspace = id)
  tombstones := db.tombstones.filter (·.workspace = id)
  endedRewrites := db.endedRewrites.filter (·.workspace = id)

/-- The seal of a row: both columns or neither. -/
def WorkspaceRow.seal? (row : WorkspaceRow) : Except Refusal (Option Seal) := do
  match ← keyFrom row.sealKey, row.sealHeader with
  | some keyId, some header => .ok (some ⟨keyId, header⟩)
  | none, none => .ok none
  | _, _ => .error (damaged "a seal")

/-- The encryption state of a row: a session's columns are all there, or `rwKind` is
`NULL`. -/
def WorkspaceRow.state (row : WorkspaceRow) : Except Refusal State := do
  let sealed ← row.seal?
  match row.rwKind with
  | none => .ok (.settled sealed)
  | some kind =>
    let kind ← kindFrom kind
    let nextKey ← needed "a session" (← keyFrom row.rwNextKey)
    let nextHeader ← needed "a session" row.rwNextHeader
    let holder ← needed "a session" row.rwHolder
    let lease ← fromDb (← needed "a session" row.rwLeaseExpiresAt)
    let staged ← fromDb (← needed "a session" row.rwStagedGeneration)
    .ok (.rewriting ⟨kind, sealed, ⟨nextKey, nextHeader⟩, ⟨holder⟩, lease, staged⟩)

def GenerationRow.entry (row : GenerationRow) : Except Refusal (Nat × Nat) := do
  let generation ← fromDb row.generation
  let bytes ← fromDb row.usedBytes
  .ok (generation, bytes)

def UploadRow.entry (row : UploadRow) : Except Refusal (UploadId × Ticket) := do
  let upload ← parsed "an upload id" (UploadId.parse row.uploadId)
  let item ← parsed "an item id" (ItemId.parse row.itemId)
  let size ← fromDb row.size
  let expected ← keyFrom row.expectedKey
  let expires ← fromDb row.expiresAt
  .ok (upload,
    ⟨⟨row.owner⟩, ⟨item, row.metaJson, size, expected, boolFromDb row.inRewrite⟩, expires⟩)

def TombstoneRow.entry (row : TombstoneRow) : Except Refusal (UploadId × Tombstone) := do
  let upload ← parsed "an upload id" (UploadId.parse row.uploadId)
  let item ← parsed "an item id" (ItemId.parse row.itemId)
  let expires ← fromDb row.expiresAt
  .ok (upload, ⟨⟨row.owner⟩, ⟨item, boolFromDb row.created, boolFromDb row.staged⟩, expires⟩)

def EndedRow.entry (row : EndedRow) : Except Refusal KeyId :=
  parsed "a key id" (KeyId.parse row.keyId)

/-- `read`, given what its statements found. -/
def View.parse (v : View) : Except Refusal WorkspaceRecord :=
  match v.row with
  | none => .error (.api .notFound)
  | some row => do
    let state ← row.state
    let used ← Tables.collect GenerationRow.entry v.generations ∅
    let tickets ← Tables.collect UploadRow.entry v.uploads ∅
    let tombstones ← Tables.collect TombstoneRow.entry v.tombstones ∅
    let ended ← v.endedRewrites.mapM EndedRow.entry
    let generation ← fromDb row.generation
    let plain ← row.plain.mapM fromDb
    let next ← fromDb row.nextGeneration
    .ok ⟨state, generation, plain, next, used, tickets, tombstones, ended.toFinset⟩

def Database.read (db : Database) (ws : WorkspaceId) : Except Refusal WorkspaceRecord :=
  (db.view ws.asStr).parse

/-! ## `write` -/

/-- The columns of a session, or `NULL`s. -/
def sessionColumn {α : Type} (state : State) (column : Session → α) : Option α :=
  match state with
  | .settled _ => none
  | .rewriting session => some (column session)

/-- The row of `workspaces` a record is stored in. -/
def workspaceRow (id : String) (rec : WorkspaceRecord) : Except Refusal WorkspaceRow := do
  let generation ← toDb rec.generation
  let plain ← rec.plain.mapM toDb
  let next ← toDb rec.nextGeneration
  let lease ← (sessionColumn rec.state Session.leaseExpiresAt).mapM toDb
  let staged ← (sessionColumn rec.state Session.stagedGeneration).mapM toDb
  .ok
    { id := id
      generation := generation
      plain := plain
      nextGeneration := next
      sealKey := rec.seal?.map fun sealed => sealed.keyId.asStr
      sealHeader := rec.seal?.map Seal.header
      rwKind := sessionColumn rec.state fun session => session.kind.asStr
      rwNextKey := sessionColumn rec.state fun session => session.next.keyId.asStr
      rwNextHeader := sessionColumn rec.state fun session => session.next.header
      rwHolder := sessionColumn rec.state fun session => session.holder.text
      rwLeaseExpiresAt := lease
      rwStagedGeneration := staged }

def generationRow (id : String) (e : Nat × Nat) : Except Refusal GenerationRow := do
  let generation ← toDb e.1
  let bytes ← toDb e.2
  .ok ⟨id, generation, bytes⟩

def uploadRow (id : String) (e : UploadId × Ticket) : Except Refusal UploadRow := do
  let size ← toDb e.2.request.size
  let expires ← toDb e.2.expiresAt
  .ok
    { workspace := id
      uploadId := e.1.asStr
      owner := e.2.owner.text
      itemId := e.2.request.id.asStr
      metaJson := e.2.request.metaJson
      size := size
      expectedKey := e.2.request.expectedKeyId.map KeyId.asStr
      inRewrite := boolToDb e.2.request.inRewrite
      expiresAt := expires }

def tombstoneRow (id : String) (e : UploadId × Tombstone) : Except Refusal TombstoneRow := do
  let expires ← toDb e.2.expiresAt
  .ok
    { workspace := id
      uploadId := e.1.asStr
      owner := e.2.owner.text
      itemId := e.2.outcome.id.asStr
      created := boolToDb e.2.outcome.created
      expiresAt := expires
      staged := boolToDb e.2.outcome.staged }

def endedRow (id : String) (key : KeyId) : Except Refusal EndedRow := .ok ⟨id, key.asStr⟩

/-- The key ids of aborted rewrites, in the order of a `BTreeSet`. -/
def WorkspaceRecord.ended (rec : WorkspaceRecord) : List KeyId := rec.endedRewrites.sort

/-- Replaces a workspace's rows in a child table: `DELETE`, then one `INSERT` an entry,
each of which needs the workspace's row in `workspaces` and a new key. -/
def replaceRows {R A K : Type} [DecidableEq K] (workspaces : List WorkspaceRow)
    (workspaceOf : R → String) (key : R → K) (id : String) (row : A → Except Refusal R)
    (entries : List A) (table : List R) : Except Refusal (List R) :=
  Tables.insertEach (fun r => workspaces.any fun w => w.id = workspaceOf r)
    (fun r => (workspaceOf r, key r)) constraintFailed row entries
    (table.filter fun r => workspaceOf r ≠ id)

/-- Stores a record whole: the workspace's row is updated and its other rows are
replaced. -/
def Database.write (db : Database) (ws : WorkspaceId) (rec : WorkspaceRecord) :
    Except Refusal Database := do
  let id := ws.asStr
  let row ← workspaceRow id rec
  let workspaces := db.workspaces.map fun w => if w.id = id then row else w
  let generations ← replaceRows workspaces GenerationRow.workspace GenerationRow.generation id
    (generationRow id) rec.used.toList db.generations
  let uploads ← replaceRows workspaces UploadRow.workspace UploadRow.uploadId id
    (uploadRow id) rec.tickets.toList db.uploads
  let tombstones ← replaceRows workspaces TombstoneRow.workspace TombstoneRow.uploadId id
    (tombstoneRow id) rec.tombstones.toList db.tombstones
  let ended ← replaceRows workspaces EndedRow.workspace EndedRow.keyId id
    (endedRow id) rec.ended db.endedRewrites
  .ok ⟨workspaces, generations, uploads, tombstones, ended⟩

/-! ## The two ledgers -/

/-- A rule run inside a transaction: its answer, and the record as it left it. -/
abbrev LedgerRule (T : Type) : Type := WorkspaceRecord → Except ApiError T × WorkspaceRecord

/-- A call of the `Ledger` trait. -/
inductive LedgerCall (T : Type) where
  | create (ws : WorkspaceId)
  | load (ws : WorkspaceId)
  | transact (ws : WorkspaceId) (rule : LedgerRule T)

/-- What a call answers when it succeeds. -/
inductive LedgerReply (T : Type) where
  | created
  | loaded (rec : WorkspaceRecord)
  | done (answer : T)

/-- The records, by workspace. -/
abbrev MemoryLedger : Type := Map WorkspaceId WorkspaceRecord

namespace MemoryLedger

variable {T : Type} (records : MemoryLedger)

def create (ws : WorkspaceId) : MemoryLedger :=
  match records[ws]? with
  | some _ => records
  | none => records.insert ws .initial

def load (ws : WorkspaceId) : Except ApiError WorkspaceRecord :=
  match records[ws]? with
  | some rec => .ok rec
  | none => .error .notFound

def transact (ws : WorkspaceId) (rule : LedgerRule T) : Except ApiError T × MemoryLedger :=
  match records[ws]? with
  | none => (.error .notFound, records)
  | some rec =>
    match rule rec with
    | (.error e, _) => (.error e, records)
    | (.ok answer, rec') => (.ok answer, records.insert ws rec')

/-- Any call. -/
def answer : LedgerCall T → Except ApiError (LedgerReply T) × MemoryLedger
  | .create ws => (.ok .created, records.create ws)
  | .load ws => ((records.load ws).map .loaded, records)
  | .transact ws rule => ((records.transact ws rule).1.map .done, (records.transact ws rule).2)

/-- The answers to calls made one after the other. -/
def answers (calls : List (LedgerCall T)) : List (Except ApiError (LedgerReply T)) :=
  Runs.history (fun records call => (answer records call).2)
    (fun records call => [(answer records call).1]) records calls

end MemoryLedger

namespace Database

variable {T : Type} (db : Database)

/-- `INSERT OR IGNORE` of a fresh record's row. -/
def create (ws : WorkspaceId) : Except Refusal Database := do
  let generation ← toDb WorkspaceRecord.initial.generation
  let next ← toDb WorkspaceRecord.initial.nextGeneration
  let fresh : WorkspaceRow :=
    ⟨ws.asStr, generation, none, next, none, none, none, none, none, none, none, none⟩
  if db.workspaces.any (fun w => w.id = ws.asStr) then .ok db
  else .ok { db with workspaces := db.workspaces ++ [fresh] }

/-- A rule, with the record's reading and writing, as one transaction: what goes wrong
before the commit rolls it back. -/
def transact (ws : WorkspaceId) (rule : LedgerRule T) : Except Refusal T × Database :=
  match db.read ws with
  | .error e => (.error e, db)
  | .ok before =>
    match rule before with
    | (.error e, _) => (.error (.api e), db)
    | (.ok answer, record) =>
      if record = before then (.ok answer, db)
      else
        match db.write ws record with
        | .error e => (.error e, db)
        | .ok stored => (.ok answer, stored)

/-- Any call. -/
def answer : LedgerCall T → Except Refusal (LedgerReply T) × Database
  | .create ws =>
    match db.create ws with
    | .ok stored => (.ok .created, stored)
    | .error e => (.error e, db)
  | .load ws => ((db.read ws).map .loaded, db)
  | .transact ws rule => ((db.transact ws rule).1.map .done, (db.transact ws rule).2)

/-- The database after calls made one after the other. -/
def run (calls : List (LedgerCall T)) : Database :=
  Runs.run (fun db call => (answer db call).2) db calls

/-- The answers to calls made one after the other. -/
def answers (calls : List (LedgerCall T)) : List (Except Refusal (LedgerReply T)) :=
  Runs.history (fun db call => (answer db call).2) (fun db call => [(answer db call).1]) db calls

end Database

end Passalong
