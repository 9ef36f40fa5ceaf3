import Passalong.ApiKeys
import Passalong.Ledger

/-!
# The control database (`control/mod.rs`)

Workspaces as an operator sees them, API keys, and the audit trail: what each of the
operator's commands does to the three tables, and what `authenticate` answers. Every
command is one transaction; one that is refused changes nothing. Ids and roles are stored
as text and numbers as `i64`, as the source stores them.

What is random is part of the call: the id a workspace gets, and the keys that are drawn
until one has an id that names no key yet. SQLite's own failures are not modelled, with one
exception: the note of a key's last use may get lost (`noted`).
-/

namespace Passalong

/-! ## What is stored -/

/-- The columns of `workspaces` that are the operator's. -/
structure HomeRow where
  id : String
  /-- `NULL` where the ledger made the row. -/
  name : Option String
  quotaBytes : Option Int
  createdAt : Int
  deriving DecidableEq

/-- A row of `api_keys`; its key is `keyId`. -/
structure KeyRow where
  keyId : String
  workspace : String
  secretHash : Digest
  label : String
  role : String
  createdAt : Int
  expiresAt : Option Int
  revokedAt : Option Int
  lastUsedAt : Option Int
  deriving DecidableEq

/-- A row of `audit`. -/
structure AuditRow where
  at' : Int
  action : String
  workspace : Option String
  keyId : Option String
  detail : Option String
  deriving DecidableEq

/-- `coalesce(revoked_at, expires_at) <= before`. -/
def KeyRow.prunedAt (row : KeyRow) (before : Int) : Bool :=
  (row.revokedAt.or row.expiresAt).any (· ≤ before)

structure Control where
  workspaces : List HomeRow
  keys : List KeyRow
  audit : List AuditRow
  deriving DecidableEq

/-! ## What is shown -/

structure WorkspaceInfo where
  id : WorkspaceId
  name : String
  quotaBytes : Option Nat
  createdAt : Nat
  deriving DecidableEq

/-- What a key is good for right now. -/
inductive KeyState where
  | active
  | expired
  | revoked
  deriving DecidableEq

/-- A key, as an operator sees it. -/
structure KeyInfo where
  id : ApiKeyId
  workspace : WorkspaceId
  workspaceName : String
  label : String
  role : Role
  createdAt : Nat
  expiresAt : Option Nat
  revokedAt : Option Nat
  lastUsedAt : Option Nat
  deriving DecidableEq

/-- The key's state at `now`. Revoked is said before expired. -/
def KeyInfo.state (info : KeyInfo) (now : Nat) : KeyState :=
  if info.revokedAt.isSome then .revoked
  else if info.expiresAt.any (· ≤ now) then .expired
  else .active

/-- Who a request is from. -/
structure Authenticated where
  workspace : WorkspaceId
  caller : Caller
  expiresAt : Option Nat
  label : String
  deriving DecidableEq

/-- Why an operator's command was refused. -/
inductive ControlError where
  | invalidName (name : String)
  | nameTaken (name : String)
  | noSuchWorkspace (name : String)
  | noSuchKey (id : String)
  | unavailable
  deriving DecidableEq

/-- Lower-case letters, digits and dashes, at most thirty-two, a letter first. -/
def validName (name : String) : Bool :=
  match name.toList with
  | [] => false
  | first :: rest =>
    first.isLower && name.utf8ByteSize ≤ 32 &&
      rest.all fun c => c.isLower || c.isDigit || c = '-'

def Role.text : Role → String
  | .readWrite => "read-write"
  | .readOnly => "read-only"

/-- The role of a row. -/
def roleFrom (text : String) : Role := if text = "read-only" then .readOnly else .readWrite

theorem roleFrom_text (role : Role) : roleFrom role.text = role := by
  cases role <;> decide

namespace Control

/-- `i64::try_from(number).unwrap_or(i64::MAX)`. -/
def toDb (number : Nat) : Int := if number < dbBound then number else dbBound - 1

def fromDb (number : Option Int) : Option Nat :=
  number.bind fun number => if 0 ≤ number then some number.toNat else none

/-- How often, at most, a key's last use is written down. -/
def lastUseEverySecs : Nat := 60

def empty : Control := ⟨[], [], []⟩

def workspaceFrom (row : HomeRow) : Except ControlError WorkspaceInfo :=
  match WorkspaceId.parse row.id with
  | .error _ => .error .unavailable
  | .ok id => .ok ⟨id, row.name.getD row.id, fromDb row.quotaBytes,
      (fromDb row.createdAt).getD 0⟩

def keyFrom (row : KeyRow) (home : HomeRow) : Except ControlError KeyInfo :=
  match WorkspaceId.parse row.workspace with
  | .error _ => .error .unavailable
  | .ok workspace => .ok ⟨⟨row.keyId⟩, workspace, home.name.getD row.workspace, row.label,
      roleFrom row.role, (fromDb row.createdAt).getD 0, fromDb row.expiresAt,
      fromDb row.revokedAt, fromDb row.lastUsedAt⟩

section
variable (c : Control)

def note (now : Nat) (action : String) (workspace key detail : Option String) : Control :=
  { c with audit := c.audit ++ [⟨toDb now, action, workspace, key, detail⟩] }

/-- One workspace, by name. -/
def workspace (name : String) : Except ControlError WorkspaceInfo :=
  match c.workspaces.find? fun w => w.name = some name with
  | none => .error (.noSuchWorkspace name)
  | some row => workspaceFrom row

/-- One key, with its workspace. -/
def key (id : String) : Except ControlError KeyInfo :=
  match c.keys.find? fun k => k.keyId = id with
  | none => .error (.noSuchKey id)
  | some row =>
    match c.workspaces.find? fun w => w.id = row.workspace with
    | none => .error (.noSuchKey id)
    | some home => keyFrom row home

/-- Whether an id names a key. -/
def names (id : String) : Bool := c.keys.any fun k => k.keyId = id

/-! ## The commands -/

def createWorkspace (now : Nat) (name : String) (quotaBytes : Option Nat) (id : WorkspaceId) :
    Except ControlError WorkspaceInfo × Control :=
  if validName name = false then (.error (.invalidName name), c)
  else if c.workspaces.any (fun w => w.name = some name) then (.error (.nameTaken name), c)
  -- the id is the table's key
  else if c.workspaces.any (fun w => w.id = id.asStr) then (.error .unavailable, c)
  else
    let row : HomeRow := ⟨id.asStr, some name, quotaBytes.map toDb, toDb now⟩
    (.ok ⟨id, name, quotaBytes, now⟩,
      { c with workspaces := c.workspaces ++ [row] }.note now "workspace.create" id.asStr none
        name)

/-- The rows, keys included. -/
def deleteWorkspace (now : Nat) (name : String) : Except ControlError WorkspaceInfo × Control :=
  match c.workspace name with
  | .error e => (.error e, c)
  | .ok found =>
    (.ok found,
      { c with
        workspaces := c.workspaces.filter fun w => w.id ≠ found.id.asStr
        keys := c.keys.filter fun k => k.workspace ≠ found.id.asStr }.note now
          "workspace.delete" found.id.asStr none name)

/-- The first key drawn whose id names none yet. -/
def mint (draws : List ApiKey) : Option ApiKey :=
  draws.find? fun key => !c.names key.keyId.text

/-- `draws` stands for as many keys as the loop takes; where none of them will do, it goes on,
and nothing is stored. -/
def createKey [Crates] (now : Nat) (workspace label : String) (role : Role)
    (expiresIn : Option Nat) (draws : List ApiKey) :
    Except ControlError (ApiKey × KeyInfo) × Control :=
  match c.workspace workspace with
  | .error e => (.error e, c)
  | .ok found =>
    let expiresAt := expiresIn.map (saturatingAdd now)
    match c.mint draws with
    | none => (.error .unavailable, c)
    | some key =>
      let row : KeyRow := ⟨key.keyId.text, found.id.asStr, key.hash, label, role.text, toDb now,
        expiresAt.map toDb, none, none⟩
      (.ok (key, ⟨key.keyId, found.id, found.name, label, role, now, expiresAt, none, none⟩),
        { c with keys := c.keys ++ [row] }.note now "key.create" found.id.asStr key.keyId.text
          label)

/-- Changes one key's row and notes it. -/
def changeKey (now : Nat) (id action : String) (statement : List KeyRow → List KeyRow) :
    Except ControlError KeyInfo × Control :=
  match c.key id with
  | .error e => (.error e, c)
  | .ok before =>
    let changed := { c with keys := statement c.keys }.note now action before.workspace.asStr id
      none
    match changed.key id with
    | .ok after => (.ok after, changed)
    | .error _ => (.ok before, changed)

/-- A new expiry, counted from now; `none` is never. -/
def extendKey (now : Nat) (id : String) (expiresIn : Option Nat) :
    Except ControlError KeyInfo × Control :=
  let expiry := expiresIn.map fun secs => toDb (saturatingAdd now secs)
  c.changeKey now id "key.extend" fun keys =>
    keys.map fun k => if k.keyId = id then { k with expiresAt := expiry } else k

/-- Revoking again changes nothing: `coalesce(revoked_at, now)`. -/
def revokeKey (now : Nat) (id : String) : Except ControlError KeyInfo × Control :=
  c.changeKey now id "key.revoke" fun keys =>
    keys.map fun k =>
      if k.keyId = id then { k with revokedAt := k.revokedAt.or (some (toDb now)) } else k

def deleteKey (now : Nat) (id : String) : Except ControlError KeyInfo × Control :=
  c.changeKey now id "key.delete" fun keys => keys.filter fun k => k.keyId ≠ id

/-- Deletes the keys that were revoked or expired at least `olderThan` seconds ago. -/
def pruneKeys (now olderThan : Nat) : Nat × Control :=
  let before := toDb (now - olderThan)
  let pruned := c.keys.countP fun k => k.prunedAt before
  let rest := { c with keys := c.keys.filter fun k => !k.prunedAt before }
  (pruned, if 0 < pruned then rest.note now "key.prune" none none (toString pruned) else rest)

/-- Who a bearer token is from. The row's last use is noted, if that is long ago and the note
gets through. -/
def authenticate [Crates] (now : Nat) (token : String) (noted : Bool) :
    Except ApiError Authenticated × Control :=
  match ApiKey.parse token with
  | none => (.error .unauthenticated, c)
  | some presented =>
    let row := c.keys.find? fun k => k.keyId = presented.keyId.text
    let stored := (row.map KeyRow.secretHash).getD hashOfNothing
    let right : Bool := stored = presented.hash
    match row.filter fun _ => right with
    | none => (.error .unauthenticated, c)
    | some row =>
      if row.revokedAt.isSome then (.error .keyRevoked, c)
      else if (fromDb row.expiresAt).any (· ≤ now) then (.error .keyExpired, c)
      else
        let stale := (fromDb row.lastUsedAt).all fun used => lastUseEverySecs ≤ now - used
        let c' :=
          if stale && noted then
            { c with keys := c.keys.map fun k =>
                if k.keyId = presented.keyId.text then { k with lastUsedAt := some (toDb now) }
                else k }
          else c
        match WorkspaceId.parse row.workspace with
        | .error _ => (.error .serviceUnavailable, c')
        | .ok workspace =>
          (.ok ⟨workspace, ⟨presented.keyId, roleFrom row.role⟩, fromDb row.expiresAt, row.label⟩,
            c')

end

end Control

/-! ## Calls -/

/-- A call, with what is random about it. -/
inductive ControlCall where
  | createWorkspace (name : String) (quotaBytes : Option Nat) (id : WorkspaceId)
  | deleteWorkspace (name : String)
  | createKey (workspace label : String) (role : Role) (expiresIn : Option Nat)
      (draws : List ApiKey)
  | extendKey (id : String) (expiresIn : Option Nat)
  | revokeKey (id : String)
  | deleteKey (id : String)
  | pruneKeys (olderThan : Nat)
  | authenticate (token : String) (noted : Bool)

/-- What a call answers. -/
inductive ControlAnswer where
  | workspace (answer : Except ControlError WorkspaceInfo)
  | created (answer : Except ControlError (ApiKey × KeyInfo))
  | changed (answer : Except ControlError KeyInfo)
  | pruned (count : Nat)
  | authenticated (answer : Except ApiError Authenticated)

/-- A call at a time. -/
def Control.answer [Crates] (c : Control) : Nat × ControlCall → ControlAnswer × Control
  | (now, .createWorkspace name quotaBytes fresh) =>
    (c.createWorkspace now name quotaBytes fresh).map .workspace id
  | (now, .deleteWorkspace name) => (c.deleteWorkspace now name).map .workspace id
  | (now, .createKey workspace label role expiresIn draws) =>
    (c.createKey now workspace label role expiresIn draws).map .created id
  | (now, .extendKey name expiresIn) => (c.extendKey now name expiresIn).map .changed id
  | (now, .revokeKey name) => (c.revokeKey now name).map .changed id
  | (now, .deleteKey name) => (c.deleteKey now name).map .changed id
  | (now, .pruneKeys olderThan) => (c.pruneKeys now olderThan).map .pruned id
  | (now, .authenticate token noted) => (c.authenticate now token noted).map .authenticated id

def Control.exec [Crates] (c : Control) (e : Nat × ControlCall) : Control := (c.answer e).2

end Passalong
