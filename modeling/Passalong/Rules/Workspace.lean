import Passalong.Record

/-!
# Items, and the changes to encryption that re-encrypt nothing (`workspace.rs`)

`deleteItem`, `enableEncryption`, `freshStart` and `replaceHeader`. Each rule
takes the rules at work and answers, with the rules as it leaves them: a refusal
keeps what was done to the shelf before it, and dropping the record's edits is
left to whoever ran the rule.
-/

namespace Passalong

open Lib

namespace Rules

/-- `deleteItem`. -/
def deleteItem (r : Rules) (caller : Caller) (partition : Partition) (id : ItemId)
    (expected : Option KeyId) : Except ApiError StoredItem × Rules :=
  r.check caller.mustWrite fun _ =>
  r.check (r.record.checkWritable expected) fun _ =>
  match r.record.generationOf partition with
  | none => (.error .notFound, r)
  | some g =>
    match r.shelf.remove g id with
    | (none, shelf) => (.error .notFound, { r with shelf })
    | (some item, shelf) =>
      let used := r.record.used.insert g (r.record.usedIn g - item.size)
      (.ok item, { r with shelf, record := { r.record with used } })

/-- What `enableEncryption` and `freshStart` share: `true` when the workspace is
already sealed under `keyId`, `false` when it is plaintext and may be sealed. -/
def settle (r : Rules) (caller : Caller) (keyId : KeyId) : Except ApiError Bool :=
  match caller.mustWrite with
  | .error e => .error e
  | .ok _ =>
    match r.record.state with
    | .rewriting _ => .error .rewriteInProgress
    | .settled (some sealed) =>
      if sealed.keyId = keyId then .ok true else .error .keyIdMismatch
    | .settled none => .ok false

/-- `enableEncryption`: seals an empty plaintext workspace. -/
def enableEncryption (r : Rules) (caller : Caller) (keyId : KeyId) (header : Bytes) :
    Except ApiError EncryptionView × Rules :=
  r.check (r.settle caller keyId) fun already =>
  if already then (.ok r.encryption, r)
  else if !(r.shelf.ids r.record.generation).isEmpty then
    (.error (.invalidRequest "the workspace holds items; use a fresh start or migrate"), r)
  else
    let r := { r with record := { r.record with state := .settled (some ⟨keyId, header⟩) } }
    (.ok r.encryption, r)

/-- `freshStart`: seals a plaintext workspace, whose items become the plain
partition by moving one pointer. -/
def freshStart (r : Rules) (caller : Caller) (keyId : KeyId) (header : Bytes) :
    Except ApiError EncryptionView × Rules :=
  r.check (r.settle caller keyId) fun already =>
  if already then (.ok r.encryption, r)
  else
    let record :=
      if (r.shelf.ids r.record.generation).isEmpty then r.record
      else
        { r.record with
          plain := some r.record.generation
          generation := r.record.nextGeneration
          nextGeneration := r.record.nextGeneration + 1 }
    let r := { r with record := { record with state := .settled (some ⟨keyId, header⟩) } }
    (.ok r.encryption, r)

/-- `replaceHeader`: the change of words. -/
def replaceHeader (r : Rules) (caller : Caller) (expected : KeyId) (header : Bytes) :
    Except ApiError EncryptionView × Rules :=
  r.check caller.mustWrite fun _ =>
  match r.record.state with
  | .rewriting _ => (.error .rewriteInProgress, r)
  | .settled none => (.error (.invalidRequest "the workspace is not encrypted"), r)
  | .settled (some sealed) =>
    if sealed.keyId ≠ expected then (.error .keyIdMismatch, r)
    else
      let r := { r with
        record := { r.record with state := .settled (some { sealed with header }) } }
      (.ok r.encryption, r)

end Rules

end Passalong
