import Mathlib

/-!
# Identifiers, errors and 64-bit arithmetic (`ids.rs`, `error.rs`)

Identifiers are texts of lower-case hex digits, of a fixed length except for
key ids. A text of exactly `n` hex digits is a number below `16 ^ n`, and string
order on such texts is the order of the numbers, so the fixed-length ids are
modelled by their numbers:

- `ItemId`: eight digits of creation time, a dash, twelve digits of content key;
  ordered by time first, as the texts are;
- `UploadId`: the thirty-two digits of sixteen random bytes;
- `KeyId`: one to sixty-four digits, kept as digits because the length counts.
-/

namespace Passalong

/-! Numerals of the fixed-width fields need widths that are not zero. -/

instance neZeroHex : NeZero 16 := ⟨by decide⟩
instance neZeroU16 : NeZero 65536 := ⟨by decide⟩
instance neZeroU32 : NeZero (2 ^ 32) := ⟨by decide⟩
instance neZeroU48 : NeZero (2 ^ 48) := ⟨by decide⟩
instance neZeroU64 : NeZero (2 ^ 64) := ⟨by decide⟩
instance neZeroU128 : NeZero (2 ^ 128) := ⟨by decide⟩
instance neZeroU256 : NeZero (2 ^ 256) := ⟨by decide⟩

/-- An item's id, `<ts>-<key>`. -/
structure ItemId where
  /-- The eight digits of creation time. -/
  ts : Fin (2 ^ 32)
  /-- The twelve digits of content key: identical content has the same one. -/
  contentKey : Fin (2 ^ 48)
  deriving DecidableEq, Repr

/-- Ids sort by time because the time comes first. -/
instance : LinearOrder ItemId :=
  LinearOrder.lift' (fun id => toLex (id.ts, id.contentKey)) fun a b h => by
    obtain ⟨ta, ka⟩ := a
    obtain ⟨tb, kb⟩ := b
    obtain ⟨rfl, rfl⟩ := Prod.mk.inj (toLex.injective h)
    rfl

instance : Std.LawfulEqOrd ItemId where
  eq_of_compare := compare_eq_iff_eq.mp

instance : Std.TransOrd ItemId := inferInstance

/-- The id of a workspace's data key. The server compares key ids and never sees
a key. -/
structure KeyId where
  digits : List (Fin 16)
  bounded : 0 < digits.length ∧ digits.length ≤ 64
  deriving DecidableEq, Repr

/-- An upload's id, and its idempotency key. -/
structure UploadId where
  bits : Fin (2 ^ 128)
  deriving DecidableEq, Repr

instance : LinearOrder UploadId :=
  LinearOrder.lift' UploadId.bits fun a b h => by
    cases a
    cases b
    exact congrArg _ h

instance : Std.LawfulEqOrd UploadId where
  eq_of_compare := compare_eq_iff_eq.mp

instance : Std.TransOrd UploadId := inferInstance

/-- The public id of an API key. -/
structure ApiKeyId where
  text : String
  deriving DecidableEq, Repr

/-- The API's errors, one per stable error code. -/
inductive ApiError where
  | unauthenticated
  | keyExpired
  | keyRevoked
  | forbiddenRole
  | keyIdMismatch
  | rewriteInProgress
  | leaseHeld
  | rewriteIncomplete (staged source : Nat)
  | rewriteEnded
  | quotaExceeded
  | itemTooLarge
  | contentMismatch
  | notFound
  | invalidId (reason : String)
  | invalidRequest (reason : String)
  | rateLimited
  | serviceUnavailable
  deriving DecidableEq, Repr

/-! ## 64-bit arithmetic

Byte counts and times are `u64` in the source and natural numbers here. The two
additions whose overflow a configuration can provoke are written out: the
saturating one of the quota check, and the plain one of the expiry times, which
wraps in the release profile. -/

/-- One more than the greatest `u64`. -/
def u64Bound : Nat := 2 ^ 64

/-- `u64::saturating_add`. -/
def saturatingAdd (a b : Nat) : Nat := min (a + b) (u64Bound - 1)

/-- `+` on `u64`, as the release profile compiles it. -/
def wrappingAdd (a b : Nat) : Nat := (a + b) % u64Bound

theorem wrappingAdd_of_lt {a b : Nat} (h : a + b < u64Bound) : wrappingAdd a b = a + b :=
  Nat.mod_eq_of_lt h

/-- A deadline is still to come exactly when it is not past the last second. -/
theorem wrappingAdd_later {now secs : Nat} (hnow : now < u64Bound) (hpos : 0 < secs)
    (hsecs : secs < u64Bound) : now < wrappingAdd now secs ↔ now + secs < u64Bound := by
  unfold wrappingAdd
  constructor
  · intro h
    by_contra hlate
    have hsum : (now + secs) % u64Bound = now + secs - u64Bound := by
      rw [Nat.mod_eq_sub_mod (Nat.le_of_not_lt hlate), Nat.mod_eq_of_lt (by omega)]
    omega
  · intro h
    rw [Nat.mod_eq_of_lt h]
    omega

end Passalong
