import Passalong.Texts

/-!
# API keys (`auth.rs`)

A key is `pal_<key id>_<secret>`: twelve hex digits of public id and sixty-four of secret,
both of a fixed length and so modelled by their numbers. A token is parsed as a key if and
only if it is that key's text (`parse_eq_some`). The server keeps the SHA-256 of the secret.
-/

namespace Passalong

/-! ## Keys -/

/-- Hex digits are no underscores. -/
theorem underscore_notMem_numberText (width n : Nat) : '_' ∉ numberText width n := by
  intro hmem
  obtain ⟨d, -, hd⟩ := List.mem_map.mp hmem
  revert d
  decide

/-- A whole key, secret included. -/
structure ApiKey where
  id : Fin (16 ^ 12)
  secret : Fin (16 ^ 64)
  deriving DecidableEq

namespace ApiKey

/-- What every key starts with. -/
def start : List Char := ['p', 'a', 'l', '_']

/-- The key's public id. -/
def keyId (key : ApiKey) : ApiKeyId := ⟨String.ofList (numberText 12 key.id)⟩

/-- The whole key as text. -/
def reveal (key : ApiKey) : String :=
  String.ofList (start ++ (numberText 12 key.id ++ '_' :: numberText 64 key.secret))

/-- Parses a bearer token. -/
def parse (token : String) : Option ApiKey :=
  match start.isPrefixOf? token.toList with
  | none => none
  | some rest =>
    match splitOnce '_' rest with
    | none => none
    | some (id, secret) =>
      match parseNumber 12 id, parseNumber 64 secret with
      | some id, some secret => some ⟨id, secret⟩
      | _, _ => none

/-- **A key parses back, and nothing else does.** -/
theorem parse_eq_some {token : String} {key : ApiKey} :
    parse token = some key ↔ token = key.reveal := by
  unfold parse
  constructor
  · intro h
    cases hstart : start.isPrefixOf? token.toList with
    | none =>
      rw [hstart] at h
      cases h
    | some rest =>
      rw [hstart] at h
      dsimp only at h
      cases hsplit : splitOnce '_' rest with
      | none =>
        rw [hsplit] at h
        cases h
      | some parts =>
        obtain ⟨id, secret⟩ := parts
        rw [hsplit] at h
        dsimp only at h
        cases hid : parseNumber 12 id with
        | none =>
          rw [hid] at h
          cases h
        | some idNumber =>
          cases hsecret : parseNumber 64 secret with
          | none =>
            rw [hid, hsecret] at h
            cases h
          | some secretNumber =>
            rw [hid, hsecret] at h
            cases h
            have htoken := List.isPrefixOf?_eq_some_iff_append_eq.mp hstart
            rw [of_splitOnce hsplit] at htoken
            rw [reveal, of_parseNumber hid, of_parseNumber hsecret, htoken, String.ofList_toList]
  · rintro rfl
    have hstart : start.isPrefixOf? key.reveal.toList =
        some (numberText 12 key.id ++ '_' :: numberText 64 key.secret) := by
      rw [List.isPrefixOf?_eq_some_iff_append_eq, reveal, String.toList_ofList]
    have hid := @parseNumber_numberText 12 key.id
    have hsecret := @parseNumber_numberText 64 key.secret
    rw [hstart]
    dsimp only
    rw [splitOnce_append (underscore_notMem_numberText _ _)]
    dsimp only
    rw [hid, hsecret]

theorem reveal_injective : Function.Injective reveal := by
  intro a b h
  have ha : parse a.reveal = some a := parse_eq_some.mpr rfl
  rw [h, parse_eq_some.mpr rfl] at ha
  exact (Option.some.inj ha).symm

/-- Keys of one public id have the same id. -/
theorem keyId_injective {a b : ApiKey} (h : a.keyId = b.keyId) : a.id = b.id := by
  have htext : numberText 12 a.id = numberText 12 b.id :=
    String.ofList_injective (ApiKeyId.mk.inj h)
  have ha := @parseNumber_numberText 12 a.id
  have hb := @parseNumber_numberText 12 b.id
  rw [htext, hb] at ha
  exact (Option.some.inj ha).symm

end ApiKey

/-! ## Hashes -/

/-- The SHA-256 of a secret's text: what the server keeps of it. -/
def secretHash [Crates] (secret : Fin (16 ^ 64)) : Digest :=
  Crates.sha256 ((numberText 64 secret).map fun c => UInt8.ofNat c.toNat)

def ApiKey.hash [Crates] (key : ApiKey) : Digest := secretHash key.secret

/-- What an unknown key id is compared with. -/
def hashOfNothing : Digest := ⟨0⟩

end Passalong
