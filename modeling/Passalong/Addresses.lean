import Passalong.Limiter

/-!
# Addresses as text

The parser of the standard library for IP addresses and for addresses with a port. Text
that it takes for an IP address is hex digits, dots and colons, and nothing else
(`addressChars_of_parseIp`).
-/

namespace Passalong

/-! ## The parser of addresses -/

/-- `char::to_digit` -/
def toDigit (radix : Nat) (c : Char) : Option Nat :=
  let value :=
    if '0' ≤ c ∧ c ≤ '9' then some (c.toNat - '0'.toNat)
    else if 'a' ≤ c ∧ c ≤ 'f' then some (c.toNat - 'a'.toNat + 10)
    else if 'A' ≤ c ∧ c ≤ 'F' then some (c.toNat - 'A'.toNat + 10)
    else none
  value.filter (· < radix)

/-- `read_number`: as many digits as there are, at most `maxDigits`; the number must be
below `bound`. -/
def readNumber (radix maxDigits : Nat) (allowZeroPrefix : Bool) (bound : Nat) (s : List Char) :
    Option (Fin bound × List Char) :=
  let digits := s.takeWhile fun c => (toDigit radix c).isSome
  let value := digits.foldl (fun n c => radix * n + (toDigit radix c).getD 0) 0
  if digits.length = 0 ∨ maxDigits < digits.length then none
  else if !allowZeroPrefix ∧ s.head? = some '0' ∧ 1 < digits.length then none
  else if h : value < bound then
    some (⟨value, h⟩, s.dropWhile fun c => (toDigit radix c).isSome)
  else none

/-- `read_given_char` -/
def readGivenChar (target : Char) : List Char → Option (List Char)
  | [] => none
  | c :: s => if c = target then some s else none

/-- `read_separator`: the first of several has no separator before it. -/
def readSeparator {α : Type} (sep : Char) (first : Bool)
    (inner : List Char → Option (α × List Char)) (s : List Char) : Option (α × List Char) :=
  if first then inner s else (readGivenChar sep s).bind inner

/-- The next `left` octets of an IPv4 address, leading zeros not allowed. -/
def readOctets : Nat → Bool → List Char → Option (List (Fin 256) × List Char)
  | 0, _, s => some ([], s)
  | left + 1, first, s =>
    match readSeparator '.' first (readNumber 10 3 false 256) s with
    | none => none
    | some (octet, rest) =>
      match readOctets left false rest with
      | none => none
      | some (octets, rest) => some (octet :: octets, rest)

/-- `read_ipv4_addr` -/
def readIpv4Addr : List Char → Option (List (Fin 256) × List Char) := readOctets 4 true

/-- The number that some digits of a base are, the highest first. -/
def bigEndian {base : Nat} (digits : List (Fin base)) : Nat :=
  digits.foldl (fun n (d : Fin base) => base * n + d) 0

/-- `read_groups`: up to `left` groups of an IPv6 address, and whether an embedded IPv4
address ended them; there must be room for two groups to try one. -/
def readGroups : Nat → Bool → List Char → List (Fin 65536) × Bool × List Char
  | 0, _, s => ([], false, s)
  | left + 1, first, s =>
    match if 0 < left then readSeparator ':' first readIpv4Addr s else none with
    | some (octets, rest) =>
      ([Fin.ofNat _ (bigEndian (octets.take 2)), Fin.ofNat _ (bigEndian (octets.drop 2))],
        true, rest)
    | none =>
      match readSeparator ':' first (readNumber 16 4 true 65536) s with
      | none => ([], false, s)
      | some (group, rest) =>
        match readGroups left false rest with
        | (groups, ipv4, rest) => (group :: groups, ipv4, rest)

/-- `read_ipv6_addr`: all eight groups, or `::` where one or more of zeros are left out. An
IPv4 part is not allowed before `::`. -/
def readIpv6Addr (s : List Char) : Option (List (Fin 65536) × List Char) :=
  match readGroups 8 true s with
  | (head, ipv4, rest) =>
    if head.length = 8 then some (head, rest)
    else if ipv4 then none
    else
      match (readGivenChar ':' rest).bind (readGivenChar ':') with
      | none => none
      | some rest =>
        match readGroups (8 - (head.length + 1)) true rest with
        | (tail, _, rest) =>
          some (head ++ List.replicate (8 - head.length - tail.length) 0 ++ tail, rest)

/-- `str::parse::<IpAddr>`: the one or the other, and nothing after it. -/
def parseIp (s : List Char) : Option IpAddr :=
  match readIpv4Addr s with
  | some (octets, rest) =>
    if rest = [] then some (.v4 (Fin.ofNat _ (bigEndian octets))) else none
  | none =>
    match readIpv6Addr s with
    | some (groups, rest) =>
      if rest = [] then some (.v6 (Fin.ofNat _ (bigEndian groups))) else none
    | none => none

example : parseIp "203.0.113.9".toList = some (.v4 0xcb007109) := by decide +kernel
example : parseIp "::ffff:192.0.2.7".toList = some (.v6 0xffffc0000207) := by decide +kernel

/-! ## What the parser reads -/

/-- The characters of addresses: hex digits, dots and colons. -/
def isAddressChar (c : Char) : Bool := (toDigit 16 c).isSome || c = '.' || c = ':'

/-- Some characters of an address were read, and this is what is left. -/
def Reads (s rest : List Char) : Prop := ∃ read, s = read ++ rest ∧ ∀ c ∈ read, isAddressChar c

namespace Reads

theorem refl (s : List Char) : Reads s s := ⟨[], rfl, by simp⟩

theorem trans {s t u : List Char} (hst : Reads s t) (htu : Reads t u) : Reads s u := by
  obtain ⟨front, rfl, hfront⟩ := hst
  obtain ⟨back, rfl, hback⟩ := htu
  refine ⟨front ++ back, (List.append_assoc ..).symm, ?_⟩
  intro c hc
  exact (List.mem_append.mp hc).elim (hfront c) (hback c)

end Reads

theorem isSome_toDigit_mono {radix : Nat} {c : Char} (hradix : radix ≤ 16)
    (h : (toDigit radix c).isSome) : (toDigit 16 c).isSome := by
  unfold toDigit at h ⊢
  simp only [Option.isSome_filter, Option.any_eq_true, decide_eq_true_eq] at h ⊢
  obtain ⟨value, hvalue, hlt⟩ := h
  exact ⟨value, hvalue, Nat.lt_of_lt_of_le hlt hradix⟩

section Readers

variable {α : Type} {s rest : List Char}

theorem reads_of_readNumber {radix maxDigits bound : Nat} {allowZeroPrefix : Bool}
    {n : Fin bound} (hradix : radix ≤ 16)
    (h : readNumber radix maxDigits allowZeroPrefix bound s = some (n, rest)) : Reads s rest := by
  unfold readNumber at h
  simp only at h
  split at h
  · cases h
  · split at h
    · cases h
    · split at h
      · cases h
        refine ⟨s.takeWhile fun c => (toDigit radix c).isSome, ?_, ?_⟩
        · exact List.takeWhile_append_dropWhile.symm
        · intro c hc
          have htaken := @List.mem_takeWhile_imp _ (fun c => (toDigit radix c).isSome) _ _ hc
          have hdigit := isSome_toDigit_mono hradix htaken
          unfold isAddressChar
          rw [hdigit]
          rfl
      · cases h

theorem reads_of_readGivenChar {c : Char} (hc : isAddressChar c)
    (h : readGivenChar c s = some rest) : Reads s rest := by
  cases s with
  | nil => cases h
  | cons d s =>
    by_cases hd : d = c
    · rw [show readGivenChar c (d :: s) = some s from if_pos hd] at h
      cases h
      exact ⟨[d], rfl, by simpa [hd] using hc⟩
    · rw [show readGivenChar c (d :: s) = none from if_neg hd] at h
      cases h

theorem reads_of_readSeparator {sep : Char} {first : Bool}
    {inner : List Char → Option (α × List Char)} {a : α} (hsep : isAddressChar sep)
    (hinner : ∀ {s a rest}, inner s = some (a, rest) → Reads s rest)
    (h : readSeparator sep first inner s = some (a, rest)) : Reads s rest := by
  unfold readSeparator at h
  split at h
  · exact hinner h
  · obtain ⟨after, hafter, h⟩ := Option.bind_eq_some_iff.mp h
    exact (reads_of_readGivenChar hsep hafter).trans (hinner h)

theorem reads_of_readOctets {left : Nat} {first : Bool} {octets : List (Fin 256)}
    (h : readOctets left first s = some (octets, rest)) : Reads s rest := by
  induction left generalizing s first octets with
  | zero =>
    cases h
    exact .refl _
  | succ left ih =>
    unfold readOctets at h
    split at h
    · cases h
    · next octet after hoctet =>
      have hread := reads_of_readSeparator (by decide) (reads_of_readNumber (by decide)) hoctet
      split at h
      · cases h
      · next octets' rest' hrest =>
        cases h
        exact hread.trans (ih hrest)

theorem reads_readGroups (left : Nat) (first : Bool) (s : List Char) :
    Reads s (readGroups left first s).2.2 := by
  induction left generalizing s first with
  | zero => exact .refl s
  | succ left ih =>
    unfold readGroups
    split
    · next octets rest hipv4 =>
      split at hipv4
      · exact reads_of_readSeparator (by decide) reads_of_readOctets hipv4
      · cases hipv4
    · split
      · exact .refl s
      · next group after hgroup =>
        have hread := reads_of_readSeparator (by decide) (reads_of_readNumber (by decide)) hgroup
        exact hread.trans (ih false after)

theorem reads_of_readIpv6Addr {groups : List (Fin 65536)}
    (h : readIpv6Addr s = some (groups, rest)) : Reads s rest := by
  have hhead := reads_readGroups 8 true s
  unfold readIpv6Addr at h
  split at h
  next head ipv4 after heq =>
  rw [heq] at hhead
  split at h
  · cases h
    exact hhead
  · split at h
    · cases h
    · split at h
      · cases h
      · next behind hcolons =>
        obtain ⟨between, hfirst, hsecond⟩ := Option.bind_eq_some_iff.mp hcolons
        have htail := reads_readGroups (8 - (head.length + 1)) true behind
        cases h
        have hcolon := reads_of_readGivenChar (by decide) hfirst
        exact hhead.trans (hcolon.trans ((reads_of_readGivenChar (by decide) hsecond).trans htail))

end Readers

/-- **An address is hex digits, dots and colons.** -/
theorem addressChars_of_parseIp {s : List Char} {address : IpAddr}
    (h : parseIp s = some address) : ∀ c ∈ s, isAddressChar c := by
  have hall : Reads s [] := by
    unfold parseIp at h
    split at h
    · next octets rest hread =>
      split at h
      · next hrest =>
        rw [← hrest]
        exact reads_of_readOctets hread
      · cases h
    · split at h
      · next groups rest hread =>
        split at h
        · next hrest =>
          rw [← hrest]
          exact reads_of_readIpv6Addr hread
        · cases h
      · cases h
  obtain ⟨read, rfl, hread⟩ := hall
  rwa [List.append_nil]

/-- A digit is between the least and the greatest of them. -/
theorem range_of_isSome_toDigit {radix : Nat} {c : Char} (h : (toDigit radix c).isSome) :
    '0'.toNat ≤ c.toNat ∧ c.toNat ≤ 'f'.toNat := by
  have hbound : ∀ a : Char, a ≤ c ↔ a.toNat ≤ c.toNat := fun a => UInt32.le_iff_toNat_le
  have hbound' : ∀ a : Char, c ≤ a ↔ c.toNat ≤ a.toNat := fun a => UInt32.le_iff_toNat_le
  unfold toDigit at h
  simp only [hbound, hbound', Option.isSome_filter] at h
  simp only [Char.reduceToNat] at h ⊢
  split at h
  · omega
  · split at h
    · omega
    · split at h
      · omega
      · cases h

theorem range_of_isAddressChar {c : Char} (h : isAddressChar c) :
    46 ≤ c.toNat ∧ c.toNat ≤ 102 := by
  unfold isAddressChar at h
  simp only [Bool.or_eq_true, decide_eq_true_eq] at h
  obtain (hdigit | rfl) | rfl := h
  · have hrange := range_of_isSome_toDigit hdigit
    simp only [Char.reduceToNat] at hrange
    omega
  · decide
  · decide

/-! ## Addresses with a port -/

/-- An address and a port. An IPv6 address may name the scope it is of. -/
structure SocketAddr where
  ip : IpAddr
  port : Fin 65536
  scopeId : Fin (2 ^ 32) := 0
  deriving DecidableEq, Repr

/-- `read_port`: as many digits as there are. -/
def readPort (s : List Char) : Option (Fin 65536 × List Char) :=
  (readGivenChar ':' s).bind fun rest => readNumber 10 rest.length true 65536 rest

/-- `read_scope_id` -/
def readScopeId (s : List Char) : Option (Fin (2 ^ 32) × List Char) :=
  (readGivenChar '%' s).bind fun rest => readNumber 10 rest.length true (2 ^ 32) rest

def readSocketAddrV4 (s : List Char) : Option (SocketAddr × List Char) := do
  let (octets, rest) ← readIpv4Addr s
  let (port, rest) ← readPort rest
  return ({ ip := .v4 (Fin.ofNat _ (bigEndian octets)), port }, rest)

def readSocketAddrV6 (s : List Char) : Option (SocketAddr × List Char) := do
  let rest ← readGivenChar '[' s
  let (groups, rest) ← readIpv6Addr rest
  let (scopeId, rest) := (readScopeId rest).getD (0, rest)
  let rest ← readGivenChar ']' rest
  let (port, rest) ← readPort rest
  return ({ ip := .v6 (Fin.ofNat _ (bigEndian groups)), port, scopeId }, rest)

/-- `str::parse::<SocketAddr>` -/
def parseSocketAddr (s : List Char) : Option SocketAddr :=
  match (readSocketAddrV4 s).or (readSocketAddrV6 s) with
  | some (address, []) => some address
  | _ => none

example : parseSocketAddr "[::1]:8080".toList = some ⟨.v6 1, 8080, 0⟩ := by decide +kernel

/-- `is_loopback` -/
def IpAddr.isLoopback : IpAddr → Bool
  | .v4 bits => bits.val / 2 ^ 24 = 127
  | .v6 bits => bits.val = 1

end Passalong
