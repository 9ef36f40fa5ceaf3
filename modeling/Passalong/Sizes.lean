import Passalong.ConfigFile
import Passalong.Lib.Utf8
import Passalong.Ranges

/-!
# Sizes and durations (`config.rs`)

`parse_size` and `parse_duration` cut their text at a number of bytes, and a cut within a
character would be a panic. There is none: both count bytes of ASCII only
(`Sliced.parseSize_eq`, `Sliced.isSome_parseDuration`).

What they accept is a language with a value for each of its texts: `IsSize` and
`IsDuration`. Durations are exactly that (`parseDuration_iff`). A size is that, or a number
of bytes with a space behind it and no unit (`parseSize_iff`): the space is counted, and the
empty unit is one.
-/

namespace Passalong

open Lib.Utf8

/-! ## As the source cuts it -/

/-- `u8::is_ascii_digit` -/
def isAsciiDigit (b : UInt8) : Bool := 48 ≤ b.toNat && b.toNat ≤ 57

/-- How many binary digits a unit of `parse_size` adds. -/
def shiftOf (unit : List Char) : Option Nat :=
  if unit = [] then some 0
  else if unit = "KiB".toList then some 10
  else if unit = "MiB".toList then some 20
  else if unit = "GiB".toList then some 30
  else if unit = "TiB".toList then some 40
  else none

/-- How many seconds a unit of `parse_duration` has. -/
def secondsOf (unit : Char) : Option Nat :=
  if unit = 's' then some 1
  else if unit = 'm' then some 60
  else if unit = 'h' then some 3600
  else if unit = 'd' then some 86400
  else if unit = 'w' then some (7 * 86400)
  else none

def notADuration (text : List Char) : String :=
  "`" ++ String.ofList text ++ "` is not a duration: write a whole number and s, m, h, d, or w, " ++
    "such as 90d"

/-- What `parse_size` makes of the parts of its text. -/
def sizeOf (text number trimmed : List Char) (spaces : Nat) : Except String (Option Nat) :=
  match shiftOf trimmed with
  | none =>
    .error ("`" ++ String.ofList text ++ "` is not a size: write a number of bytes, or one with " ++
      "KiB, MiB, GiB, or TiB, such as \"20 GiB\"")
  | some shift =>
    match (parseU64 number).filter fun _ => spaces ≤ 1 with
    | none =>
      .error ("`" ++ String.ofList text ++ "` is not a size: it must start with a whole number")
    | some n =>
      if n * 2 ^ shift < u64Bound then .ok (some (n * 2 ^ shift))
      else .error ("`" ++ String.ofList text ++ "` is more bytes than can be counted")

namespace Sliced

/-- `parse_size`; `none` is a panic. -/
def parseSize (text : List Char) : Option (Except String (Option Nat)) :=
  if text = "unlimited".toList then some (.ok none)
  else
    let digits := ((encode text).takeWhile isAsciiDigit).length
    (splitAt text digits).map fun (number, unit) =>
      let trimmed := unit.dropWhile (· = ' ')
      sizeOf text number trimmed ((encode unit).length - (encode trimmed).length)

/-- `parse_duration`; `none` is a panic. -/
def parseDuration (text : List Char) : Option (Except String Nat) :=
  match text.getLast? with
  | none => some (.error (notADuration text))
  | some unit =>
    match secondsOf unit with
    | none => some (.error (notADuration text))
    | some each =>
      (splitAt text ((encode text).length - 1)).map fun (number, _) =>
        if number = [] ∨ ¬(encode number).all isAsciiDigit then .error (notADuration text)
        else
          match (parseU64 number).filter fun n => n * each < u64Bound with
          | none => .error (notADuration text)
          | some n => .ok (n * each)

end Sliced

/-! ## No cut is within a character -/

theorem isDigit_iff (c : Char) : c.isDigit ↔ 48 ≤ c.toNat ∧ c.toNat ≤ 57 := by
  unfold Char.isDigit
  simp only [ge_iff_le, Bool.and_eq_true, decide_eq_true_eq]
  exact Iff.rfl

theorem isAscii_of_isDigit {c : Char} (h : c.isDigit) : isAscii c := by
  have hhigh := ((isDigit_iff c).mp h).2
  exact decide_eq_true (by omega)

theorem isAsciiDigit_eq {c : Char} (h : isAscii c) : isAsciiDigit c.toNat.toUInt8 = c.isDigit := by
  have hlow : c.toNat < 0x80 := by simpa [isAscii] using h
  have hbyte : c.toNat.toUInt8.toNat = c.toNat := by
    rw [Nat.toUInt8, UInt8.toNat_ofNat']
    omega
  rw [Bool.eq_iff_iff, isDigit_iff]
  unfold isAsciiDigit
  rw [hbyte]
  simp

theorem isAsciiDigit_high (b : UInt8) (hb : 0x80 ≤ b.toNat) : isAsciiDigit b = false := by
  unfold isAsciiDigit
  simp
  omega

theorem isDigit_eq_false {c : Char} (hc : isAscii c = false) : c.isDigit = false := by
  refine Bool.eq_false_iff.mpr fun hdigit => ?_
  rw [isAscii_of_isDigit hdigit] at hc
  cases hc

/-- The digits that the bytes begin with are those that the text begins with. -/
theorem takeWhile_isAsciiDigit (text : List Char) :
    (encode text).takeWhile isAsciiDigit = encode (text.takeWhile Char.isDigit) :=
  takeWhile_encode (fun _ => isAsciiDigit_eq) isAsciiDigit_high (fun _ => isDigit_eq_false) text

theorem all_isAsciiDigit (text : List Char) :
    (encode text).all isAsciiDigit = text.all Char.isDigit :=
  all_encode (fun _ => isAsciiDigit_eq) isAsciiDigit_high (fun _ => isDigit_eq_false) text

theorem splitAt_digits (text : List Char) :
    splitAt text ((encode text).takeWhile isAsciiDigit).length =
      some (text.takeWhile Char.isDigit, text.dropWhile Char.isDigit) := by
  rw [splitAt_eq_some, takeWhile_isAsciiDigit]
  exact ⟨List.takeWhile_append_dropWhile.symm, rfl⟩

/-- Spaces are bytes. -/
theorem length_spaces (unit : List Char) :
    (encode unit).length - (encode (unit.dropWhile (· = ' '))).length =
      unit.length - (unit.dropWhile (· = ' ')).length := by
  have hspaces : ∀ c ∈ unit.takeWhile (· = ' '), isAscii c := by
    intro c hc
    have hspace : c = ' ' := by simpa using List.mem_takeWhile_imp hc
    rw [hspace]
    rfl
  have hsplit := List.takeWhile_append_dropWhile (p := fun c => decide (c = ' ')) (l := unit)
  have hbytes := congrArg (fun text => (encode text).length) hsplit
  have hchars := congrArg List.length hsplit
  simp only [encode_append, List.length_append] at hbytes hchars
  rw [encode_ascii hspaces, List.length_map] at hbytes
  omega

theorem parseSize_eq_sizeOf {text : List Char} (h : text ≠ "unlimited".toList) :
    parseSize text = sizeOf text (text.takeWhile Char.isDigit)
      ((text.dropWhile Char.isDigit).dropWhile (· = ' '))
      ((text.dropWhile Char.isDigit).length -
        ((text.dropWhile Char.isDigit).dropWhile (· = ' ')).length) :=
  if_neg h

/-- **`parse_size` does not panic**, and is what it is by characters. -/
theorem Sliced.parseSize_eq (text : List Char) :
    Sliced.parseSize text = some (Passalong.parseSize text) := by
  unfold Sliced.parseSize
  by_cases hunlimited : text = "unlimited".toList
  · have hchars : Passalong.parseSize text = .ok none := if_pos hunlimited
    rw [if_pos hunlimited, hchars]
  · dsimp only
    rw [if_neg hunlimited, parseSize_eq_sizeOf hunlimited, splitAt_digits, Option.map_some,
      length_spaces]

/-- The last character that is a unit is one byte. -/
theorem splitAt_unit (number : List Char) {unit : Char} (h : isAscii unit) :
    splitAt (number ++ [unit]) ((encode (number ++ [unit])).length - 1) =
      some (number, [unit]) := by
  rw [splitAt_eq_some, encode_append, List.length_append, length_encode_cons,
    utf8Size_of_isAscii h]
  exact ⟨rfl, rfl⟩

theorem isAscii_of_secondsOf {unit : Char} {each : Nat} (h : secondsOf unit = some each) :
    isAscii unit := by
  unfold secondsOf at h
  split_ifs at h with hs hm hh hd hw
  · rw [hs]
    rfl
  · rw [hm]
    rfl
  · rw [hh]
    rfl
  · rw [hd]
    rfl
  · rw [hw]
    rfl

/-- **Nor does `parse_duration`.** -/
theorem Sliced.isSome_parseDuration (text : List Char) : (Sliced.parseDuration text).isSome := by
  induction text using List.reverseRecOn with
  | nil => rfl
  | append_singleton number unit =>
    unfold Sliced.parseDuration
    rw [List.getLast?_concat]
    dsimp only
    cases hunit : secondsOf unit with
    | none => rfl
    | some each =>
      dsimp only
      rw [splitAt_unit number (isAscii_of_secondsOf hunit)]
      rfl

/-! ## The languages -/

/-- Some digits, and the number they spell. -/
structure Spells (digits : List Char) (n : Nat) : Prop where
  nonempty : digits ≠ []
  digit : ∀ c ∈ digits, c.isDigit
  value : Nat.ofDigitChars 10 digits 0 = n

/-- The sizes, and how many bytes they are. -/
inductive IsSize : List Char → Option Nat → Prop
  | unlimited : IsSize "unlimited".toList none
  | bytes {digits : List Char} {n : Nat} (hdigits : Spells digits n) (hn : n < u64Bound) :
    IsSize digits (some n)
  | unit {digits space unit : List Char} {n shift : Nat} (hdigits : Spells digits n)
    (hspace : space = [] ∨ space = [' '])
    (hunit : (unit, shift) ∈ [("KiB".toList, 10), ("MiB".toList, 20), ("GiB".toList, 30),
      ("TiB".toList, 40)])
    (hn : n * 2 ^ shift < u64Bound) :
    IsSize (digits ++ space ++ unit) (some (n * 2 ^ shift))

/-- The durations, and how many seconds they are. -/
inductive IsDuration : List Char → Nat → Prop
  | of {number : List Char} {unit : Char} {n each : Nat} (hnumber : Spells number n)
    (hunit : (unit, each) ∈ [('s', 1), ('m', 60), ('h', 60 * 60), ('d', 24 * 60 * 60),
      ('w', 7 * 24 * 60 * 60)])
    (hn : n * each < u64Bound) :
    IsDuration (number ++ [unit]) (n * each)

/-- A number of bytes, and a space with no unit behind it. -/
def Trailing (text : List Char) : Prop :=
  ∃ digits n, Spells digits n ∧ n < u64Bound ∧ text = digits ++ [' ']

theorem parseU64_eq_some {digits : List Char} (hdigits : ∀ c ∈ digits, c.isDigit) {n : Nat} :
    parseU64 digits = some n ↔ Spells digits n ∧ n < u64Bound := by
  constructor
  · intro h
    have hplus : digits.head? ≠ some '+' := fun hhead => by
      have hdigit := hdigits '+' (List.mem_of_mem_head? hhead)
      revert hdigit
      decide
    unfold parseU64 at h
    rw [if_neg hplus] at h
    dsimp only at h
    split_ifs at h with hnil hall hn
    rw [Option.some_inj, ← Nat.ofDigitChars_eq_foldl] at h
    rw [← Nat.ofDigitChars_eq_foldl, h] at hn
    exact ⟨⟨hnil, hdigits, h⟩, hn⟩
  · rintro ⟨⟨hne, -, hvalue⟩, hn⟩
    exact parseU64_digits hne hdigits hvalue hn

theorem secondsOf_eq_some {unit : Char} {each : Nat} :
    secondsOf unit = some each ↔
      (unit, each) ∈ [('s', 1), ('m', 60), ('h', 60 * 60), ('d', 24 * 60 * 60),
        ('w', 7 * 24 * 60 * 60)] := by
  unfold secondsOf
  constructor
  · intro h
    split_ifs at h with hs hm hh hd hw <;>
    · cases h
      simp [*]
  · intro h
    simp only [List.mem_cons, Prod.mk.injEq, List.not_mem_nil, or_false] at h
    rcases h with ⟨rfl, rfl⟩ | ⟨rfl, rfl⟩ | ⟨rfl, rfl⟩ | ⟨rfl, rfl⟩ | ⟨rfl, rfl⟩ <;> rfl

theorem pos_of_secondsOf {unit : Char} {each : Nat} (h : secondsOf unit = some each) :
    0 < each := by
  have hmem := secondsOf_eq_some.mp h
  simp only [List.mem_cons, Prod.mk.injEq, List.not_mem_nil, or_false] at hmem
  omega

/-- **The durations are exactly what is accepted.** -/
theorem parseDuration_iff {text : List Char} {secs : Nat} :
    Sliced.parseDuration text = some (.ok secs) ↔ IsDuration text secs := by
  constructor
  · intro h
    unfold Sliced.parseDuration at h
    induction text using List.reverseRecOn with
    | nil => cases h
    | append_singleton number unit =>
      rw [List.getLast?_concat] at h
      dsimp only at h
      cases hunit : secondsOf unit with
      | none =>
        rw [hunit] at h
        cases h
      | some each =>
        rw [hunit] at h
        dsimp only at h
        rw [splitAt_unit number (isAscii_of_secondsOf hunit), Option.map_some, Option.some_inj,
          all_isAsciiDigit] at h
        dsimp only at h
        split_ifs at h with hnumber
        obtain ⟨-, hdigits⟩ := not_or.mp hnumber
        rw [not_not, List.all_eq_true] at hdigits
        cases hn : (parseU64 number).filter fun n => n * each < u64Bound with
        | none =>
          rw [hn] at h
          cases h
        | some n =>
          rw [hn] at h
          cases h
          obtain ⟨hparse, hbound⟩ := Option.filter_eq_some_iff.mp hn
          exact .of ((parseU64_eq_some hdigits).mp hparse).1 (secondsOf_eq_some.mp hunit)
            (of_decide_eq_true hbound)
  · rintro (@⟨number, unit, n, each, hnumber, hmem, hn⟩)
    have hunit := secondsOf_eq_some.mpr hmem
    have hle : n ≤ n * each := Nat.le_mul_of_pos_right n (pos_of_secondsOf hunit)
    have hparse := (parseU64_eq_some hnumber.digit).mpr ⟨hnumber, hle.trans_lt hn⟩
    have hdigits : ¬(number = [] ∨ ¬number.all Char.isDigit = true) := by
      rw [not_or, not_not, List.all_eq_true]
      exact ⟨hnumber.nonempty, hnumber.digit⟩
    unfold Sliced.parseDuration
    rw [List.getLast?_concat]
    dsimp only
    rw [hunit]
    dsimp only
    rw [splitAt_unit number (isAscii_of_secondsOf hunit), Option.map_some, all_isAsciiDigit]
    dsimp only
    rw [if_neg hdigits, hparse, Option.filter_some, if_pos (decide_eq_true hn)]

/-- The units of a size. No unit is one. -/
theorem shiftOf_eq_some {unit : List Char} {shift : Nat} :
    shiftOf unit = some shift ↔ unit = [] ∧ shift = 0 ∨
      (unit, shift) ∈ [("KiB".toList, 10), ("MiB".toList, 20), ("GiB".toList, 30),
        ("TiB".toList, 40)] := by
  unfold shiftOf
  constructor
  · intro h
    split_ifs at h with hnone hk hm hg ht
    · cases h
      exact .inl ⟨hnone, rfl⟩
    all_goals
      cases h
      refine .inr ?_
      simp [*]
  · intro h
    simp only [List.mem_cons, Prod.mk.injEq, List.not_mem_nil, or_false] at h
    rcases h with ⟨rfl, rfl⟩ | ⟨rfl, rfl⟩ | ⟨rfl, rfl⟩ | ⟨rfl, rfl⟩ | ⟨rfl, rfl⟩ <;> simp

/-- A unit is no digit and no space, and goes on to no space. -/
theorem unit_ends {unit : List Char} {shift : Nat} (h : shiftOf unit = some shift) :
    (∀ c ∈ unit.head?, c.isDigit = false ∧ c ≠ ' ') ∧ unit.getLast? ≠ some ' ' := by
  rcases shiftOf_eq_some.mp h with ⟨rfl, -⟩ | hmem
  · simp
  · simp only [List.mem_cons, Prod.mk.injEq, List.not_mem_nil, or_false] at hmem
    rcases hmem with ⟨rfl, -⟩ | ⟨rfl, -⟩ | ⟨rfl, -⟩ | ⟨rfl, -⟩ <;> simp

theorem ne_unlimited {digits : List Char} (rest : List Char) (hne : digits ≠ [])
    (hdigits : ∀ c ∈ digits, c.isDigit) : digits ++ rest ≠ "unlimited".toList := by
  obtain ⟨c, cs, rfl⟩ := List.exists_cons_of_ne_nil hne
  intro h
  have hu : "unlimited".toList.head? = some 'u' := by simp
  rw [← h, List.cons_append, List.head?_cons, Option.some_inj] at hu
  have hdigit := hdigits c List.mem_cons_self
  rw [hu] at hdigit
  cases hdigit

/-- The parts that a size is cut into are the parts it was put together of. -/
theorem parseSize_parts {digits space unit : List Char} {shift : Nat} (hne : digits ≠ [])
    (hdigits : ∀ c ∈ digits, c.isDigit) (hspace : space = [] ∨ space = [' '])
    (hunit : shiftOf unit = some shift) :
    parseSize (digits ++ (space ++ unit)) =
      sizeOf (digits ++ (space ++ unit)) digits unit space.length := by
  obtain ⟨hhead, -⟩ := unit_ends hunit
  have htrimmed : (space ++ unit).dropWhile (· = ' ') = unit := by
    have hkept : unit.dropWhile (· = ' ') = unit := by
      cases unit with
      | nil => rfl
      | cons c unit => exact List.dropWhile_cons_of_neg (by simpa using (hhead c rfl).2)
    rcases hspace with rfl | rfl
    · exact hkept
    · rw [List.singleton_append, List.dropWhile_cons_of_pos (by simp), hkept]
  have hstop : ∀ c ∈ (space ++ unit).head?, c.isDigit = false := by
    rcases hspace with rfl | rfl
    · exact fun c hc => (hhead c hc).1
    · rintro c ⟨⟩
      rfl
  have hnumber : (digits ++ (space ++ unit)).takeWhile Char.isDigit = digits ∧
      (digits ++ (space ++ unit)).dropWhile Char.isDigit = space ++ unit := by
    rw [List.takeWhile_append_of_pos hdigits, List.dropWhile_append_of_pos hdigits]
    cases hrest : space ++ unit with
    | nil => simp
    | cons c rest =>
      have hc : ¬c.isDigit = true := by
        rw [hstop c (hrest ▸ rfl)]
        exact Bool.false_ne_true
      rw [List.takeWhile_cons_of_neg hc, List.dropWhile_cons_of_neg hc, List.append_nil]
      exact ⟨rfl, rfl⟩
  have hlength : (space ++ unit).length - unit.length = space.length := by
    rw [List.length_append, Nat.add_sub_cancel]
  rw [parseSize_eq_sizeOf (ne_unlimited _ hne hdigits), hnumber.1, hnumber.2, htrimmed, hlength]

theorem sizeOf_eq_ok {text number trimmed : List Char} {spaces : Nat} {v : Option Nat} :
    sizeOf text number trimmed spaces = .ok v ↔
      ∃ shift n, shiftOf trimmed = some shift ∧ parseU64 number = some n ∧ spaces ≤ 1 ∧
        n * 2 ^ shift < u64Bound ∧ v = some (n * 2 ^ shift) := by
  unfold sizeOf
  constructor
  · intro h
    cases hshift : shiftOf trimmed with
    | none =>
      rw [hshift] at h
      cases h
    | some shift =>
      rw [hshift] at h
      dsimp only at h
      cases hn : (parseU64 number).filter fun _ => spaces ≤ 1 with
      | none =>
        rw [hn] at h
        cases h
      | some n =>
        rw [hn] at h
        dsimp only at h
        split_ifs at h with hbound
        cases h
        obtain ⟨hparse, hspaces⟩ := Option.filter_eq_some_iff.mp hn
        exact ⟨shift, n, rfl, hparse, of_decide_eq_true hspaces, hbound, rfl⟩
  · rintro ⟨shift, n, hshift, hparse, hspaces, hbound, rfl⟩
    rw [hshift, hparse]
    dsimp only
    rw [Option.filter_some, if_pos (decide_eq_true hspaces)]
    dsimp only
    rw [if_pos hbound]

theorem parseSize_accepts {digits space unit : List Char} {n shift : Nat}
    (hdigits : Spells digits n) (hspace : space = [] ∨ space = [' '])
    (hunit : shiftOf unit = some shift) (hn : n * 2 ^ shift < u64Bound) :
    parseSize (digits ++ (space ++ unit)) = .ok (some (n * 2 ^ shift)) := by
  have hle : n ≤ n * 2 ^ shift := Nat.le_mul_of_pos_right n (Nat.two_pow_pos shift)
  have hspaces : space.length ≤ 1 := by rcases hspace with rfl | rfl <;> simp
  rw [parseSize_parts hdigits.nonempty hdigits.digit hspace hunit, sizeOf_eq_ok]
  exact ⟨shift, n, hunit, (parseU64_eq_some hdigits.digit).mpr ⟨hdigits, hle.trans_lt hn⟩,
    hspaces, hn, rfl⟩

/-- At most one space is none or one. -/
theorem exists_space {unit : List Char}
    (h : unit.length - (unit.dropWhile (· = ' ')).length ≤ 1) :
    ∃ space, unit = space ++ unit.dropWhile (· = ' ') ∧ (space = [] ∨ space = [' ']) := by
  have hsplit := unit.takeWhile_append_dropWhile (p := fun c => decide (c = ' '))
  have hlength := congrArg List.length hsplit
  rw [List.length_append] at hlength
  refine ⟨unit.takeWhile (· = ' '), hsplit.symm, ?_⟩
  match hspace : unit.takeWhile (· = ' ') with
  | [] => exact .inl rfl
  | [c] =>
    have hc : c ∈ unit.takeWhile (· = ' ') := hspace ▸ List.mem_cons_self
    have heq : c = ' ' := by simpa using List.mem_takeWhile_imp hc
    exact .inr (heq ▸ rfl)
  | _ :: _ :: _ =>
    rw [hspace] at hlength
    simp only [List.length_cons] at hlength
    omega

/-- **What is accepted: the sizes, and numbers with a space behind them.** -/
theorem parseSize_iff {text : List Char} {v : Option Nat} :
    Sliced.parseSize text = some (.ok v) ↔ IsSize text v ∨
      ∃ digits n, Spells digits n ∧ n < u64Bound ∧ text = digits ++ [' '] ∧ v = some n := by
  rw [Sliced.parseSize_eq, Option.some_inj]
  constructor
  · intro h
    by_cases hunlimited : text = "unlimited".toList
    · rw [hunlimited] at h ⊢
      have hnone : parseSize "unlimited".toList = .ok none := if_pos rfl
      rw [hnone] at h
      cases h
      exact .inl .unlimited
    · rw [parseSize_eq_sizeOf hunlimited, sizeOf_eq_ok] at h
      obtain ⟨shift, n, hshift, hparse, hspaces, hbound, rfl⟩ := h
      have hdigits : ∀ c ∈ text.takeWhile Char.isDigit, c.isDigit := fun c hc =>
        List.mem_takeWhile_imp hc
      obtain ⟨hspells, hn⟩ := (parseU64_eq_some hdigits).mp hparse
      obtain ⟨space, hunit, hspace⟩ := exists_space hspaces
      have htext := text.takeWhile_append_dropWhile (p := Char.isDigit)
      rw [hunit] at htext
      rcases shiftOf_eq_some.mp hshift with ⟨hnone, rfl⟩ | hmem
      · rw [hnone, List.append_nil] at htext
        rw [pow_zero, Nat.mul_one]
        rcases hspace with rfl | rfl
        · rw [List.append_nil] at htext
          rw [← htext]
          exact .inl (.bytes hspells hn)
        · exact .inr ⟨_, n, hspells, hn, htext.symm, rfl⟩
      · rw [← htext, ← List.append_assoc]
        exact .inl (.unit hspells hspace hmem hbound)
  · have hnone : shiftOf [] = some 0 := rfl
    rintro (h | ⟨digits, n, hdigits, hn, rfl, rfl⟩)
    · cases h with
      | unlimited => exact if_pos rfl
      | @bytes _ n hdigits hn =>
        have haccepts := parseSize_accepts hdigits (.inl rfl) hnone (by simpa using hn)
        simpa using haccepts
      | unit hdigits hspace hmem hn =>
        rw [List.append_assoc]
        exact parseSize_accepts hdigits hspace (shiftOf_eq_some.mpr (.inr hmem)) hn
    · have haccepts := parseSize_accepts hdigits (.inr rfl) hnone (by simpa using hn)
      simpa using haccepts

/-- No size ends with a space. -/
theorem getLast?_of_isSize {text : List Char} {v : Option Nat} (h : IsSize text v) :
    text.getLast? ≠ some ' ' := by
  cases h with
  | unlimited => simp
  | bytes hdigits hn =>
    intro hlast
    have hdigit := hdigits.digit ' ' (List.mem_of_getLast? hlast)
    cases hdigit
  | @unit digits space unit n shift hdigits hspace hmem hn =>
    have hends := (unit_ends (shiftOf_eq_some.mpr (.inr hmem))).2
    have hne : unit ≠ [] := by
      rintro rfl
      simp at hmem
    rw [List.getLast?_append_of_ne_nil _ hne]
    exact hends

/-- What a user is told of sizes and durations: none of them is a panic, and exactly these
texts are some. -/
structure Exact (text : List Char) : Prop where
  size_isSome : (Sliced.parseSize text).isSome
  duration_isSome : (Sliced.parseDuration text).isSome
  size : ∀ v, Sliced.parseSize text = some (.ok v) ↔ IsSize text v
  duration : ∀ secs, Sliced.parseDuration text = some (.ok secs) ↔ IsDuration text secs

/-- **And that is so of a text unless it is a number with a space behind it.** -/
theorem sizes_exact_iff (text : List Char) : Exact text ↔ ¬Trailing text := by
  constructor
  · rintro h ⟨digits, n, hdigits, hn, rfl⟩
    have haccepted := parseSize_iff.mpr (.inr ⟨digits, n, hdigits, hn, rfl, rfl⟩)
    exact getLast?_of_isSize ((h.size _).mp haccepted) List.getLast?_concat
  · intro h
    constructor
    case size_isSome =>
      rw [Sliced.parseSize_eq]
      rfl
    case duration_isSome => exact Sliced.isSome_parseDuration text
    case size =>
      intro v
      refine ⟨fun haccepted => ?_, fun hsize => parseSize_iff.mpr (.inl hsize)⟩
      rcases parseSize_iff.mp haccepted with hsize | ⟨digits, n, hdigits, hn, htext, -⟩
      · exact hsize
      · exact absurd ⟨digits, n, hdigits, hn, htext⟩ h
    case duration => exact fun secs => parseDuration_iff

/-- **A number with a space behind it is taken for a size.** -/
theorem sizes_exact_space : ¬Exact ['5', '1', '2', ' '] := by
  intro h
  have hspells : Spells ['5', '1', '2'] 512 := by
    constructor
    case nonempty => simp
    case digit => simp
    case value => decide
  have haccepted := parseSize_iff.mpr (.inr ⟨_, 512, hspells, by decide, rfl, rfl⟩)
  exact getLast?_of_isSize ((h.size _).mp haccepted) rfl

end Passalong
