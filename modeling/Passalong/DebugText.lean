import Passalong.Lib.Toml

/-!
# Text as `{:?}` writes it

Messages and the first configuration file quote text as the standard library writes it for
debugging: in double quotes, and with escapes. Read as a basic string of TOML such a text is
itself as long as each of its characters stands for itself or has an escape that TOML has as
well (`basicString_escapeDebug`). `\0` and `\u{..}` are escapes of Rust only, and a text with
one of them is no basic string at all (`basicString_escapeDebug_of_not_kept`).
-/

namespace Passalong

open Lib.Toml

/-- What the standard library looks up of a character. The tables are those of the Unicode
version it was built with; below U+0080 they are known. -/
class CharTables where
  /-- `is_grapheme_extended` -/
  graphemeExtended : Char → Bool
  /-- `is_printable` -/
  printable : Char → Bool
  graphemeExtended_ascii : ∀ c : Char, c.toNat < 0x80 → graphemeExtended c = false
  printable_ascii : ∀ c : Char, c.toNat < 0x80 →
    printable c = (0x20 ≤ c.toNat && c.toNat < 0x7f : Bool)

section

variable [CharTables]

open CharTables

/-- `escape_unicode` -/
def escapeUnicode (c : Char) : List Char :=
  '\\' :: 'u' :: '\x7b' :: (Nat.toDigits 16 c.toNat ++ ['\x7d'])

/-- `escape_debug_ext`, as it is for text in double quotes. -/
def escapeDebug (c : Char) : List Char :=
  if c = '\x00' then ['\\', '0']
  else if c = '\t' then ['\\', 't']
  else if c = '\r' then ['\\', 'r']
  else if c = '\n' then ['\\', 'n']
  else if c = '\\' ∨ c = '"' then ['\\', c]
  else if graphemeExtended c then escapeUnicode c
  else if printable c then [c]
  else escapeUnicode c

/-- `format!("{:?}", text)` -/
def debugText (text : List Char) : List Char := '"' :: (text.flatMap escapeDebug ++ ['"'])

/-- A character that stands for itself, or that has an escape of TOML's. -/
def Kept (c : Char) : Prop :=
  c ∈ ['\t', '\r', '\n', '\\', '"'] ∨ (graphemeExtended c = false ∧ printable c = true)

instance (c : Char) : Decidable (Kept c) := inferInstanceAs (Decidable (_ ∨ _))

/-- What is printable is no control character. -/
theorem not_isControl_of_printable {c : Char} (h : printable c = true) : isControl c = false := by
  by_cases hascii : c.toNat < 0x80
  · rw [printable_ascii c hascii] at h
    have hrange : 0x20 ≤ c.toNat ∧ c.toNat < 0x7f := by simpa using h
    unfold isControl
    simp
    omega
  · unfold isControl
    simp
    omega

/-- Printable ASCII is kept. -/
theorem kept_of_ascii {c : Char} (h : 0x20 ≤ c.toNat ∧ c.toNat < 0x7f) : Kept c := by
  have hascii : c.toNat < 0x80 := by omega
  refine .inr ⟨graphemeExtended_ascii c hascii, ?_⟩
  rw [printable_ascii c hascii]
  simpa using h

/-- The null character is not printable. -/
theorem ne_null_of_printable {c : Char} (h : printable c = true) : c ≠ '\x00' := by
  rintro rfl
  rw [printable_ascii _ (by decide)] at h
  revert h
  decide

theorem escapeDebug_of_printable {c : Char} (hmem : c ∉ ['\t', '\r', '\n', '\\', '"'])
    (hextended : graphemeExtended c = false) (hprintable : printable c = true) :
    escapeDebug c = [c] := by
  simp only [List.mem_cons, List.not_mem_nil, or_false, not_or] at hmem
  obtain ⟨ht, hr, hn, hbackslash, hquote⟩ := hmem
  unfold escapeDebug
  rw [if_neg (ne_null_of_printable hprintable), if_neg ht, if_neg hr, if_neg hn,
    if_neg (not_or.mpr ⟨hbackslash, hquote⟩), hextended, hprintable]
  rfl

theorem escapeDebug_of_not_kept {c : Char} (h : ¬Kept c) :
    escapeDebug c = if c = '\x00' then ['\\', '0'] else escapeUnicode c := by
  obtain ⟨hmem, hplain⟩ := not_or.mp h
  simp only [List.mem_cons, List.not_mem_nil, or_false, not_or] at hmem
  obtain ⟨ht, hr, hn, hbackslash, hquote⟩ := hmem
  unfold escapeDebug
  rw [if_neg ht, if_neg hr, if_neg hn, if_neg (not_or.mpr ⟨hbackslash, hquote⟩)]
  cases hextended : graphemeExtended c with
  | true => rfl
  | false =>
    have hprintable : ¬printable c = true := fun hprintable => hplain ⟨hextended, hprintable⟩
    rw [if_neg hprintable]
    rfl

/-! ## Read as TOML -/

/-- **What is kept is read back.** -/
theorem basicString_escapeDebug_of_kept {c : Char} (rest : List Char) (h : Kept c) :
    basicString (escapeDebug c ++ rest) = more c (basicString rest) := by
  by_cases hmem : c ∈ ['\t', '\r', '\n', '\\', '"']
  · simp only [List.mem_cons, List.not_mem_nil, or_false] at hmem
    obtain rfl | rfl | rfl | rfl | rfl := hmem
    all_goals exact basicString_escape rest (by decide)
  · obtain ⟨hextended, hprintable⟩ := h.resolve_left hmem
    rw [escapeDebug_of_printable hmem hextended hprintable]
    simp only [List.mem_cons, List.not_mem_nil, or_false, not_or] at hmem
    exact basicString_plain rest hmem.2.2.2.2 hmem.2.2.2.1 (not_isControl_of_printable hprintable)

/-- **What is not kept has an escape that TOML does not have.** -/
theorem basicString_escapeDebug_of_not_kept {c : Char} (rest : List Char) (h : ¬Kept c) :
    basicString (escapeDebug c ++ rest) = .error .invalid := by
  rw [escapeDebug_of_not_kept h]
  split
  · exact basicString_reserved rest (by decide) (by decide) (by decide) (by decide)
  · exact basicString_brace _

theorem basicString_flatMap_of_kept {text : List Char} (rest : List Char)
    (h : ∀ c ∈ text, Kept c) :
    basicString (text.flatMap escapeDebug ++ '"' :: rest) = .ok (text, rest) := by
  induction text with
  | nil => exact basicString_close rest
  | cons c text ih =>
    rw [List.flatMap_cons, List.append_assoc,
      basicString_escapeDebug_of_kept _ (h c List.mem_cons_self),
      ih fun d hd => h d (List.mem_cons_of_mem _ hd)]
    rfl

theorem basicString_flatMap_of_not_kept {text : List Char} (rest : List Char)
    (h : ¬∀ c ∈ text, Kept c) :
    basicString (text.flatMap escapeDebug ++ '"' :: rest) = .error .invalid := by
  induction text with
  | nil => exact absurd (fun c hc => by cases hc) h
  | cons c text ih =>
    rw [List.flatMap_cons, List.append_assoc]
    by_cases hc : Kept c
    · have htext : ¬∀ d ∈ text, Kept d := by
        intro htext
        refine h fun d hd => ?_
        rcases List.mem_cons.mp hd with rfl | hd
        · exact hc
        · exact htext d hd
      rw [basicString_escapeDebug_of_kept _ hc, ih htext]
      rfl
    · exact basicString_escapeDebug_of_not_kept _ hc

/-! ## On one line -/

omit [CharTables] in
theorem exists_of_mem_toDigits {c : Char} {n : Nat} (h : c ∈ Nat.toDigits 16 n) :
    ∃ d : Fin 16, c = Nat.digitChar d := by
  induction n using Nat.strongRecOn with
  | ind n ih =>
    rw [Nat.toDigits_eq_if (by decide)] at h
    split at h
    · next hn => exact ⟨⟨n, hn⟩, List.mem_singleton.mp h⟩
    · next hn =>
      rcases List.mem_append.mp h with h | h
      · exact ih (n / 16) (by omega) h
      · exact ⟨⟨n % 16, Nat.mod_lt _ (by decide)⟩, List.mem_singleton.mp h⟩

omit [CharTables] in
theorem ne_lineEnd_of_mem_escapeUnicode {c d : Char} (h : d ∈ escapeUnicode c) :
    d ≠ '\n' ∧ d ≠ '\r' := by
  have hdigit : ∀ digit : Fin 16, Nat.digitChar digit ≠ '\n' ∧ Nat.digitChar digit ≠ '\r' := by
    decide
  simp only [escapeUnicode, List.mem_cons, List.mem_append, List.not_mem_nil, or_false] at h
  obtain rfl | rfl | rfl | h | rfl := h
  · decide
  · decide
  · decide
  · obtain ⟨digit, rfl⟩ := exists_of_mem_toDigits h
    exact hdigit digit
  · decide

/-- What ends a line is escaped. -/
theorem ne_lineEnd_of_mem_escapeDebug {c d : Char} (h : d ∈ escapeDebug c) :
    d ≠ '\n' ∧ d ≠ '\r' := by
  have hpair : ∀ e, e ≠ '\n' ∧ e ≠ '\r' → d ∈ ['\\', e] → d ≠ '\n' ∧ d ≠ '\r' := by
    intro e he hd
    rcases List.mem_pair.mp hd with rfl | rfl
    · decide
    · exact he
  by_cases hkept : Kept c
  · by_cases hmem : c ∈ ['\t', '\r', '\n', '\\', '"']
    · simp only [List.mem_cons, List.not_mem_nil, or_false] at hmem
      obtain rfl | rfl | rfl | rfl | rfl := hmem
      · exact hpair 't' (by decide) h
      · exact hpair 'r' (by decide) h
      · exact hpair 'n' (by decide) h
      · exact hpair '\\' (by decide) h
      · exact hpair '"' (by decide) h
    · obtain ⟨hextended, hprintable⟩ := hkept.resolve_left hmem
      rw [escapeDebug_of_printable hmem hextended hprintable] at h
      rw [List.mem_singleton.mp h]
      simp only [List.mem_cons, List.not_mem_nil, or_false, not_or] at hmem
      exact ⟨hmem.2.2.1, hmem.2.1⟩
  · rw [escapeDebug_of_not_kept hkept] at h
    split at h
    · exact hpair '0' (by decide) h
    · exact ne_lineEnd_of_mem_escapeUnicode h

/-- **A text in quotes is on one line.** -/
theorem ne_lineEnd_of_mem_debugText {text : List Char} {d : Char} (h : d ∈ debugText text) :
    d ≠ '\n' ∧ d ≠ '\r' := by
  simp only [debugText, List.mem_cons, List.mem_append, List.mem_flatMap, List.not_mem_nil,
    or_false] at h
  obtain rfl | ⟨c, -, hd⟩ | rfl := h
  · decide
  · exact ne_lineEnd_of_mem_escapeDebug hd
  · decide

end

namespace Sample

/-- The tables, as far as Latin letters and the marks that combine with them go. -/
abbrev charTables : CharTables where
  graphemeExtended c := 0x300 ≤ c.toNat && c.toNat < 0x370
  printable c :=
    (0x20 ≤ c.toNat && c.toNat < 0x7f) ||
      (0xa1 ≤ c.toNat && c.toNat < 0x250 && c.toNat ≠ 0xad)
  graphemeExtended_ascii c h := by simp; omega
  printable_ascii c h := by simp; omega

end Sample

end Passalong
