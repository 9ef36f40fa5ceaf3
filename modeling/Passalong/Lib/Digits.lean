import Mathlib

/-!
# Numbers at a fixed width

Decimal numbers with zeros before them, up to a width they fit: such texts are of one
length, and sort as the numbers do (`fixed_lt`).
-/

namespace Lib

namespace Digits

/-- The last `w` digits of a number. -/
def fixed : Nat → Nat → List Char
  | 0, _ => []
  | w + 1, n => fixed w (n / 10) ++ [Nat.digitChar (n % 10)]

@[simp] theorem length_fixed (w n : Nat) : (fixed w n).length = w := by
  induction w generalizing n with
  | zero => rfl
  | succ w ih => simp [fixed, ih]

theorem fixed_zero (w : Nat) : fixed w 0 = List.replicate w '0' := by
  induction w with
  | zero => rfl
  | succ w ih =>
    simp only [fixed, Nat.zero_div, ih]
    exact List.replicate_append_replicate (n := w) (m := 1)

/-- The digits of a number that fits the width, after zeros. -/
theorem fixed_eq {w n : Nat} (h : n < 10 ^ w) (hw : 0 < w) :
    fixed w n = List.replicate (w - (Nat.toDigits 10 n).length) '0' ++ Nat.toDigits 10 n := by
  induction w generalizing n with
  | zero => omega
  | succ w ih =>
    by_cases hn : n < 10
    · have hdiv : n / 10 = 0 := by omega
      have hmod : n % 10 = n := Nat.mod_eq_of_lt hn
      simp only [fixed, hdiv, hmod, fixed_zero, Nat.toDigits_of_lt_base hn]
      rfl
    · have hdiv : n / 10 < 10 ^ w := by
        rw [Nat.pow_succ] at h
        omega
      have hwpos : 0 < w := by
        by_contra hzero
        have : w = 0 := by omega
        subst this
        omega
      have hlength : (Nat.toDigits 10 n).length = (Nat.toDigits 10 (n / 10)).length + 1 := by
        rw [Nat.toDigits_of_base_le (by decide) (by omega)]
        simp
      simp only [fixed, ih hdiv hwpos]
      rw [hlength, Nat.toDigits_of_base_le (n := n) (by decide) (by omega), List.append_assoc]
      congr 2
      omega

/-- Of two lists of one length, what follows them does not matter if they differ. -/
theorem append_lt {α : Type} [LT α] {a b x y : List α} (h : a < b) (hlength : a.length = b.length) :
    a ++ x < b ++ y := by
  induction a generalizing b with
  | nil =>
    cases b with
    | nil => exact absurd h (List.not_lt_nil _)
    | cons _ _ => simp at hlength
  | cons c a ih =>
    cases b with
    | nil => simp at hlength
    | cons d b =>
      cases h with
      | rel hlt => exact .rel hlt
      | cons hlt => exact .cons (ih hlt (by simpa using hlength))

theorem digitChar_lt {m n : Nat} (h : m < n) (hn : n < 10) :
    Nat.digitChar m < Nat.digitChar n := by
  have hm := Nat.toNat_digitChar_of_lt_ten (show m < 10 by omega)
  have hn := Nat.toNat_digitChar_of_lt_ten hn
  show (Nat.digitChar m).val.toNat < (Nat.digitChar n).val.toNat
  show (Nat.digitChar m).toNat < (Nat.digitChar n).toNat
  omega

/-- **Texts of one width sort as the numbers.** -/
theorem fixed_lt {w m n : Nat} (h : m < n) (hn : n < 10 ^ w) : fixed w m < fixed w n := by
  induction w generalizing m n with
  | zero => omega
  | succ w ih =>
    by_cases hdiv : m / 10 = n / 10
    · have hlast := digitChar_lt (m := m % 10) (n := n % 10) (by omega) (by omega)
      simp only [fixed, hdiv]
      exact List.append_left_lt (.rel hlast)
    · have hlt := ih (m := m / 10) (n := n / 10) (by omega) (by rw [Nat.pow_succ] at hn; omega)
      exact append_lt hlt (by simp)

theorem fixed_append_lt {w m n : Nat} {x y : List Char} (h : m < n) (hn : n < 10 ^ w) :
    fixed w m ++ x < fixed w n ++ y :=
  append_lt (fixed_lt h hn) (by simp)

theorem append_cons_lt {α : Type} [LT α] {a : List α} {c : α} {x y : List α} (h : x < y) :
    a ++ c :: x < a ++ c :: y :=
  List.append_left_lt (.cons h)

/-- A number that does not fit a width has more digits than that. -/
theorem le_length_toDigits {w n : Nat} (h : 10 ^ w ≤ n) : w ≤ (Nat.toDigits 10 n).length := by
  induction w generalizing n with
  | zero => exact Nat.zero_le _
  | succ w ih =>
    rw [Nat.pow_succ] at h
    have hpos : 0 < 10 ^ w := Nat.pow_pos (by decide)
    have hdiv : w ≤ (Nat.toDigits 10 (n / 10)).length := ih (by omega)
    rw [Nat.toDigits_of_base_le (by decide) (by omega)]
    simpa using hdiv

end Digits

end Lib
