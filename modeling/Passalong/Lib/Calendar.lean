import Mathlib.Tactic.IntervalCases
import Mathlib.Tactic.Linarith

/-!
# The Gregorian calendar

Dates of the proleptic Gregorian calendar from the first day of year 0 on. The number of
a day is that of the days before it: the lengths of the years and months before its own,
added up.

- `daysBeforeYear_eq`: the sum over years, in closed form;
- `Date.number_lt`: a later date has a greater number, so a date is known by its number
  (`Date.eq_of_number`);
- `Date.fromMarch`: a day told by a year that begins in March, and so ends with its leap
  day. `Date.number_fromMarch` and `Date.valid_fromMarch` are what is needed of an
  algorithm that counts in such years.
-/

namespace Lib

namespace Calendar

/-! ## Years and months -/

/-- Every fourth year, but of the centuries every fourth only. -/
def isLeap (y : Nat) : Bool := y % 4 = 0 && (y % 100 ≠ 0 || y % 400 = 0)

theorem isLeap_iff {y : Nat} :
    isLeap y = true ↔ y % 4 = 0 ∧ (y % 100 ≠ 0 ∨ y % 400 = 0) := by
  simp [isLeap]

def yearLength (y : Nat) : Nat := if isLeap y then 366 else 365

def monthLength (y m : Nat) : Nat :=
  match m with
  | 2 => if isLeap y then 29 else 28
  | 4 | 6 | 9 | 11 => 30
  | _ => 31

def daysBeforeYear : Nat → Nat
  | 0 => 0
  | y + 1 => daysBeforeYear y + yearLength y

/-- The days of year `y` before its month `m`. -/
def daysBeforeMonth (y : Nat) : Nat → Nat
  | 0 | 1 => 0
  | m + 2 => daysBeforeMonth y (m + 1) + monthLength y (m + 1)

/-- How the quotients step from a year to the next: at each fourth year, back at each
century, and again at each fourth of these. -/
theorem leap_steps (y : Nat) :
    (if isLeap y then 1 else 0) + (y + 3) / 4 + (y + 399) / 400 + y / 100 =
      y / 4 + y / 400 + 1 + (y + 99) / 100 := by
  have h4 : (y + 3) / 4 + (if y % 4 = 0 then 1 else 0) = y / 4 + 1 := by split <;> omega
  have h100 : (y + 99) / 100 + (if y % 100 = 0 then 1 else 0) = y / 100 + 1 := by
    split <;> omega
  have h400 : (y + 399) / 400 + (if y % 400 = 0 then 1 else 0) = y / 400 + 1 := by
    split <;> omega
  have hleap : ((if isLeap y then 1 else 0) : Nat) + (if y % 100 = 0 then 1 else 0) =
      (if y % 4 = 0 then 1 else 0) + (if y % 400 = 0 then 1 else 0) := by
    by_cases h : isLeap y = true
    · rw [if_pos h]
      rw [isLeap_iff] at h
      split <;> split <;> split <;> omega
    · rw [if_neg h]
      rw [isLeap_iff] at h
      split <;> split <;> split <;> omega
  linarith

theorem yearLength_eq (y : Nat) : yearLength y = 365 + if isLeap y then 1 else 0 := by
  unfold yearLength
  split <;> rfl

theorem daysBeforeYear_eq (y : Nat) :
    daysBeforeYear y + (y + 99) / 100 = 365 * y + (y + 3) / 4 + (y + 399) / 400 := by
  induction y with
  | zero => decide
  | succ y ih =>
    have hsteps := leap_steps y
    have hlength := yearLength_eq y
    have h4 : (y + 1 + 3) / 4 = y / 4 + 1 := Nat.add_div_right y (show 0 < 4 by decide)
    have h100 : (y + 1 + 99) / 100 = y / 100 + 1 := Nat.add_div_right y (show 0 < 100 by decide)
    have h400 : (y + 1 + 399) / 400 = y / 400 + 1 := Nat.add_div_right y (show 0 < 400 by decide)
    show daysBeforeYear y + yearLength y + _ = _
    linarith

/-- The same with the leap day of the year itself. -/
theorem daysBeforeYear_leap (y : Nat) :
    daysBeforeYear y + (if isLeap y then 1 else 0) + y / 100 =
      365 * y + y / 4 + y / 400 + 1 := by
  have hyear := daysBeforeYear_eq y
  have hsteps := leap_steps y
  linarith

theorem daysBeforeYear_mono {y z : Nat} (h : y ≤ z) : daysBeforeYear y ≤ daysBeforeYear z := by
  induction h with
  | refl => exact Nat.le_refl _
  | step _ ih => exact Nat.le_trans ih (Nat.le_add_right _ _)

theorem daysBeforeMonth_mono (y : Nat) {m n : Nat} (h : m ≤ n) :
    daysBeforeMonth y m ≤ daysBeforeMonth y n := by
  induction h with
  | refl => exact Nat.le_refl _
  | @step n _ ih =>
    refine Nat.le_trans ih ?_
    cases n with
    | zero => exact Nat.le_refl _
    | succ n => exact Nat.le_add_right _ _

theorem daysBeforeMonth_succ (y : Nat) {m : Nat} (h : 1 ≤ m) :
    daysBeforeMonth y (m + 1) = daysBeforeMonth y m + monthLength y m := by
  cases m with
  | zero => omega
  | succ m => rfl

/-- The months of a year are the year. -/
theorem daysBeforeMonth_thirteen (y : Nat) : daysBeforeMonth y 13 = yearLength y := by
  simp only [daysBeforeMonth, monthLength, yearLength]
  split <;> rfl

/-- The months from March on are 31 and 30 days long in turn, starting over in August and
in January, which a multiple of 153 fifths spells. -/
theorem daysBeforeMonth_march (y : Nat) {m : Nat} (h : m < 10) :
    daysBeforeMonth y (m + 3) = (153 * m + 2) / 5 + 59 + if isLeap y then 1 else 0 := by
  interval_cases m <;> simp only [daysBeforeMonth, monthLength] <;> split <;> rfl

/-! ## Dates -/

/-- A day of the calendar, months and days counted from one. -/
structure Date where
  year : Nat
  month : Nat
  day : Nat
  deriving DecidableEq, Repr

namespace Date

/-- There is such a day. -/
structure Valid (d : Date) : Prop where
  month_pos : 1 ≤ d.month
  month_le : d.month ≤ 12
  day_pos : 1 ≤ d.day
  day_le : d.day ≤ monthLength d.year d.month

/-- The days before it, from the first of January of year 0 on. -/
def number (d : Date) : Nat :=
  daysBeforeYear d.year + daysBeforeMonth d.year d.month + (d.day - 1)

/-- The order of dates. -/
def Before (d e : Date) : Prop :=
  d.year < e.year ∨ d.year = e.year ∧
    (d.month < e.month ∨ d.month = e.month ∧ d.day < e.day)

variable {d e : Date}

/-- A day is within its year. -/
theorem Valid.number_lt_year (h : d.Valid) : d.number < daysBeforeYear (d.year + 1) := by
  have hday := h.day_pos
  have hlast := h.day_le
  have hmonth := daysBeforeMonth_succ d.year h.month_pos
  have hyear := daysBeforeMonth_mono d.year (show d.month + 1 ≤ 13 from Nat.succ_le_succ h.month_le)
  rw [daysBeforeMonth_thirteen] at hyear
  show d.number < daysBeforeYear d.year + yearLength d.year
  unfold number
  omega

/-- **A later date has a greater number.** -/
theorem number_lt (hd : d.Valid) (h : d.Before e) : d.number < e.number := by
  have hpos := hd.day_pos
  rcases h with hyear | ⟨hyear, hmonth | ⟨hmonth, hday⟩⟩
  · have hlt := hd.number_lt_year
    have hle := daysBeforeYear_mono (show d.year + 1 ≤ e.year from hyear)
    unfold number at hlt ⊢
    omega
  · have hlast := hd.day_le
    have hsucc := daysBeforeMonth_succ d.year hd.month_pos
    have hle := daysBeforeMonth_mono d.year (show d.month + 1 ≤ e.month from hmonth)
    unfold number
    rw [← hyear]
    omega
  · unfold number
    rw [← hyear, ← hmonth]
    omega

theorem before_trichotomy (d e : Date) : d.Before e ∨ d = e ∨ e.Before d := by
  unfold Before
  by_cases h : d = e
  · exact .inr (.inl h)
  · have hne : d.year ≠ e.year ∨ d.month ≠ e.month ∨ d.day ≠ e.day := by
      by_contra hall
      simp only [ne_eq, not_or, not_not] at hall
      refine h ?_
      cases d
      cases e
      simp_all
    omega

/-- The order of the numbers is that of the dates. -/
theorem before_iff (hd : d.Valid) (he : e.Valid) : d.Before e ↔ d.number < e.number := by
  refine ⟨number_lt hd, fun hlt => ?_⟩
  rcases before_trichotomy d e with h | rfl | h
  · exact h
  · omega
  · have := number_lt he h
    omega

/-- A date is known by its number. -/
theorem eq_of_number (hd : d.Valid) (he : e.Valid) (h : d.number = e.number) : d = e := by
  rcases before_trichotomy d e with hlt | heq | hlt
  · have := number_lt hd hlt
    omega
  · exact heq
  · have := number_lt he hlt
    omega

/-! ## Years that begin in March -/

/-- The day `day` of the month `m` after March, in the year that began in March of
`y`. -/
def fromMarch (y m day : Nat) : Date :=
  if m < 10 then ⟨y, m + 3, day⟩ else ⟨y + 1, m - 9, day⟩

/-- How many days there are of the month `m` after March. -/
def marchLength (y m : Nat) : Nat :=
  if m < 11 then (153 * (m + 1) + 2) / 5 - (153 * m + 2) / 5 else
    if isLeap (y + 1) then 29 else 28

theorem number_fromMarch {y m day : Nat} (hm : m < 12) :
    (fromMarch y m day).number + y / 100 =
      365 * y + y / 4 + y / 400 + 60 + (153 * m + 2) / 5 + (day - 1) := by
  unfold fromMarch
  by_cases h : m < 10
  · rw [if_pos h]
    show daysBeforeYear y + daysBeforeMonth y (m + 3) + (day - 1) + y / 100 = _
    have hyear := daysBeforeYear_leap y
    rw [daysBeforeMonth_march y h]
    omega
  · rw [if_neg h]
    have hyear := daysBeforeYear_eq (y + 1)
    have hmonth : m = 10 ∨ m = 11 := by omega
    rcases hmonth with rfl | rfl
    · show daysBeforeYear (y + 1) + 0 + (day - 1) + _ = _
      omega
    · show daysBeforeYear (y + 1) + (0 + 31) + (day - 1) + _ = _
      omega

theorem valid_fromMarch {y m day : Nat} (hm : m < 12) (hpos : 1 ≤ day)
    (hle : day ≤ marchLength y m) : (fromMarch y m day).Valid := by
  unfold fromMarch
  unfold marchLength at hle
  by_cases h : m < 10
  · rw [if_pos h]
    rw [if_pos (by omega)] at hle
    refine ⟨by simp, by simp only; omega, hpos, Nat.le_trans hle ?_⟩
    interval_cases m <;> simp [monthLength]
  · rw [if_neg h]
    have hmonth : m = 10 ∨ m = 11 := by omega
    rcases hmonth with rfl | rfl
    · exact ⟨show 1 ≤ 1 by decide, show 1 ≤ 12 by decide, hpos, hle⟩
    · exact ⟨show 1 ≤ 2 by decide, show 2 ≤ 12 by decide, hpos, hle⟩

end Date

end Calendar

end Lib
