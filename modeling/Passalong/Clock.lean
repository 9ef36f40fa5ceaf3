import Passalong.Ids
import Passalong.Lib.Calendar
import Passalong.Lib.Digits

/-!
# Times as texts (`clock.rs`)

`rfc3339` finds the civil date of a Unix time in closed form, in years that begin in March
and in eras of 400 of them, with `i64` arithmetic throughout. What it writes is the time's
date in the Gregorian calendar and its time of day, for every `u64` (`rfc3339_gregorian`),
and up to the year 10000 the texts sort as the times do (`rfc3339_sorts`).

The one step that is not counting is `yearOfEra_eq`: the correction of a day of an era by
the leap days before it, after which it divides by 365. A day of an era is told there by
its century, its four years and its day within these.
-/

namespace Passalong

open Lib Lib.Calendar Lib.Digits

/-! ## The algorithm -/

/-- What an operation on `i64` gives; none where it overflows. -/
def i64 (n : Int) : Option Int := if -2 ^ 63 ≤ n ∧ n < 2 ^ 63 then some n else none

/-- `(doe - doe / 1_460 + doe / 36_524 - doe / 146_096) / 365`. -/
def yearOfEra (doe : Int) : Option Int := do
  let sum ← i64 (doe - doe.tdiv 1460)
  let sum ← i64 (sum + doe.tdiv 36524)
  let sum ← i64 (sum - doe.tdiv 146096)
  some (sum.tdiv 365)

/-- `doe - (365 * yoe + yoe / 4 - yoe / 100)`. -/
def dayOfYear (doe yoe : Int) : Option Int := do
  let before ← i64 (365 * yoe)
  let before ← i64 (before + yoe.tdiv 4)
  let before ← i64 (before - yoe.tdiv 100)
  i64 (doe - before)

/-- `(5 * doy + 2) / 153`. -/
def monthOfYear (doy : Int) : Option Int := do
  let fifths ← i64 (5 * doy)
  let fifths ← i64 (fifths + 2)
  some (fifths.tdiv 153)

/-- `doy - (153 * mp + 2) / 5 + 1`. -/
def dayOfMonth (doy mp : Int) : Option Int := do
  let fifths ← i64 (153 * mp)
  let fifths ← i64 (fifths + 2)
  let day ← i64 (doy - fifths.tdiv 5)
  i64 (day + 1)

/-- Civil date from days since 1970-01-01 (Howard Hinnant's algorithm): the year, the month
and the day. -/
def civil (days : Nat) : Option (Int × Int × Int) := do
  let days ← i64 days
  let z ← i64 (days + 719468)
  let yoe ← yearOfEra (z % 146097)
  let doy ← dayOfYear (z % 146097) yoe
  let mp ← monthOfYear doy
  let day ← dayOfMonth doy mp
  let month ← if mp < 10 then i64 (mp + 3) else i64 (mp - 9)
  let centuries ← i64 (z / 146097 * 400)
  let year ← i64 (yoe + centuries)
  let year ← i64 (year + if month ≤ 2 then 1 else 0)
  some (year, month, day)

/-- `{:0width}` of a number: its digits after zeros, and a minus sign before them. -/
def padded (width : Nat) (n : Int) : List Char :=
  let digits := Nat.toDigits 10 n.natAbs
  if 0 ≤ n then List.replicate (width - digits.length) '0' ++ digits
  else '-' :: (List.replicate (width - 1 - digits.length) '0' ++ digits)

/-- `1767225600` as `2026-01-01T00:00:00Z`: how the API and the CLI write a time. -/
def rfc3339 (unix : Nat) : Option String := do
  let rest := unix % 86400
  let (year, month, day) ← civil (unix / 86400)
  some (String.ofList
    (padded 4 year ++ '-' :: (padded 2 month ++ '-' :: (padded 2 day ++ 'T' ::
      (padded 2 ((rest / 3600 : Nat) : Int) ++ ':' ::
        (padded 2 ((rest % 3600 / 60 : Nat) : Int) ++ ':' ::
          (padded 2 ((rest % 60 : Nat) : Int) ++ ['Z'])))))))

example : rfc3339 1767225600 = some "2026-01-01T00:00:00Z" := by decide +kernel

/-! ## The civil date -/

theorem i64_some {n : Int} (hlow : -2 ^ 63 ≤ n) (hhigh : n < 2 ^ 63) : i64 n = some n :=
  if_pos ⟨hlow, hhigh⟩

/-- A day of an era, told by its century, its four years and its day within them. -/
theorem yearOfEra_eq {c k t : Nat} (hc : c < 4) (hk : k < 25) (ht : t < 1461)
    (hlast : 1461 * k + t < 36524 ∨ c = 3) :
    let doe := 36524 * c + 1461 * k + t
    (doe - doe / 1460 + doe / 36524 - doe / 146096) / 365 =
      100 * c + 4 * k + min (t / 365) 3 := by
  intro doe
  have h1460 : doe / 1460 = 25 * c + k + (24 * c + k + t) / 1460 := by omega
  have hstep : (24 * c + k + t) / 1460 = if 24 * c + k + t < 1460 then 0 else 1 := by
    split <;> omega
  by_cases hlt : 1461 * k + t < 36524
  · have h36524 : doe / 36524 = c := by omega
    have h146096 : doe / 146096 = 0 := by omega
    rw [h1460, h36524, h146096, hstep]
    split <;> omega
  · -- the last day of the era, which is the leap day of its last century
    have hdoe : doe = 146096 := by omega
    rw [hdoe]
    omega

/-- The year of an era a day of it is in, and the day of that year it is: the last one is
there in leap years only. -/
theorem yearOfEra_spec {doe : Nat} (h : doe < 146097) :
    let yoe := (doe - doe / 1460 + doe / 36524 - doe / 146096) / 365
    yoe < 400 ∧ 365 * yoe + yoe / 4 - yoe / 100 ≤ doe ∧
      doe - (365 * yoe + yoe / 4 - yoe / 100) < 366 ∧
      (doe - (365 * yoe + yoe / 4 - yoe / 100) = 365 → isLeap (yoe + 1) = true) := by
  intro yoe
  obtain ⟨c, k, t, hc, hk, ht, hlast, rfl⟩ : ∃ c k t, c < 4 ∧ k < 25 ∧ t < 1461 ∧
      (1461 * k + t < 36524 ∨ c = 3) ∧ doe = 36524 * c + 1461 * k + t := by
    refine ⟨min (doe / 36524) 3, (doe - 36524 * min (doe / 36524) 3) / 1461,
      (doe - 36524 * min (doe / 36524) 3) % 1461, ?_, ?_, ?_, ?_, ?_⟩ <;> omega
  have hyoe : yoe = 100 * c + 4 * k + min (t / 365) 3 := yearOfEra_eq hc hk ht hlast
  have hyear : min (t / 365) 3 = 0 ∨ min (t / 365) 3 = 1 ∨ min (t / 365) 3 = 2 ∨
      min (t / 365) 3 = 3 := by omega
  have h4 : yoe / 4 = 25 * c + k := by omega
  have h100 : yoe / 100 = c := by omega
  rw [h4, h100, isLeap_iff]
  omega

theorem i64_nat {i : Int} {n : Nat} (h : i = n) (hn : n < 2 ^ 63) : i64 i = some (n : Int) := by
  rw [h]
  exact i64_some (by omega) (by omega)

/-- Going on from an operation that does not overflow. -/
theorem next {α β : Type} {x : Option α} {a : α} (h : x = some a) (f : α → Option β) :
    (x >>= f) = f a := by
  rw [h]
  rfl

theorem tdiv_nat (n k : Nat) : (n : Int).tdiv (k : Int) = ((n / k : Nat) : Int) :=
  (Int.ofNat_tdiv n k).symm

/-- The days since 1970-01-01 of a date. -/
def daysFromCivil (date : Date) : Int :=
  (date.number : Int) - ((⟨1970, 1, 1⟩ : Date).number : Int)

theorem number_epoch : (⟨1970, 1, 1⟩ : Date).number = 719528 := by decide +kernel

/-- The date of a day told by its era, the year of it, and the day of that year. -/
def dateOf (era yoe doy : Nat) : Date :=
  let mp := (5 * doy + 2) / 153
  .fromMarch (yoe + era * 400) mp (doy - (153 * mp + 2) / 5 + 1)

theorem number_dateOf {era yoe doy : Nat} (hyoe : yoe < 400) (hdoy : doy < 366) :
    (dateOf era yoe doy).number + yoe / 100 =
      146097 * era + 365 * yoe + yoe / 4 + doy + 60 := by
  have h4 : (yoe + era * 400) / 4 = yoe / 4 + 100 * era := by omega
  have h100 : (yoe + era * 400) / 100 = yoe / 100 + 4 * era := by omega
  have h400 : (yoe + era * 400) / 400 = era := by omega
  have hnumber : (dateOf era yoe doy).number + (yoe + era * 400) / 100 = _ :=
    Date.number_fromMarch (by omega)
  rw [h4, h100, h400] at hnumber
  omega

theorem valid_dateOf {era yoe doy : Nat} (hdoy : doy < 366)
    (hleap : doy = 365 → isLeap (yoe + 1) = true) : (dateOf era yoe doy).Valid := by
  refine Date.valid_fromMarch (by omega) (Nat.succ_pos _) ?_
  unfold Date.marchLength
  split
  · omega
  · by_cases hlast : doy = 365
    · have hyear := hleap hlast
      rw [isLeap_iff] at hyear
      rw [if_pos (isLeap_iff.mpr (by omega))]
      omega
    · split <;> omega

theorem yearOfEra_nat {doe : Nat} (h : doe < 146097) :
    yearOfEra doe =
      some (((doe - doe / 1460 + doe / 36524 - doe / 146096) / 365 : Nat) : Int) := by
  have h1 : i64 ((doe : Int) - (doe : Int).tdiv 1460) = some ((doe - doe / 1460 : Nat) : Int) := by
    refine i64_nat ?_ (by omega)
    rw [show (doe : Int).tdiv 1460 = ((doe / 1460 : Nat) : Int) from tdiv_nat _ _]
    omega
  have h2 : i64 (((doe - doe / 1460 : Nat) : Int) + (doe : Int).tdiv 36524) =
      some ((doe - doe / 1460 + doe / 36524 : Nat) : Int) := by
    refine i64_nat ?_ (by omega)
    rw [show (doe : Int).tdiv 36524 = ((doe / 36524 : Nat) : Int) from tdiv_nat _ _]
    omega
  have h3 : i64 (((doe - doe / 1460 + doe / 36524 : Nat) : Int) - (doe : Int).tdiv 146096) =
      some ((doe - doe / 1460 + doe / 36524 - doe / 146096 : Nat) : Int) := by
    refine i64_nat ?_ (by omega)
    rw [show (doe : Int).tdiv 146096 = ((doe / 146096 : Nat) : Int) from tdiv_nat _ _]
    omega
  unfold yearOfEra
  rw [next h1, next h2, next h3]
  exact congrArg some (tdiv_nat _ 365)

theorem dayOfYear_nat {doe yoe : Nat} (hdoe : doe < 146097) (hyoe : yoe < 400)
    (h : 365 * yoe + yoe / 4 - yoe / 100 ≤ doe) :
    dayOfYear doe yoe = some ((doe - (365 * yoe + yoe / 4 - yoe / 100) : Nat) : Int) := by
  have h1 : i64 (365 * (yoe : Int)) = some ((365 * yoe : Nat) : Int) :=
    i64_nat (by omega) (by omega)
  have h2 : i64 (((365 * yoe : Nat) : Int) + (yoe : Int).tdiv 4) =
      some ((365 * yoe + yoe / 4 : Nat) : Int) := by
    refine i64_nat ?_ (by omega)
    rw [show (yoe : Int).tdiv 4 = ((yoe / 4 : Nat) : Int) from tdiv_nat _ _]
    omega
  have h3 : i64 (((365 * yoe + yoe / 4 : Nat) : Int) - (yoe : Int).tdiv 100) =
      some ((365 * yoe + yoe / 4 - yoe / 100 : Nat) : Int) := by
    refine i64_nat ?_ (by omega)
    rw [show (yoe : Int).tdiv 100 = ((yoe / 100 : Nat) : Int) from tdiv_nat _ _]
    omega
  unfold dayOfYear
  rw [next h1, next h2, next h3]
  exact i64_nat (by omega) (by omega)

theorem monthOfYear_nat {doy : Nat} (h : doy < 366) :
    monthOfYear doy = some (((5 * doy + 2) / 153 : Nat) : Int) := by
  have h1 : i64 (5 * (doy : Int)) = some ((5 * doy : Nat) : Int) := i64_nat (by omega) (by omega)
  have h2 : i64 (((5 * doy : Nat) : Int) + 2) = some ((5 * doy + 2 : Nat) : Int) :=
    i64_nat (by omega) (by omega)
  unfold monthOfYear
  rw [next h1, next h2]
  exact congrArg some (tdiv_nat _ 153)

theorem dayOfMonth_nat {doy mp : Nat} (hdoy : doy < 366) (h : (153 * mp + 2) / 5 ≤ doy) :
    dayOfMonth doy mp = some ((doy - (153 * mp + 2) / 5 + 1 : Nat) : Int) := by
  have h1 : i64 (153 * (mp : Int)) = some ((153 * mp : Nat) : Int) := i64_nat (by omega) (by omega)
  have h2 : i64 (((153 * mp : Nat) : Int) + 2) = some ((153 * mp + 2 : Nat) : Int) :=
    i64_nat (by omega) (by omega)
  have h3 : i64 ((doy : Int) - ((153 * mp + 2 : Nat) : Int).tdiv 5) =
      some ((doy - (153 * mp + 2) / 5 : Nat) : Int) := by
    refine i64_nat ?_ (by omega)
    rw [show ((153 * mp + 2 : Nat) : Int).tdiv 5 = (((153 * mp + 2) / 5 : Nat) : Int) from
      tdiv_nat _ _]
    omega
  unfold dayOfMonth
  rw [next h1, next h2, next h3]
  exact i64_nat (by omega) (by omega)

/-- The algorithm from its day of an era and year of it on. -/
theorem civil_eq {days z doe yoe doy : Nat} (h : days < 2 ^ 48) (hz : z = days + 719468)
    (hdoe : doe = z % 146097) (hyear : yearOfEra doe = some (yoe : Int))
    (hday : dayOfYear doe yoe = some (doy : Int)) (hyoelt : yoe < 400) (hdoylt : doy < 366) :
    civil days = some (((dateOf (z / 146097) yoe doy).year : Int),
      ((dateOf (z / 146097) yoe doy).month : Int), ((dateOf (z / 146097) yoe doy).day : Int)) := by
  obtain ⟨era, hera⟩ : ∃ era, era = z / 146097 := ⟨_, rfl⟩
  have heralt : era < 2 ^ 48 := by omega
  have h1 : i64 (days : Int) = some (days : Int) := i64_nat (by omega) (by omega)
  have h2 : i64 ((days : Int) + 719468) = some (z : Int) := i64_nat (by omega) (by omega)
  have h3 : (z : Int) / 146097 = (era : Int) := by omega
  have h4 : (z : Int) % 146097 = (doe : Int) := by omega
  clear hdoe hz
  have hmonth := monthOfYear_nat hdoylt
  have hdate := @dayOfMonth_nat doy ((5 * doy + 2) / 153) hdoylt (by omega)
  have hmplt : (5 * doy + 2) / 153 < 12 := by omega
  rw [← hera]
  unfold dateOf Date.fromMarch
  generalize (5 * doy + 2) / 153 = mp at hmonth hdate hmplt ⊢
  have h5 : i64 ((era : Int) * 400) = some ((era * 400 : Nat) : Int) :=
    i64_nat (by omega) (by omega)
  have h6 : i64 ((yoe : Int) + ((era * 400 : Nat) : Int)) =
      some ((yoe + era * 400 : Nat) : Int) := i64_nat (by omega) (by omega)
  unfold civil
  rw [next h1, next h2, h3, h4, next hyear, next hday, next hmonth, next hdate]
  by_cases hlate : mp < 10
  · have h7 : i64 ((mp : Int) + 3) = some ((mp + 3 : Nat) : Int) := i64_nat (by omega) (by omega)
    have h8 : i64 (((yoe + era * 400 : Nat) : Int) + 0) = some ((yoe + era * 400 : Nat) : Int) :=
      i64_nat (by omega) (by omega)
    have hmarch : ¬((mp + 3 : Nat) : Int) ≤ 2 := by omega
    rw [if_pos (show (mp : Int) < 10 by omega), if_pos hlate, next h7]
    beta_reduce
    rw [next h5, next h6, if_neg hmarch, next h8]
  · have h7 : i64 ((mp : Int) - 9) = some ((mp - 9 : Nat) : Int) := i64_nat (by omega) (by omega)
    have h8 : i64 (((yoe + era * 400 : Nat) : Int) + 1) =
        some ((yoe + era * 400 + 1 : Nat) : Int) := i64_nat (by omega) (by omega)
    have hmarch : ((mp - 9 : Nat) : Int) ≤ 2 := by omega
    rw [if_neg (show ¬(mp : Int) < 10 by omega), if_neg hlate, next h7]
    beta_reduce
    rw [next h5, next h6, if_pos hmarch, next h8]

/-- **The civil date of a day is the date with its number**, and no step to it
overflows. -/
theorem civil_gregorian {days : Nat} (h : days < 2 ^ 48) :
    ∃ date : Date, date.Valid ∧ daysFromCivil date = days ∧
      civil days = some ((date.year : Int), (date.month : Int), (date.day : Int)) := by
  obtain ⟨z, hz⟩ : ∃ z, z = days + 719468 := ⟨_, rfl⟩
  obtain ⟨doe, hdoe⟩ : ∃ doe, doe = z % 146097 := ⟨_, rfl⟩
  obtain ⟨yoe, hyoe⟩ :
    ∃ yoe, yoe = (doe - doe / 1460 + doe / 36524 - doe / 146096) / 365 := ⟨_, rfl⟩
  obtain ⟨doy, hdoy⟩ : ∃ doy, doy = doe - (365 * yoe + yoe / 4 - yoe / 100) := ⟨_, rfl⟩
  have hdoelt : doe < 146097 := by omega
  obtain ⟨hyoelt, hbefore, hdoylt, hleapday⟩ := yearOfEra_spec hdoelt
  rw [← hyoe] at hyoelt hbefore hdoylt hleapday
  rw [← hdoy] at hdoylt hleapday
  have hyear : yearOfEra doe = some (yoe : Int) := by
    rw [yearOfEra_nat hdoelt, hyoe]
  have hday : dayOfYear doe yoe = some (doy : Int) := by
    rw [dayOfYear_nat hdoelt hyoelt hbefore, hdoy]
  refine ⟨dateOf (z / 146097) yoe doy, valid_dateOf hdoylt hleapday, ?_,
    civil_eq h hz hdoe hyear hday hyoelt hdoylt⟩
  clear hyoe hyear hday
  have hnumber : (dateOf (z / 146097) yoe doy).number + yoe / 100 = _ :=
    number_dateOf hyoelt hdoylt
  unfold daysFromCivil
  rw [number_epoch]
  omega

/-! ## The text -/

/-- A second of the calendar. -/
structure DateTime where
  date : Date
  hour : Nat
  minute : Nat
  second : Nat
  deriving DecidableEq, Repr

namespace DateTime

structure Valid (t : DateTime) : Prop where
  date_valid : t.date.Valid
  hour_lt : t.hour < 24
  minute_lt : t.minute < 60
  second_lt : t.second < 60

/-- The seconds since 1970-01-01T00:00:00Z. -/
def seconds (t : DateTime) : Int :=
  daysFromCivil t.date * 86400 + (t.hour * 3600 + t.minute * 60 + t.second : Nat)

/-- `YYYY-MM-DDThh:mm:ssZ`; from year 10000 on, the year has more digits. -/
def chars (t : DateTime) : List Char :=
  (if t.date.year < 10000 then fixed 4 t.date.year else Nat.toDigits 10 t.date.year) ++ '-' ::
    (fixed 2 t.date.month ++ '-' :: (fixed 2 t.date.day ++ 'T' ::
      (fixed 2 t.hour ++ ':' :: (fixed 2 t.minute ++ ':' :: (fixed 2 t.second ++ ['Z'])))))

def text (t : DateTime) : String := String.ofList t.chars

/-- The order of times. -/
def Before (t u : DateTime) : Prop :=
  t.date.Before u.date ∨ t.date = u.date ∧
    (t.hour < u.hour ∨ t.hour = u.hour ∧
      (t.minute < u.minute ∨ t.minute = u.minute ∧ t.second < u.second))

variable {t u : DateTime}

theorem before_of_seconds (ht : t.Valid) (hu : u.Valid) (h : t.seconds < u.seconds) :
    t.Before u := by
  have hminute := ht.minute_lt
  have hsecond := ht.second_lt
  have hhour := ht.hour_lt
  have hminute' := hu.minute_lt
  have hsecond' := hu.second_lt
  have hhour' := hu.hour_lt
  unfold seconds daysFromCivil at h
  rcases Nat.lt_trichotomy t.date.number u.date.number with hlt | heq | hgt
  · exact .inl ((Date.before_iff ht.date_valid hu.date_valid).mpr hlt)
  · refine .inr ⟨Date.eq_of_number ht.date_valid hu.date_valid heq, ?_⟩
    rw [heq] at h
    omega
  · omega

/-- The numbers in a text fit the places they have there. -/
theorem Valid.day_lt (h : t.Valid) : t.date.day < 10 ^ 2 := by
  have hday := h.date_valid.day_le
  have hlength : monthLength t.date.year t.date.month ≤ 31 := by
    unfold monthLength
    split <;> try split
    all_goals decide
  omega

/-- **Before year 10000 an earlier time has the lesser text.** -/
theorem chars_lt (hu : u.Valid) (hyear : u.date.year < 10000) (h : t.Before u) :
    t.chars < u.chars := by
  have hyear' : t.date.year < 10000 := by
    rcases h with (hlt | ⟨heq, -⟩) | ⟨heq, -⟩
    · omega
    · omega
    · rw [heq]
      exact hyear
  have hmonth := hu.date_valid.month_le
  have hday := hu.day_lt
  have hhour := hu.hour_lt
  have hminute := hu.minute_lt
  have hsecond := hu.second_lt
  unfold chars
  rw [if_pos hyear, if_pos hyear']
  rcases h with (hlt | ⟨heq, hlt | ⟨heqm, hlt⟩⟩) | ⟨heq, hlt | ⟨heqh, hlt | ⟨heqm, hlt⟩⟩⟩
  · exact fixed_append_lt hlt hyear
  · rw [heq]
    refine append_cons_lt (fixed_append_lt hlt (by omega))
  · rw [heq, heqm]
    exact append_cons_lt (append_cons_lt (fixed_append_lt hlt hday))
  · rw [heq]
    exact append_cons_lt (append_cons_lt (append_cons_lt (fixed_append_lt hlt (by omega))))
  · rw [heq, heqh]
    exact append_cons_lt (append_cons_lt (append_cons_lt (append_cons_lt
      (fixed_append_lt hlt (by omega)))))
  · rw [heq, heqh, heqm]
    exact append_cons_lt (append_cons_lt (append_cons_lt (append_cons_lt (append_cons_lt
      (fixed_append_lt hlt (by omega))))))

end DateTime

theorem padded_fixed {w n : Nat} (h : n < 10 ^ w) (hw : 0 < w) : padded w (n : Int) = fixed w n :=
  (fixed_eq h hw).symm

/-- A number that does not fit is written whole. -/
theorem padded_over {w n : Nat} (h : 10 ^ w ≤ n) : padded w (n : Int) = Nat.toDigits 10 n := by
  have hlength : w ≤ (Nat.toDigits 10 n).length := le_length_toDigits h
  unfold padded
  simp only [Int.natAbs_natCast, if_pos (Int.natCast_nonneg n), Nat.sub_eq_zero_of_le hlength]
  rfl

/-- What `rfc3339` writes is the time of so many seconds. -/
theorem rfc3339_text {n : Nat} (h : n < u64Bound) :
    ∃ t : DateTime, t.Valid ∧ t.seconds = n ∧ rfc3339 n = some t.text := by
  have hdays : n / 86400 < 2 ^ 48 := by
    rw [u64Bound] at h
    omega
  obtain ⟨date, hvalid, hnumber, hcivil⟩ := civil_gregorian hdays
  have ht : (⟨date, n % 86400 / 3600, n % 86400 % 3600 / 60, n % 86400 % 60⟩ : DateTime).Valid :=
    ⟨hvalid, by simp only; omega, by simp only; omega, by simp only; omega⟩
  refine ⟨_, ht, ?_, ?_⟩
  · have hrest : n % 86400 / 3600 * 3600 + n % 86400 % 3600 / 60 * 60 + n % 86400 % 60 =
        n % 86400 := by omega
    unfold DateTime.seconds
    simp only [hnumber, hrest]
    omega
  · have hmonth := hvalid.month_le
    have hyear : padded 4 (date.year : Int) =
        if date.year < 10000 then fixed 4 date.year else Nat.toDigits 10 date.year := by
      split
      · next hlt => exact padded_fixed hlt (by decide)
      · next hge => exact padded_over (by omega)
    unfold rfc3339 DateTime.text DateTime.chars
    rw [next hcivil]
    simp only [hyear, padded_fixed (show date.month < 10 ^ 2 by omega) (by decide),
      padded_fixed ht.day_lt (by decide), padded_fixed
        (show n % 86400 / 3600 < 10 ^ 2 by omega) (by decide),
      padded_fixed (show n % 86400 % 3600 / 60 < 10 ^ 2 by omega) (by decide),
      padded_fixed (show n % 86400 % 60 < 10 ^ 2 by omega) (by decide)]

/-- The first second of year 10000. -/
def yearTenThousand : Nat := 253402300800

theorem yearTenThousand_eq :
    (⟨⟨10000, 1, 1⟩, 0, 0, 0⟩ : DateTime).seconds = yearTenThousand := by decide +kernel

/-- A time is in the years up to some first second if it comes before it. -/
theorem DateTime.Valid.year_lt {t : DateTime} (ht : t.Valid)
    (h : t.seconds < (yearTenThousand : Int)) : t.date.year < 10000 := by
  rw [← yearTenThousand_eq] at h
  have hfirst : (⟨⟨10000, 1, 1⟩, 0, 0, 0⟩ : DateTime).Valid :=
    ⟨⟨by decide, by decide, by decide, by decide⟩, by decide, by decide, by decide⟩
  have hmonth := ht.date_valid.month_pos
  have hday := ht.date_valid.day_pos
  rcases DateTime.before_of_seconds ht hfirst h with (hlt | ⟨-, hlt | ⟨hmonth', hlt⟩⟩) | ⟨-, hlt⟩
  · exact hlt
  · simp only at hlt
    omega
  · simp only at hlt
    omega
  · simp only at hlt
    omega

/-- Times before year 10000 sort as their texts. -/
theorem rfc3339_lt {n m : Nat} {s t : String} (h : n < m) (hm : m < yearTenThousand)
    (hs : rfc3339 n = some s) (ht : rfc3339 m = some t) : s < t := by
  have hbound : yearTenThousand < u64Bound := by decide
  obtain ⟨d, hd, hdn, hdtext⟩ := rfc3339_text (show n < u64Bound by omega)
  obtain ⟨e, he, hem, hetext⟩ := rfc3339_text (show m < u64Bound by omega)
  have hlt : d.chars < e.chars :=
    DateTime.chars_lt he (he.year_lt (by omega))
      (DateTime.before_of_seconds hd he (by omega))
  rw [hdtext] at hs
  rw [hetext] at ht
  cases hs
  cases ht
  rw [String.lt_iff]
  unfold DateTime.text
  simpa using hlt

/-- **`rfc3339` is the Gregorian calendar**: what it writes of any `u64` is the one second
of the calendar that is so many after 1970-01-01T00:00:00Z, no operation on the way to it
overflows, and the texts of the times before year 10000 sort as these do. -/
theorem rfc3339_gregorian :
    (∀ n < u64Bound, ∃ t : DateTime, t.Valid ∧ t.seconds = n ∧ rfc3339 n = some t.text) ∧
      ∀ n < yearTenThousand, ∀ m < yearTenThousand, ∃ s t : String,
        rfc3339 n = some s ∧ rfc3339 m = some t ∧ (n < m ↔ s < t) := by
  refine ⟨fun n h => rfc3339_text h, fun n hn m hm => ?_⟩
  have hbound : yearTenThousand < u64Bound := by decide
  obtain ⟨d, -, -, hs⟩ := rfc3339_text (show n < u64Bound by omega)
  obtain ⟨e, -, -, ht⟩ := rfc3339_text (show m < u64Bound by omega)
  refine ⟨_, _, hs, ht, fun h => rfc3339_lt h hm hs ht, fun hlt => ?_⟩
  rcases Nat.lt_trichotomy n m with h | rfl | h
  · exact h
  · rw [Option.some.inj (hs.symm.trans ht)] at hlt
    exact absurd hlt (String.lt_irrefl _)
  · exact absurd (rfc3339_lt h hn ht hs) (String.lt_asymm hlt)

/-- The last second of a leap day, and the one after it. -/
theorem rfc3339_leapDay :
    rfc3339 1709251199 = some "2024-02-29T23:59:59Z" ∧ 1709251199 < 1709251200 ∧
      ∃ t : DateTime, t.Valid ∧ t.seconds = 1709251199 ∧ rfc3339 1709251199 = some t.text :=
  ⟨by decide +kernel, by decide, rfc3339_gregorian.1 1709251199 (by decide)⟩

end Passalong
