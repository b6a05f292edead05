import Mathlib.Tactic

/-!
# The Gregorian calendar

Days are numbered from the first of January 1970, before and after, and a date is a year, a month
and a day the month has. Every day number is that of one date. A year begins
`365 (y - 1970)` days and the leap days between after the first day; the year of a day is found
from the mean length of a year, which is never more than one year out.
-/
namespace HeirsOcr.Calendar

def isLeap (y : ℤ) : Bool := y % 4 = 0 && (y % 100 ≠ 0 || y % 400 = 0)

/-- The day a year begins on. -/
def dayFromYear (y : ℤ) : ℤ :=
  365 * (y - 1970) + (y - 1969) / 4 - (y - 1901) / 100 + (y - 1601) / 400

theorem dayFromYear_succ (y : ℤ) :
    dayFromYear (y + 1) = dayFromYear y + if isLeap y then 366 else 365 := by
  have hleap : isLeap y = true ↔ y % 4 = 0 ∧ (y % 100 ≠ 0 ∨ y % 400 = 0) := by simp [isLeap]
  simp only [dayFromYear, hleap]
  split_ifs with h
  · omega
  · omega

/-- The year of a day by the mean length of a year. -/
def meanYear (n : ℤ) : ℤ := 1970 + 400 * n / 146097

theorem meanYear_bounds (n : ℤ) :
    dayFromYear (meanYear n - 1) ≤ n ∧ n < dayFromYear (meanYear n + 1 + 1) := by
  simp only [meanYear, dayFromYear]
  constructor
  · omega
  · omega

def yearFromDay (n : ℤ) : ℤ :=
  let y := meanYear n
  if dayFromYear (y + 1) ≤ n then y + 1 else if n < dayFromYear y then y - 1 else y

/-- The day lies in its year. -/
theorem yearFromDay_spec (n : ℤ) :
    dayFromYear (yearFromDay n) ≤ n ∧ n < dayFromYear (yearFromDay n + 1) := by
  obtain ⟨hlow, hhigh⟩ := meanYear_bounds n
  simp only [yearFromDay]
  by_cases hlater : dayFromYear (meanYear n + 1) ≤ n
  · rw [if_pos hlater]
    exact ⟨hlater, hhigh⟩
  · rw [if_neg hlater]
    by_cases hearlier : n < dayFromYear (meanYear n)
    · rw [if_pos hearlier, sub_add_cancel]
      exact ⟨hlow, hearlier⟩
    · rw [if_neg hearlier]
      omega

/-- Years do not overlap. -/
theorem dayFromYear_mono {y z : ℤ} (h : y ≤ z) : dayFromYear y ≤ dayFromYear z := by
  simp only [dayFromYear]
  omega

theorem yearFromDay_unique {n y : ℤ} (hlow : dayFromYear y ≤ n) (hhigh : n < dayFromYear (y + 1)) :
    yearFromDay n = y := by
  obtain ⟨hlow', hhigh'⟩ := yearFromDay_spec n
  rcases lt_trichotomy (yearFromDay n) y with hlt | heq | hgt
  · have hmono := dayFromYear_mono (by omega : yearFromDay n + 1 ≤ y)
    omega
  · exact heq
  · have hmono := dayFromYear_mono (by omega : y + 1 ≤ yearFromDay n)
    omega

def daysInMonth (leap : Bool) (month : ℕ) : ℕ :=
  match month with
  | 2 => if leap then 29 else 28
  | 4 | 6 | 9 | 11 => 30
  | 1 | 3 | 5 | 7 | 8 | 10 | 12 => 31
  | _ => 0

/-- The days of a year before a month. -/
def monthStart (leap : Bool) (month : ℕ) : ℕ :=
  ((List.range month).map (daysInMonth leap)).sum

/-- The month of a day of the year, the first day being 0. -/
def monthFromDay (leap : Bool) (day : ℕ) : ℕ :=
  ((List.range' 1 11).find? fun month => day < monthStart leap (month + 1)).getD 12

theorem monthStart_succ (leap : Bool) (month : ℕ) :
    monthStart leap (month + 1) = monthStart leap month + daysInMonth leap month := by
  simp [monthStart, List.range_succ]

theorem monthStart_mono (leap : Bool) : Monotone (monthStart leap) :=
  monotone_nat_of_le_succ fun month => by
    rw [monthStart_succ]
    exact Nat.le_add_right _ _

/-- The months begin with the year, and fill it. -/
theorem monthStart_ends (leap : Bool) :
    monthStart leap 1 = 0 ∧ monthStart leap 13 = if leap then 366 else 365 := by
  cases leap
  · decide
  · decide

/-- The day lies in its month. -/
theorem monthFromDay_spec (leap : Bool) (day : ℕ) (h : day < if leap then 366 else 365) :
    1 ≤ monthFromDay leap day ∧ monthFromDay leap day ≤ 12 ∧
      monthStart leap (monthFromDay leap day) ≤ day ∧
      day < monthStart leap (monthFromDay leap day) +
        daysInMonth leap (monthFromDay leap day) := by
  obtain ⟨hfirst, hlast⟩ := monthStart_ends leap
  rw [← monthStart_succ, monthFromDay]
  cases hfind : (List.range' 1 11).find? fun month => day < monthStart leap (month + 1) with
  | none =>
    rw [List.find?_range'_eq_none] at hfind
    have hnot := hfind 11 (by omega) (by omega)
    simp only [Bool.not_eq_true', decide_eq_false_iff_not, not_lt] at hnot
    exact ⟨by simp, by simp, hnot, hlast ▸ h⟩
  | some month =>
    obtain ⟨hday, hmem, hbefore⟩ := List.find?_range'_eq_some.mp hfind
    rw [List.mem_range'_1] at hmem
    refine ⟨hmem.1, by simp only [Option.getD_some]; omega, ?_, of_decide_eq_true hday⟩
    obtain rfl | hlater := hmem.1.eq_or_lt
    · exact hfirst ▸ Nat.zero_le day
    · have hnot := hbefore (month - 1) (by omega) (by omega)
      rw [Nat.sub_add_cancel hmem.1] at hnot
      simpa using hnot

/-- Only the month a day lies in is its month. -/
theorem monthFromDay_unique {leap : Bool} {month day : ℕ} (hhigh : month ≤ 12)
    (hstart : monthStart leap month ≤ day) (hend : day < monthStart leap (month + 1)) :
    monthFromDay leap day = month := by
  have hyear := monthStart_mono leap (by omega : month + 1 ≤ 13)
  obtain ⟨-, -, hstart', hend'⟩ :=
    monthFromDay_spec leap day ((monthStart_ends leap).2 ▸ hend.trans_le hyear)
  rw [← monthStart_succ] at hend'
  rcases lt_trichotomy (monthFromDay leap day) month with hlt | heq | hgt
  · have hmono := monthStart_mono leap (by omega : monthFromDay leap day + 1 ≤ month)
    omega
  · exact heq
  · have hmono := monthStart_mono leap (by omega : month + 1 ≤ monthFromDay leap day)
    omega

/-- A day of a month is a day of the year, and its month is found again. -/
theorem monthFromDay_of_day {leap : Bool} {month day : ℕ} (hmonth : month ≤ 12) (hpos : 1 ≤ day)
    (hday : day ≤ daysInMonth leap month) :
    monthStart leap month + (day - 1) < (if leap then 366 else 365) ∧
      monthFromDay leap (monthStart leap month + (day - 1)) = month := by
  have hend : monthStart leap month + (day - 1) < monthStart leap (month + 1) := by
    rw [monthStart_succ]
    omega
  have hyear := monthStart_mono leap (by omega : month + 1 ≤ 13)
  rw [(monthStart_ends leap).2] at hyear
  exact ⟨hend.trans_le hyear, monthFromDay_unique hmonth (Nat.le_add_right _ _) hend⟩

theorem daysInMonth_le (leap : Bool) (month : ℕ) : daysInMonth leap month ≤ 31 := by
  unfold daysInMonth
  split
  · split_ifs
    · omega
    · omega
  all_goals omega

/-- A date of the calendar: the month has the day. -/
@[ext]
structure Date where
  year : ℤ
  month : ℕ
  day : ℕ
  month_le : month ≤ 12
  day_pos : 1 ≤ day
  day_le : day ≤ daysInMonth (isLeap year) month
  deriving DecidableEq

/-- Only the twelve months have days. -/
theorem Date.month_pos (d : Date) : 1 ≤ d.month := by
  have hpos := d.day_pos
  have hle := d.day_le
  by_contra hzero
  have hmonth : d.month = 0 := by omega
  rw [hmonth] at hle
  simp only [daysInMonth] at hle
  omega

theorem Date.day_le_31 (d : Date) : d.day ≤ 31 :=
  d.day_le.trans (daysInMonth_le _ _)

/-- An earlier date: the year, then the month, then the day. -/
def Date.Before (d e : Date) : Prop :=
  d.year < e.year ∨ d.year = e.year ∧ (d.month < e.month ∨ d.month = e.month ∧ d.day < e.day)

def toDay (d : Date) : ℤ :=
  dayFromYear d.year + (monthStart (isLeap d.year) d.month + (d.day - 1) : ℕ)

theorem dayOfYear_lt (n : ℤ) : (n - dayFromYear (yearFromDay n)).toNat <
    if isLeap (yearFromDay n) then 366 else 365 := by
  obtain ⟨hlow, hhigh⟩ := yearFromDay_spec n
  rw [dayFromYear_succ] at hhigh
  split_ifs at hhigh ⊢
  · omega
  · omega

/-- The date of a day. -/
def ofDay (n : ℤ) : Date :=
  let year := yearFromDay n
  let dayOfYear := (n - dayFromYear year).toNat
  let month := monthFromDay (isLeap year) dayOfYear
  { year := year
    month := month
    day := dayOfYear - monthStart (isLeap year) month + 1
    month_le := (monthFromDay_spec _ _ (dayOfYear_lt n)).2.1
    day_pos := by omega
    day_le := by
      obtain ⟨-, -, hlow, hhigh⟩ : 1 ≤ month ∧ month ≤ 12 ∧
          monthStart (isLeap year) month ≤ dayOfYear ∧
          dayOfYear < monthStart (isLeap year) month + daysInMonth (isLeap year) month :=
        monthFromDay_spec _ _ (dayOfYear_lt n)
      omega }

/-- A date is that of its day. -/
theorem ofDay_toDay (d : Date) : ofDay (toDay d) = d := by
  obtain ⟨hlt, hmonth⟩ := monthFromDay_of_day d.month_le d.day_pos d.day_le
  have hyear : yearFromDay (toDay d) = d.year := by
    refine yearFromDay_unique ?_ ?_
    · rw [toDay]
      omega
    · rw [dayFromYear_succ, toDay]
      split_ifs at hlt ⊢
      · omega
      · omega
  have hday : (toDay d - dayFromYear d.year).toNat =
      monthStart (isLeap d.year) d.month + (d.day - 1) := by
    rw [toDay]
    omega
  have hpos := d.day_pos
  apply Date.ext
  · exact hyear
  · simp only [ofDay, hyear, hday, hmonth]
  · simp only [ofDay, hyear, hday, hmonth]
    omega

/-- A day is that of its date. -/
theorem toDay_ofDay (n : ℤ) : toDay (ofDay n) = n := by
  obtain ⟨hlow, -⟩ := yearFromDay_spec n
  obtain ⟨-, -, hstart, -⟩ := monthFromDay_spec _ _ (dayOfYear_lt n)
  simp only [toDay, ofDay]
  omega

theorem abs_year_ofDay_le {n : ℤ} (h : |n| ≤ 100000000) : |(ofDay n).year| ≤ 275760 := by
  obtain ⟨hlow, hhigh⟩ := yearFromDay_spec n
  rw [abs_le] at h ⊢
  simp only [dayFromYear] at hlow hhigh
  simp only [ofDay]
  omega

end HeirsOcr.Calendar
