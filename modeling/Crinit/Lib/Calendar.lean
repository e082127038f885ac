import Mathlib.Tactic.IntervalCases

/-! The proleptic Gregorian calendar: dates and the number of days before them,
counted from the first day of the year 0. -/
namespace Calendar

def isLeap (y : Int) : Bool := y % 4 = 0 && (y % 100 ≠ 0 || y % 400 = 0)

def leapDay (y : Int) : Int := if isLeap y then 1 else 0

def daysBeforeYear (y : Int) : Int := 365 * y + ((y + 3) / 4 - (y + 99) / 100 + (y + 399) / 400)

/-- The days of a year before its month, with the days that a leap year has more.
From March on the months repeat their lengths every five months. -/
def daysBeforeMonth (leap m : Int) : Int :=
  if m ≤ 2 then 31 * (m - 1) else leap + 59 + (153 * m - 457) / 5

example : [1, 2, 3, 4, 5, 6, 7, 8, 9, 10, 11, 12].map (daysBeforeMonth 0) =
    [0, 31, 59, 90, 120, 151, 181, 212, 243, 273, 304, 334] := by decide

def monthLength (leap m : Int) : Int := daysBeforeMonth leap (m + 1) - daysBeforeMonth leap m

structure Date where
  year : Int
  month : Int
  day : Int
  deriving DecidableEq, Repr

def Date.number (c : Date) : Int :=
  daysBeforeYear c.year + daysBeforeMonth (leapDay c.year) c.month + (c.day - 1)

structure Date.Valid (c : Date) : Prop where
  month : 1 ≤ c.month ∧ c.month ≤ 12
  day : 1 ≤ c.day ∧ c.day ≤ monthLength (leapDay c.year) c.month

def yearOf (n : Int) : Int :=
  let y := 400 * n / 146097
  if n < daysBeforeYear y then y - 1 else if daysBeforeYear (y + 1) ≤ n then y + 1 else y

def monthOf (leap k : Int) : Int :=
  if k < 31 then 1 else if k < leap + 59 then 2 else (5 * (k - leap - 59) + 2) / 153 + 3

def dateOf (n : Int) : Date :=
  let y := yearOf n
  let k := n - daysBeforeYear y
  let m := monthOf (leapDay y) k
  ⟨y, m, k - daysBeforeMonth (leapDay y) m + 1⟩

theorem leapDay_bounds (y : Int) : 0 ≤ leapDay y ∧ leapDay y ≤ 1 := by
  unfold leapDay
  split_ifs <;> omega

theorem daysBeforeYear_succ (y : Int) :
    daysBeforeYear (y + 1) = daysBeforeYear y + 365 + leapDay y := by
  unfold daysBeforeYear leapDay isLeap
  by_cases four : y % 4 = 0 <;> by_cases hundred : y % 100 = 0 <;> by_cases all : y % 400 = 0 <;>
    simp only [four, hundred, all, decide_true, decide_false, ne_eq, not_true_eq_false,
      not_false_eq_true, Bool.and_self, Bool.or_self, Bool.and_false, Bool.or_true,
      Bool.true_or, Bool.and_true, if_true, Bool.false_eq_true, if_false] <;> omega

theorem daysBeforeYear_mono {y z : Int} (le : y ≤ z) : daysBeforeYear y ≤ daysBeforeYear z := by
  unfold daysBeforeYear
  omega

theorem yearOf_bounds (n : Int) :
    daysBeforeYear (yearOf n) ≤ n ∧ n < daysBeforeYear (yearOf n + 1) := by
  unfold yearOf
  simp only
  split_ifs with early late
  · refine ⟨?_, by simpa using early⟩
    unfold daysBeforeYear at *
    omega
  · refine ⟨late, ?_⟩
    unfold daysBeforeYear at *
    omega
  · omega

theorem le_yearOf {n y : Int} (low : daysBeforeYear y ≤ n) : y ≤ yearOf n := by
  by_contra earlier
  have := daysBeforeYear_mono (show yearOf n + 1 ≤ y by omega)
  have := (yearOf_bounds n).2
  omega

theorem yearOf_lt {n y : Int} (high : n < daysBeforeYear y) : yearOf n < y := by
  by_contra later
  have := daysBeforeYear_mono (show y ≤ yearOf n by omega)
  have := (yearOf_bounds n).1
  omega

theorem monthOf_bounds {leap k : Int} (leaps : 0 ≤ leap ∧ leap ≤ 1) (pos : 0 ≤ k)
    (inYear : k < 365 + leap) :
    (1 ≤ monthOf leap k ∧ monthOf leap k ≤ 12) ∧ daysBeforeMonth leap (monthOf leap k) ≤ k ∧
      k < daysBeforeMonth leap (monthOf leap k + 1) := by
  obtain ⟨low, high⟩ := leaps
  unfold monthOf daysBeforeMonth
  split_ifs <;> omega

theorem daysBeforeMonth_mono {leap : Int} (leaps : 0 ≤ leap ∧ leap ≤ 1) {m k : Int} (le : m ≤ k) :
    daysBeforeMonth leap m ≤ daysBeforeMonth leap k := by
  obtain ⟨low, high⟩ := leaps
  unfold daysBeforeMonth
  split_ifs <;> omega

theorem dateOf_number (n : Int) : (dateOf n).number = n := by
  simp only [dateOf, Date.number]
  omega

theorem dateOf_valid (n : Int) : (dateOf n).Valid := by
  obtain ⟨low, high⟩ := yearOf_bounds n
  rw [daysBeforeYear_succ] at high
  have month := monthOf_bounds (leapDay_bounds (yearOf n)) (k := n - daysBeforeYear (yearOf n))
    (by omega) (by omega)
  refine ⟨month.1, ?_⟩
  simp only [dateOf, monthLength]
  omega

end Calendar
