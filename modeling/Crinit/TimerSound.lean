import Crinit.Timer

/-! Every time that `crinitTimerNextTime` finds is a later one that the definition stands for, up to
the last year of its 16 bits. -/
namespace Crinit

open Calendar

theorem daysBeforeMonth_leap (leap m : Int) :
    daysBeforeMonth leap m = daysBeforeMonth 0 m + if m ≤ 2 then 0 else leap := by
  unfold daysBeforeMonth
  split_ifs <;> omega

/-- How far the loop has come from the time `t` after `turns` turns. `still` is set as long as the
date may be the old one. -/
structure Searched (td : TimerDef) (t : Tm) (still : Bool) (turns : Nat) (d : DateSearch) :
    Prop where
  day : 1 ≤ d.day ∧ d.day ≤ 31 + turns
  month : 1 ≤ d.month ∧ d.month ≤ 12
  year : t.year ≤ d.year ∧ d.year ≤ t.year + turns
  sameYear : d.year = t.year →
    (turns ≠ 0 → ccRange td.years.1 t.year td.years.2 = true) ∧
    d.offDays = d.day - t.mday +
      (daysBeforeMonth (leapDay (u16 t.year)) d.month -
        daysBeforeMonth (leapDay (u16 t.year)) t.mon) ∧
    (t.mon < d.month ∨ d.month = t.mon ∧ (t.mday < d.day ∨ still = true ∧ d.day = t.mday))
  laterYear : t.year < d.year →
    d.day - t.mday + (daysBeforeMonth 0 d.month - daysBeforeMonth 0 t.mon) + 365 ≤ d.offDays
  bounded : td.years.1 ≤ td.years.2 →
    (turns ≠ 0 → td.years.1 ≤ t.year ∧ d.year ≤ td.years.2) ∧
    d.offDays ≤ d.day - t.mday + (daysBeforeMonth 0 d.month - daysBeforeMonth 0 t.mon) +
      (daysBeforeYear d.year - daysBeforeYear t.year) + turns

theorem start_searched (td : TimerDef) {t : Tm} (day : 1 ≤ t.mday ∧ t.mday ≤ 31)
    (month : 1 ≤ t.mon ∧ t.mon ≤ 12) : Searched td t true 0 (startOfSearch t) := by
  constructor <;> simp only [startOfSearch]
  · exact ⟨day.1, by simpa using day.2⟩
  · exact month
  · simp
  · simp
  · intro later
    omega
  · intro _
    simp

/-- The year step of a range that does not wrap around stays in the range. -/
theorem moved_year {td : TimerDef} {done : Bool} {d d' : DateSearch}
    (moved : DateMoved td done d d')
    (plain : td.years.1 ≤ td.years.2) : td.years.1 ≤ d.year ∧ d'.year ≤ td.years.2 := by
  rcases moved.year with ⟨same, inside⟩ | ⟨succ, next⟩
  · simp only [ccRange, Bool.and_eq_true, decide_eq_true_eq] at inside
    omega
  · unfold nextYear coRange at next
    split_ifs at next with single wraps inside
    · simp only [Bool.and_eq_true, decide_eq_true_eq] at inside
      omega
    · omega
    · omega

theorem u16_eq {x : Int} (low : 0 ≤ x) (high : x ≤ 65535) : u16 x = x := by
  unfold u16
  omega

section Step

variable {td : TimerDef} {t : Tm} {still done : Bool} {turns : Nat} {d d' : DateSearch}

variable (searched : Searched td t still turns d) (moved : DateMoved td done d d')
include searched moved

theorem step_sameYear (same : d'.year = t.year) :
    ccRange td.years.1 t.year td.years.2 = true ∧
    d'.offDays = d'.day - t.mday +
      (daysBeforeMonth (leapDay (u16 t.year)) d'.month -
        daysBeforeMonth (leapDay (u16 t.year)) t.mon) ∧
    (t.mon < d'.month ∨ d'.month = t.mon ∧
      (t.mday < d'.day ∨ (still && done) = true ∧ d'.day = t.mday)) := by
  have year := searched.year
  rcases moved.year with ⟨same', inside⟩ | ⟨succ, -⟩
  · have here : d.year = t.year := by omega
    obtain ⟨-, off, later⟩ := searched.sameYear here
    have off' := moved.offDays_same same'
    have later' := moved.later same'
    rw [here] at off' inside
    refine ⟨inside, by omega, ?_⟩
    rcases later with later | ⟨month, later⟩ <;> rcases later' with later' | ⟨month', later'⟩
    · exact .inl (by omega)
    · exact .inl (by omega)
    · exact .inl (by omega)
    · refine .inr ⟨by omega, ?_⟩
      rcases later with later | ⟨still, day⟩ <;> rcases later' with later' | ⟨found, day'⟩
      · exact .inl (by omega)
      · exact .inl (by omega)
      · exact .inl (by omega)
      · exact .inr ⟨by rw [still, found]; rfl, by omega⟩
  · omega

theorem step_laterYear (later : t.year < d'.year) :
    d'.day - t.mday + (daysBeforeMonth 0 d'.month - daysBeforeMonth 0 t.mon) + 365 ≤
      d'.offDays := by
  have year := searched.year
  have leaps := leapDay_bounds (u16 d.year)
  have oldMonth := daysBeforeMonth_leap (leapDay (u16 d.year)) d.month
  have newMonth := daysBeforeMonth_leap (leapDay (u16 d.year)) d'.month
  rcases moved.year with ⟨same, -⟩ | ⟨succ, -⟩
  · have later' := moved.later same
    have old := searched.laterYear (by omega)
    have off := moved.offDays_same same
    split_ifs at oldMonth newMonth <;> omega
  · have off := moved.offDays_succ succ
    by_cases here : d.year = t.year
    · obtain ⟨-, old, -⟩ := searched.sameYear here
      have first := daysBeforeMonth_leap (leapDay (u16 d.year)) t.mon
      rw [← here] at old
      split_ifs at first oldMonth newMonth <;> omega
    · have old := searched.laterYear (by omega)
      split_ifs at oldMonth newMonth <;> omega

theorem step_bounded (ranges : td.InRange) (plain : td.years.1 ≤ td.years.2) :
    (td.years.1 ≤ t.year ∧ d'.year ≤ td.years.2) ∧
    d'.offDays ≤ d'.day - t.mday + (daysBeforeMonth 0 d'.month - daysBeforeMonth 0 t.mon) +
      (daysBeforeYear d'.year - daysBeforeYear t.year) + (turns + 1) := by
  obtain ⟨inside, old⟩ := searched.bounded plain
  have year := searched.year
  have yearBounds := moved_year moved plain
  have leaps := leapDay_bounds (u16 d.year)
  have oldMonth := daysBeforeMonth_leap (leapDay (u16 d.year)) d.month
  have newMonth := daysBeforeMonth_leap (leapDay (u16 d.year)) d'.month
  have first : td.years.1 ≤ t.year := by
    by_cases zero : turns = 0
    · omega
    · exact (inside zero).1
  refine ⟨⟨first, yearBounds.2⟩, ?_⟩
  rcases moved.year with ⟨same, -⟩ | ⟨succ, -⟩
  · have off := moved.offDays_same same
    rw [same]
    split_ifs at oldMonth newMonth <;> omega
  · have off := moved.offDays_succ succ
    have years := ranges.years
    unfold Within at years
    -- in the range of the years their 16 bits lose nothing
    rw [u16_eq (by omega) (by omega)] at off oldMonth newMonth leaps
    have next := daysBeforeYear_succ d.year
    rw [succ]
    split_ifs at oldMonth newMonth <;> omega

theorem step_searched (ranges : td.InRange) : Searched td t (still && done) (turns + 1) d' := by
  have day := searched.day
  have year := searched.year
  have days := moved.days
  refine ⟨⟨days.1, by omega⟩, moved.month, ?_, fun same => ?_, step_laterYear searched moved,
    fun plain => ?_⟩
  · rcases moved.year with ⟨same, -⟩ | ⟨succ, -⟩ <;> omega
  · have same' := step_sameYear searched moved same
    exact ⟨fun _ => same'.1, same'.2⟩
  · have bounded := step_bounded searched moved ranges plain
    exact ⟨fun _ => bounded.1, by exact_mod_cast bounded.2⟩

end Step

/-- The days behind the first one that the loop turns to, up to a date that the check takes. -/
def turnDays (td : TimerDef) (sec : Int) : Nat → Bool → DateSearch → List Int
  | 0, _, _ => []
  | tries + 1, done, d =>
    match updateDate td done d with
    | none => []
    | some d =>
      d.offDays :: if checkTimerTime (sec + d.offDays * 86400) td then []
        else turnDays td sec tries false d

theorem searchDate_eq_find (td : TimerDef) (sec : Int) (tries : Nat) (done : Bool)
    (d : DateSearch) : searchDate td sec tries done d =
      ((turnDays td sec tries done d).find? fun days =>
        checkTimerTime (sec + days * 86400) td).map fun days => sec + days * 86400 := by
  induction tries generalizing done d with
  | zero => rfl
  | succ tries ih =>
    unfold searchDate turnDays
    cases updateDate td done d with
    | none => rfl
    | some d' =>
      simp only [List.find?_cons, ih]
      split_ifs with matching
      · simp only [matching, Option.map_some]
      · simp only [matching]

theorem turnDays_taken {td : TimerDef} {sec days : Int} {tries : Nat} {pre post : List Int}
    (taken : checkTimerTime (sec + days * 86400) td = true) {done : Bool} {d : DateSearch}
    (turns : turnDays td sec tries done d = pre ++ days :: post) : post = [] := by
  induction tries generalizing done d pre with
  | zero => simp [turnDays] at turns
  | succ tries ih =>
    unfold turnDays at turns
    split at turns
    · simp at turns
    · cases pre with
      | nil =>
        obtain ⟨rfl, rest⟩ := List.cons.inj turns
        rw [if_pos taken] at rest
        exact rest.symm
      | cons a pre =>
        obtain ⟨rfl, rest⟩ := List.cons.inj turns
        split_ifs at rest
        · simp at rest
        · exact ih rest

theorem turnDays_searched {td : TimerDef} {t : Tm} (ranges : td.InRange) {sec days : Int}
    {tries : Nat} :
    ∀ {done still : Bool} {turns : Nat} {d : DateSearch}, Searched td t still turns d →
      days ∈ turnDays td sec tries done d →
      ∃ (still' : Bool) (turns' : Nat) (d' : DateSearch), Searched td t still' turns' d' ∧
        (still' = true → done = true) ∧ turns' ≠ 0 ∧ turns' ≤ turns + tries ∧
        d'.offDays = days := by
  induction tries with
  | zero =>
    intro done still turns d searched reached
    cases reached
  | succ tries ih =>
    intro done still turns d searched reached
    unfold turnDays at reached
    split at reached
    · cases reached
    · rename_i d' step
      have next := step_searched searched
        (updateDate_moved ranges searched.month searched.day.1 step) ranges
      rcases List.mem_cons.1 reached with rfl | reached
      · refine ⟨_, _, d', next, ?_, by omega, by omega, rfl⟩
        intro both
        exact (Bool.and_eq_true _ _ ▸ both).2
      · split_ifs at reached
        · cases reached
        obtain ⟨still', turns', d'', far, later, rest⟩ := ih next reached
        exact ⟨still', turns', d'', far, fun same => absurd (later same) (by decide),
          rest.1, by omega, rest.2.2⟩

section Found

variable {td : TimerDef} {t : Tm} {still : Bool} {turns : Nat} {d : DateSearch}

theorem Searched.offDays_pos (ranges : td.InRange) (searched : Searched td t still turns d)
    (turned : turns ≠ 0) (valid : (Date.mk t.year t.mon t.mday).Valid) :
    0 < d.offDays ∨ d.offDays = 0 ∧ still = true := by
  obtain ⟨month, day⟩ := valid
  simp only at month day
  have lengths := monthLength_bounds month.1 month.2 t.year
  have day' := searched.day
  rcases Int.lt_or_eq_of_le searched.year.1 with later | same
  · have low := searched.laterYear later
    have first := daysBeforeMonth_mono (show (0 : Int) ≤ 0 ∧ (0 : Int) ≤ 1 by decide)
      searched.month.1
    have last := daysBeforeMonth_mono (show (0 : Int) ≤ 0 ∧ (0 : Int) ≤ 1 by decide) month.2
    simp only [show daysBeforeMonth 0 1 = 0 from rfl, show daysBeforeMonth 0 12 =
      334 from rfl] at first last
    omega
  · obtain ⟨inside, off, later⟩ := searched.sameYear same.symm
    have inside := inside turned
    have years := ranges.years
    simp only [ccRange, Bool.and_eq_true, decide_eq_true_eq] at inside
    unfold Within at years
    rw [u16_eq (by omega) (by omega)] at off
    rcases later with later | ⟨sameMonth, later⟩
    · have := daysBeforeMonth_mono (leapDay_bounds t.year) (show t.mon + 1 ≤ d.month by omega)
      unfold monthLength at day
      omega
    · rw [sameMonth] at off
      rcases later with later | ⟨still, sameDay⟩
      · omega
      · exact .inr ⟨by omega, still⟩

theorem Searched.yearOf_le (searched : Searched td t still turns d) (few : turns ≤ maxTries)
    (plain : td.years.1 ≤ td.years.2) :
    yearOf ((Date.mk t.year t.mon t.mday).number + d.offDays) ≤ d.year + 1 := by
  have off := (searched.bounded plain).2
  have day := searched.day
  have leaps := leapDay_bounds t.year
  have first := daysBeforeMonth_leap (leapDay t.year) t.mon
  have last := daysBeforeMonth_mono (show (0 : Int) ≤ 0 ∧ (0 : Int) ≤ 1 by decide) searched.month.2
  have next := daysBeforeYear_succ d.year
  have next' := daysBeforeYear_succ (d.year + 1)
  have leaps₁ := leapDay_bounds d.year
  have leaps₂ := leapDay_bounds (d.year + 1)
  simp only [show daysBeforeMonth 0 12 = 334 from rfl] at last
  have before : (Date.mk t.year t.mon t.mday).number + d.offDays <
    daysBeforeYear (d.year + 1 + 1) := by
    simp only [Date.number]
    unfold maxTries at few
    split_ifs at first <;> omega
  have := yearOf_lt before
  omega

end Found

section Result

variable {last : Timespec} {td : TimerDef}

def daysOfTurns (last : Timespec) (td : TimerDef) : List Int :=
  turnDays td (last.sec + timeOff (zonedTime last.sec td.timezone) td) maxTries
    (nextHours (zonedTime last.sec td.timezone) td).done
    (startOfSearch (zonedTime last.sec td.timezone))

/-- The time of the first date, moved on by whole days. -/
def timeAfter (last : Timespec) (td : TimerDef) (days : Int) : Int :=
  last.sec + timeOff (zonedTime last.sec td.timezone) td + days * 86400

abbrev Takes (last : Timespec) (td : TimerDef) (days : Int) : Prop :=
  checkTimerTime (timeAfter last td days) td = true

/-- The day at which the loop stops, as the days behind the first one. -/
def stopDay (last : Timespec) (td : TimerDef) : Option Int :=
  (daysOfTurns last td).find? fun days => checkTimerTime (timeAfter last td days) td

theorem turns_of_taken {days : Int} (looked : days ∈ daysOfTurns last td)
    (takes : Takes last td days) : ∃ before, daysOfTurns last td = before ++ [days] := by
  obtain ⟨before, after, turns⟩ := List.append_of_mem looked
  obtain rfl := turnDays_taken takes turns
  exact ⟨before, turns⟩

theorem stopDay_iff {days : Int} :
    stopDay last td = some days ↔ days ∈ daysOfTurns last td ∧ Takes last td days := by
  have found {stop : Int} (stops : stopDay last td = some stop) :
      stop ∈ daysOfTurns last td ∧ Takes last td stop :=
    ⟨List.mem_of_find?_eq_some stops, by simpa using List.find?_some stops⟩
  refine ⟨found, fun ⟨looked, takes⟩ => ?_⟩
  cases stops : stopDay last td with
  | none => exact absurd takes (List.find?_eq_none.1 stops days looked)
  | some stop =>
    obtain ⟨before, turns⟩ := turns_of_taken looked takes
    obtain ⟨before', turns'⟩ := turns_of_taken (found stops).1 (found stops).2
    rw [turns] at turns'
    simpa using (List.append_inj_right' turns' rfl).symm

theorem timerNextTime_eq (last : Timespec) (td : TimerDef) : timerNextTime last td =
    (stopDay last td).elim ⟨0, 0⟩ fun days => ⟨timeAfter last td days, last.nsec⟩ := by
  have search := searchDate_eq_find td (last.sec + timeOff (zonedTime last.sec td.timezone) td)
    maxTries (nextHours (zonedTime last.sec td.timezone) td).done
    (startOfSearch (zonedTime last.sec td.timezone))
  unfold timerNextTime stopDay daysOfTurns timeAfter
  simp only [search]
  generalize List.find? _ _ = found
  cases found with
  | none => rfl
  | some days => rfl

theorem start_number (last : Timespec) (td : TimerDef) :
    (Date.mk (zonedTime last.sec td.timezone).year (zonedTime last.sec td.timezone).mon
      (zonedTime last.sec td.timezone).mday).number = dayNumber last.sec td := dateOf_number _

/-- The date lies in the year behind the last one of any timer, and its 16 bits in the range. -/
def BehindLastYear (last : Timespec) (td : TimerDef) (days : Int) : Prop :=
  td.years = (0, 0xffff) ∧ (dateOf (dayNumber last.sec td + days)).year = 0x10000

section Reached

variable (ranges : td.InRange) {days : Int} (reached : days ∈ daysOfTurns last td)
include ranges reached

theorem daysOfTurns_searched :
    ∃ (still : Bool) (turns : Nat) (d : DateSearch),
      Searched td (zonedTime last.sec td.timezone) still turns d ∧
      (still = true → (nextHours (zonedTime last.sec td.timezone) td).done = true) ∧
      turns ≠ 0 ∧ turns ≤ maxTries ∧ d.offDays = days := by
  have valid := dateOf_valid (dayNumber last.sec td)
  have lengths := monthLength_bounds valid.month.1 valid.month.2
    (dateOf (dayNumber last.sec td)).year
  have start := start_searched td (t := zonedTime last.sec td.timezone)
    ⟨valid.day.1, Int.le_trans valid.day.2 lengths.2⟩ valid.month
  obtain ⟨still, turns, d, searched, later, turned, few, off⟩ :=
    turnDays_searched ranges start reached
  exact ⟨still, turns, d, searched, later, turned, by omega, off⟩

theorem days_forward :
    0 ≤ days ∧ last.sec < timeAfter last td days := by
  obtain ⟨still, turns, d, searched, later, turned, -, rfl⟩ := daysOfTurns_searched ranges reached
  have bounds := timeOff_bounds ranges last.sec
  unfold timeAfter
  rcases searched.offDays_pos ranges turned (dateOf_valid (dayNumber last.sec td)) with
    days | ⟨none, same⟩
  · omega
  · have := timeOff_pos ranges last.sec (later same)
    omega

/-- The year of a result is the one its 16 bits tell, as far as the range of the years goes. -/
theorem result_years
    (inside : InCyclic td.years (u16 (dateOf (dayNumber last.sec td + days)).year)) :
    InCyclic td.years (dateOf (dayNumber last.sec td + days)).year ∨
      BehindLastYear last td days := by
  have forward := (days_forward ranges reached).1
  obtain ⟨still, turns, d, searched, -, turned, few, rfl⟩ := daysOfTurns_searched ranges reached
  have years := ranges.years
  unfold Within at years
  unfold BehindLastYear
  unfold InCyclic u16 at *
  by_cases plain : td.years.1 ≤ td.years.2
  · rw [if_pos plain] at inside ⊢
    obtain ⟨first, bound⟩ := (searched.bounded plain).1 turned
    have ahead := searched.yearOf_le few plain
    have old : (zonedTime last.sec td.timezone).year ≤
      yearOf (dayNumber last.sec td + d.offDays) := by
      refine le_yearOf ?_
      have := (yearOf_bounds (dayNumber last.sec td)).1
      simp only [zonedTime, gmtime, dateOf, dayNumber] at this ⊢
      omega
    rw [start_number] at ahead
    change _ ≤ yearOf _ % 65536 ∧ yearOf _ % 65536 ≤ _ at inside
    change (_ ≤ yearOf _ ∧ yearOf _ ≤ _) ∨ _ ∧ yearOf _ = _
    by_cases full : td.years.1 = 0 ∧ td.years.2 = 65535
    · have all : td.years = (0, 0xffff) := Prod.ext full.1 full.2
      simp only [all, true_and]
      omega
    · omega
  · rw [if_neg plain] at inside ⊢
    omega

/-- The date is at most a year ahead of the year that the loop has counted, and each turn counts
one at most. -/
theorem behind_late (behind : BehindLastYear last td days) :
    0xffff - 43 < (zonedTime last.sec td.timezone).year := by
  obtain ⟨still, turns, d, searched, -, -, few, rfl⟩ := daysOfTurns_searched ranges reached
  have ahead := searched.yearOf_le few (by rw [behind.1]; decide)
  rw [start_number] at ahead
  have year : yearOf (dayNumber last.sec td + d.offDays) = 0x10000 := behind.2
  have counted := searched.year
  unfold maxTries at few
  omega

end Reached

/-- A time that the check lets pass is one of the timer, but for the year. -/
theorem stopDay_matches (ranges : td.InRange) {days : Int} (stops : stopDay last td = some days) :
    td.Matches (timeAfter last td days) ∨ BehindLastYear last td days := by
  have reached := List.mem_of_find?_eq_some stops
  have check := List.find?_some stops
  have result := zonedTime_result ranges last.sec days
  have year : InCyclic td.years (u16 (dateOf (dayNumber last.sec td + days)).year) := by
    simp only [checkTimerTime, timeAfter, result, Bool.and_eq_true, timerMatches_iff] at check
    exact check.1.2
  refine (result_years ranges reached year).imp_left fun years => ?_
  refine matches_of_check check ?_ fun _ => ?_
  · rw [timeAfter, result]
    exact (nextMinutes_updated ranges last.sec).inside
  · rw [timeAfter, result]
    exact years

end Result

/-- The day counter of the loop has run behind the last day of the year 65535, with a range of the
years in which the 16 bits of the next one lie. -/
def Overruns (last : Timespec) (td : TimerDef) : Prop :=
  ∃ days ∈ daysOfTurns last td, Takes last td days ∧ BehindLastYear last td days

def saturdayTimer : TimerDef := { wDay := 0x20#8, hours := (23, 23), minutes := (45, 45) }

def turnOfMonthTimer : TimerDef := { wDay := 0x04#8, month := (11, 3), days := (31, 2) }

end Crinit
