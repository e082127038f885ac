import Crinit.TimerSound
import Mathlib.Data.List.Chain
import Mathlib.Data.List.Induction

/-! What `crinitTimerNextTime` leaves out. A time is a date and a time of the day. The loop keeps
the time of the day that it starts with and looks at one date a turn. -/
namespace Crinit

open Calendar

structure TimerDef.OnDay (td : TimerDef) (n : Int) : Prop where
  days : InCyclic td.days (dateOf n).day
  month : InCyclic td.month (dateOf n).month
  years : InCyclic td.years (dateOf n).year
  wDay : weekdayBit ((n - epoch + 4) % 7) &&& td.wDay ≠ 0#8

structure TimerDef.AtTime (td : TimerDef) (x : Int) : Prop where
  bounds : 0 ≤ x ∧ x < 86400
  seconds : InCyclic td.seconds (x % 60)
  minutes : InCyclic td.minutes (x / 60 % 60)
  hours : InCyclic td.hours (x / 3600)

def secondOfDay (sec : Int) (td : TimerDef) : Int := (sec + zoneOffset td.timezone) % 86400

theorem matches_iff_day_time (td : TimerDef) (t : Int) :
    td.Matches t ↔ td.OnDay (dayNumber t td) ∧ td.AtTime (secondOfDay t td) := by
  have sec : secondOfDay t td % 60 = (zonedTime t td.timezone).sec := by
    simp only [secondOfDay, zonedTime, gmtime]
    omega
  have min : secondOfDay t td / 60 % 60 = (zonedTime t td.timezone).min := by
    simp only [secondOfDay, zonedTime, gmtime]
    omega
  have hour : secondOfDay t td / 3600 = (zonedTime t td.timezone).hour := by
    simp only [secondOfDay, zonedTime, gmtime]
    omega
  have wday : (dayNumber t td - epoch + 4) % 7 = (zonedTime t td.timezone).wday := by
    simp only [dayNumber, zonedTime, gmtime]
    omega
  constructor
  · rintro ⟨seconds, minutes, hours, days, month, years, wDay⟩
    refine ⟨⟨days, month, years, wday ▸ wDay⟩, ?_, sec ▸ seconds, min ▸ minutes, hour ▸ hours⟩
    unfold secondOfDay
    omega
  · rintro ⟨⟨days, month, years, wDay⟩, -, seconds, minutes, hours⟩
    exact ⟨sec ▸ seconds, min ▸ minutes, hour ▸ hours, days, month, years, wday ▸ wDay⟩

theorem lt_iff_day_time (td : TimerDef) (s t : Int) : s < t ↔ dayNumber s td < dayNumber t td ∨
    dayNumber s td = dayNumber t td ∧ secondOfDay s td < secondOfDay t td := by
  unfold dayNumber secondOfDay
  omega

/-- Every time of the day has its second on every date. -/
theorem exists_second (td : TimerDef) (n : Int) {x : Int} (bounds : 0 ≤ x ∧ x < 86400) :
    ∃ t, dayNumber t td = n ∧ secondOfDay t td = x := by
  refine ⟨(n - epoch) * 86400 + x - zoneOffset td.timezone, ?_, ?_⟩
  · unfold dayNumber
    omega
  · unfold secondOfDay
    omega

/-! ### The turns of the loop -/

/-- A walk that starts before `n` or there is before `n` or there for a last time. -/
theorem exists_last_le {first n : Int} (start : first ≤ n) (walk : List Int) :
    ∃ a later, a ≤ n ∧ (a :: later) <:+ first :: walk ∧ ∀ b ∈ later, n < b := by
  induction walk using List.reverseRecOn with
  | nil => exact ⟨first, [], start, List.suffix_rfl, List.forall_mem_nil _⟩
  | append_singleton walk c ih =>
    by_cases back : c ≤ n
    · exact ⟨c, [], back, List.suffix_append (first :: walk) [c], List.forall_mem_nil _⟩
    · obtain ⟨a, later, le, ⟨before, turns⟩, ahead⟩ := ih
      refine ⟨a, later ++ [c], le, ⟨before, ?_⟩, ?_⟩
      · rw [← List.cons_append, ← List.append_assoc, turns, List.cons_append]
      simp only [List.forall_mem_append, List.forall_mem_singleton]
      exact ⟨ahead, Int.not_le.1 back⟩

section Search

variable (last : Timespec) (td : TimerDef)

/-- The time of the day that goes with every date. -/
def foundTime : Int := secondOfDay (timeAfter last td 0) td

/-- The check takes none of the dates that the loop turns to. -/
def GivesUp : Prop := ∀ days ∈ daysOfTurns last td, ¬Takes last td days

/-- A date of the timer. Without a result only the years of a timer count. -/
def Sought (days : Int) : Prop :=
  td.OnDay (dayNumber last.sec td + days) ∧
    (GivesUp last td → (dateOf (dayNumber last.sec td + days)).year ≤ 0xffff)

/-- From `a` the loop goes on to the dates `later` and leaves `days` behind for good. -/
def LeavesBehind (days a : Int) (later : List Int) : Prop :=
  a ≤ days ∧ (a :: later) <:+ 0 :: daysOfTurns last td ∧ ∀ b ∈ later, days < b

/-- Where each part of the search leaves nothing out: the rest of the first date, each turn from
one date to the next, the check of a date, the time of the day on a later date, the end of
the search and the time that stands for no time at all. -/
structure SkipsNothing : Prop where
  today : Sought last td 0 → ∀ x, td.AtTime x → secondOfDay last.sec td < x →
    0 ∈ daysOfTurns last td ∧ Takes last td 0 ∧ foundTime last td ≤ x
  turns : ∀ days a b later, LeavesBehind last td days a (b :: later) → a < days →
    ¬Sought last td days
  check : ∀ days later, LeavesBehind last td days days later → 0 < days → ¬Takes last td days →
    ¬Sought last td days
  time : ∀ days ∈ daysOfTurns last td, Takes last td days → 0 < days → Sought last td days →
    ∀ x, td.AtTime x → foundTime last td ≤ x
  ends : GivesUp last td → ∀ days a, LeavesBehind last td days a [] → a < days →
    ¬Sought last td days
  zero : ∀ days ∈ daysOfTurns last td, Takes last td days → last.nsec = 0 →
    timeAfter last td days ≠ 0

/-- The same for all dates and times of the day behind the last time. -/
def NoTimeLeft : Prop :=
  ∀ days x, Sought last td days → td.AtTime x →
    0 < days ∨ days = 0 ∧ secondOfDay last.sec td < x →
    ∃ stop, stopDay last td = some stop ∧ (stop < days ∨ stop = days ∧ foundTime last td ≤ x)

end Search

section Exact

variable {last : Timespec} {td : TimerDef} (ranges : td.InRange)

theorem givesUp_iff : GivesUp last td ↔ stopDay last td = none := List.find?_eq_none.symm

/-- The date that is taken is the last one. -/
theorem stop_left {days a stop : Int} {later : List Int} (stops : stopDay last td = some stop)
    (leaves : LeavesBehind last td days a later) : later = [] ∧ stop = a ∨ stop ∈ later := by
  obtain ⟨looked, takes⟩ := stopDay_iff.1 stops
  obtain ⟨before, turns⟩ := turns_of_taken looked takes
  have ends := leaves.2.1
  rw [turns, ← List.cons_append, List.suffix_concat_iff] at ends
  rcases ends with none | ⟨t, same, -⟩
  · cases none
  · cases t with
    | nil =>
      cases same
      exact .inl ⟨rfl, rfl⟩
    | cons c t =>
      cases same
      exact .inr (by simp)

theorem SkipsNothing.noTimeLeft (skips : SkipsNothing last td) : NoTimeLeft last td := by
  rintro days x sought atTime (forward | ⟨rfl, behind⟩)
  · obtain ⟨a, later, le, ends, ahead⟩ :=
      exists_last_le (Int.le_of_lt forward) (daysOfTurns last td)
    have leaves : LeavesBehind last td days a later := ⟨le, ends, ahead⟩
    rcases Int.lt_or_eq_of_le le with before | rfl
    · cases later with
      | cons b later => exact absurd sought (skips.turns days a b later leaves before)
      | nil =>
        cases stops : stopDay last td with
        | none => exact absurd sought (skips.ends (givesUp_iff.2 stops) days a leaves before)
        | some stop =>
          obtain ⟨-, rfl⟩ | none := stop_left stops leaves
          · exact ⟨_, rfl, .inl before⟩
          · cases none
    · have takes : Takes last td a :=
        not_not.1 fun refused => skips.check a later leaves forward refused sought
      have looked : a ∈ daysOfTurns last td := by
        rcases List.mem_cons.1 (ends.subset List.mem_cons_self) with rfl | looked
        · cases forward
        · exact looked
      exact ⟨a, stopDay_iff.2 ⟨looked, takes⟩,
        .inr ⟨rfl, skips.time a looked takes forward sought x atTime⟩⟩
  · obtain ⟨looked, takes, early⟩ := skips.today sought x atTime behind
    exact ⟨0, stopDay_iff.2 ⟨looked, takes⟩, .inr ⟨rfl, early⟩⟩

theorem noTimeLeft_iff (last : Timespec) (td : TimerDef) :
    NoTimeLeft last td ↔ ∀ t, last.sec < t → td.Matches t →
      (stopDay last td = none → (zonedTime t td.timezone).year ≤ 0xffff) →
      ∃ stop, stopDay last td = some stop ∧ (dayNumber last.sec td + stop < dayNumber t td ∨
        dayNumber last.sec td + stop = dayNumber t td ∧ foundTime last td ≤ secondOfDay t td) := by
  constructor
  · intro left t behind matching inYears
    rw [matches_iff_day_time] at matching
    rw [lt_iff_day_time td] at behind
    have day : dayNumber last.sec td + (dayNumber t td - dayNumber last.sec td) = dayNumber t td :=
      by omega
    obtain ⟨stop, stops, early⟩ := left (dayNumber t td - dayNumber last.sec td) _
      (by rw [Sought, day, givesUp_iff]; exact ⟨matching.1, inYears⟩) matching.2 (by omega)
    exact ⟨stop, stops, by omega⟩
  · intro left days x sought atTime behind
    obtain ⟨t, day, rfl⟩ := exists_second td (dayNumber last.sec td + days) atTime.bounds
    rw [Sought, givesUp_iff, ← day] at sought
    obtain ⟨stop, stops, early⟩ := left t (by rw [lt_iff_day_time td]; omega)
      ((matches_iff_day_time td t).2 ⟨sought.1, atTime⟩) sought.2
    exact ⟨stop, stops, by omega⟩

theorem noTimeLeft_none (stops : stopDay last td = none) :
    NoTimeLeft last td ↔ ∀ t, last.sec < t → (zonedTime t td.timezone).year ≤ 65535 →
      ¬td.Matches t := by
  simp only [noTimeLeft_iff, stops, reduceCtorEq, false_and, exists_false, true_implies]
  exact forall₂_congr fun t _ => ⟨fun none year matching => none matching year,
    fun none matching year => none year matching⟩

include ranges

theorem timeAfter_zoned (days : Int) : dayNumber (timeAfter last td days) td =
    dayNumber last.sec td + days ∧
      secondOfDay (timeAfter last td days) td = foundTime last td := by
  have start := zonedTime_found ranges last.sec 0
  have hours := (nextHours_updated ranges last.sec).bounds
  have minutes := (nextMinutes_updated ranges last.sec).bounds
  have seconds := (nextSeconds_updated ranges last.sec).bounds
  unfold foundTime dayNumber secondOfDay timeAfter
  unfold instant dayNumber at start
  omega

theorem foundTime_atTime : td.AtTime (foundTime last td) := by
  have start := zonedTime_found ranges last.sec 0
  have hours := nextHours_updated ranges last.sec
  have minutes := nextMinutes_updated ranges last.sec
  have seconds := nextSeconds_updated ranges last.sec
  have h := hours.bounds
  have m := minutes.bounds
  have s := seconds.bounds
  have time : foundTime last td = (nextHours (zonedTime last.sec td.timezone) td).res * 3600 +
      (nextMinutes (zonedTime last.sec td.timezone) td).res * 60 +
      (nextSeconds (zonedTime last.sec td.timezone) td).res := by
    unfold foundTime secondOfDay timeAfter
    unfold instant at start
    omega
  refine ⟨by omega, ?_, ?_, ?_⟩
  · rw [show foundTime last td % 60 =
      (nextSeconds (zonedTime last.sec td.timezone) td).res by omega]
    exact seconds.inside
  · rw [show foundTime last td / 60 % 60 =
      (nextMinutes (zonedTime last.sec td.timezone) td).res by omega]
    exact minutes.inside
  · rw [show foundTime last td / 3600 =
      (nextHours (zonedTime last.sec td.timezone) td).res by omega]
    exact hours.inside

theorem NoTimeLeft.skipsNothing (none : NoTimeLeft last td)
    (zero : ∀ days, stopDay last td = some days → last.nsec = 0 → timeAfter last td days ≠ 0) :
    SkipsNothing last td := by
  have atTime := @foundTime_atTime last td ranges
  have forward {days a : Int} {later : List Int}
      (leaves : LeavesBehind last td days a later) : 0 ≤ a := by
    rcases List.mem_cons.1 (leaves.2.1.subset List.mem_cons_self) with rfl | looked
    · exact Int.le_refl _
    · exact (days_forward ranges looked).1
  refine ⟨?_, ?_, ?_, ?_, ?_, fun days looked takes => zero days (stopDay_iff.2 ⟨looked, takes⟩)⟩
  · intro sought x time behind
    obtain ⟨stop, stops, before | ⟨rfl, early⟩⟩ := none 0 x sought time (.inr ⟨rfl, behind⟩)
    · have := (days_forward ranges (stopDay_iff.1 stops).1).1
      omega
    · exact ⟨(stopDay_iff.1 stops).1, (stopDay_iff.1 stops).2, early⟩
  · intro days a b later leaves before sought
    have start := forward leaves
    obtain ⟨stop, stops, early⟩ := none days _ sought atTime (.inl (by omega))
    obtain ⟨none, -⟩ | behind := stop_left stops leaves
    · cases none
    · have := leaves.2.2 stop behind
      omega
  · intro days later leaves start refused sought
    obtain ⟨stop, stops, early⟩ := none days _ sought atTime (.inl start)
    obtain ⟨-, rfl⟩ | behind := stop_left stops leaves
    · exact refused (stopDay_iff.1 stops).2
    · have := leaves.2.2 stop behind
      omega
  · intro days looked takes start sought x time
    obtain ⟨stop, stops, early⟩ := none days x sought time (.inl start)
    cases (stopDay_iff.2 ⟨looked, takes⟩).symm.trans stops
    omega
  · intro nowhere days a leaves before sought
    have start := forward leaves
    obtain ⟨stop, stops, -⟩ := none days _ sought atTime (.inl (by omega))
    rw [givesUp_iff, stops] at nowhere
    cases nowhere

theorem noTimeLeft_some {days : Int} (stops : stopDay last td = some days) :
    NoTimeLeft last td ↔ ∀ t, last.sec < t → t < timeAfter last td days → ¬td.Matches t := by
  obtain ⟨day, time⟩ := @timeAfter_zoned last td ranges days
  simp only [noTimeLeft_iff, stops, reduceCtorEq, false_implies, true_implies, Option.some.injEq,
    exists_eq_left']
  refine forall₂_congr fun t _ => ?_
  rw [lt_iff_day_time td t, day, time]
  constructor
  · intro left before matching
    have := left matching
    omega
  · intro left matching
    by_contra less
    exact left (by omega) matching

/-- The time 0 lies within some days of the first one of 1970. -/
theorem zero_matches (zone : Within (-128) 127 td.timezone) {days : Int}
    (stops : stopDay last td = some days) (zero : timeAfter last td days = 0) :
    (zonedTime 0 td.timezone).year ≤ 65535 ∧ td.Matches 0 := by
  have year : (dateOf (dayNumber 0 td)).year ≤ 65535 := by
    refine Int.le_of_lt_add_one (yearOf_lt (y := 65536) ?_)
    unfold dayNumber zoneOffset epoch daysBeforeYear
    unfold Within at zone
    omega
  have day := (@timeAfter_zoned last td ranges days).1
  have real := stopDay_matches ranges stops
  rw [zero] at day real
  refine ⟨year, real.resolve_right fun behind => ?_⟩
  have := behind.2
  rw [← day] at this
  omega

end Exact

def halfHourTimer : TimerDef := { hours := (0, 23), minutes := (30, 30), seconds := (0, 59) }

def newYearTimer : TimerDef := { years := (2030, 2030) }

end Crinit
