import Crinit.Lib.Calendar
import Crinit.Task

/-! The calendar timers of `timer.c`: what a definition matches, and the next time
it fires. `gmtime_r` is the proleptic Gregorian calendar on unbounded seconds. -/
namespace Crinit

open Calendar

/-- `crinitTimerDef_t`: closed ranges that may wrap around, a bit for each weekday
from Monday on, and the offset of the zone in hours and minutes. -/
structure TimerDef where
  wDay : BitVec 8 := 0x7f#8
  years : Int × Int := (0, 0xffff)
  month : Int × Int := (1, 12)
  days : Int × Int := (1, 31)
  hours : Int × Int := (0, 0)
  minutes : Int × Int := (0, 0)
  seconds : Int × Int := (0, 0)
  timezone : Int × Int := (0, 0)
  deriving DecidableEq, Repr

/-- The defaults of the record are those of `crinitTimerSetDefault`. -/
def timerSetDefault : TimerDef := {}

/-- `struct tm`, with the month from 1 and the year from 0 on. -/
structure Tm where
  sec : Int
  min : Int
  hour : Int
  mday : Int
  mon : Int
  year : Int
  wday : Int
  deriving DecidableEq, Repr

/-- The number of 1970-01-01, a Thursday. -/
def epoch : Int := 719528

def gmtime (t : Int) : Tm :=
  let date := dateOf (t / 86400 + epoch)
  { sec := t % 60, min := t / 60 % 60, hour := t / 3600 % 24
    mday := date.day, mon := date.month, year := date.year
    wday := (t / 86400 + 4) % 7 }

def zoneOffset (timezone : Int × Int) : Int := timezone.1 * 3600 + timezone.2 * 60

def zonedTime (t : Int) (timezone : Int × Int) : Tm := gmtime (t + zoneOffset timezone)

def coRange (start test stop : Int) : Bool := start ≤ test && test < stop
def ccRange (start test stop : Int) : Bool := start ≤ test && test ≤ stop
def ocRange (start test stop : Int) : Bool := start < test && test ≤ stop

def u8 (x : Int) : Int := x % 256
def u16 (x : Int) : Int := x % 65536

def isLeapYear (year : Int) : Bool := isLeap (u16 year)

def weekdayBit (wday : Int) : BitVec 8 := 1#8 <<< ((wday + 6) % 7).toNat

def timerMatches (r : Int × Int) (x : Int) : Bool :=
  ccRange r.1 x r.2 || coRange x r.2 r.1 || ocRange r.2 r.1 x

/-- The check of the minute has the first two arguments of `OC_RANGE` the other way around. -/
def timerMatchesMinute (r : Int × Int) (x : Int) : Bool :=
  ccRange r.1 x r.2 || coRange x r.2 r.1 || ocRange r.1 r.2 x

def checkTimerTime (sec : Int) (td : TimerDef) : Bool :=
  let t := zonedTime sec td.timezone
  timerMatches td.seconds t.sec && timerMatchesMinute td.minutes t.min &&
    timerMatches td.hours t.hour &&
    timerMatches td.days t.mday && timerMatches td.month (u8 t.mon) &&
    timerMatches td.years (u16 t.year) && (weekdayBit t.wday &&& td.wDay != 0#8)

def timerMonthLength (month year : Int) : Int :=
  if u8 month ∈ [1, 3, 5, 7, 8, 10, 12] then 31
  else if u8 month ∈ [4, 6, 9, 11] then 30
  else if u8 month = 2 then if isLeapYear year then 29 else 28
  else -1

structure NextField where
  done : Bool
  res : Int
  off : Int
  deriving DecidableEq, Repr

def nextOff (last : Int) (interval : Int × Int) (start limit : Int) : Int :=
  let low := u8 (if start ≤ interval.1 then interval.1 else start)
  let high := u8 (if interval.2 ≤ limit then interval.2 else limit)
  if low = high then low - last
  else if low < high then if coRange low last high then 1 else low - last
  else if coRange high last low then low - last
  else if last = limit then -(limit - start)
  else 1

def crinitNext (last : Int) (interval : Int × Int) (start limit : Int) : NextField :=
  let off := nextOff last interval start limit
  ⟨0 < off, last + off, off⟩

/-- Without a next year the answer is `none`; the caller gives up then. -/
def nextYear (last : Int) (interval : Int × Int) : Option Int :=
  if interval.1 = interval.2 then none
  else if interval.1 < interval.2 then if coRange interval.1 last interval.2 then some (last + 1)
  else none
  else if last < interval.2 then some (last + 1)
  else if interval.1 ≤ last then some (last + 1)
  else none

/-- `crinitDayToMonthLookup`; its unset first element is 0. -/
def dayToMonthLookup : List Int := [0, 0, 31, 59, 90, 120, 151, 181, 212, 243, 273, 304, 334]

def daysToMonth (m year : Int) : Int :=
  if u8 m ≠ 0 ∧ u8 m ≤ 2 then dayToMonthLookup.getD (u8 m).toNat 0
  else if u8 m ≤ 12 then dayToMonthLookup.getD (u8 m).toNat 0 + if isLeapYear year then 1 else 0
  else -1

def updateField (done : Bool) (last : Int) (interval : Int × Int) (start limit : Int) : NextField :=
  if !done || !ccRange interval.1 last interval.2 then crinitNext last interval start limit
  else ⟨done, last, 0⟩

def nextSeconds (t : Tm) (td : TimerDef) : NextField := crinitNext t.sec td.seconds 0 59

def nextMinutes (t : Tm) (td : TimerDef) : NextField :=
  updateField (nextSeconds t td).done t.min td.minutes 0 59

def nextHours (t : Tm) (td : TimerDef) : NextField :=
  updateField (nextMinutes t td).done t.hour td.hours 0 23

def timeOff (t : Tm) (td : TimerDef) : Int :=
  (nextSeconds t td).off + (nextMinutes t td).off * 60 + (nextHours t td).off * 3600

structure DateSearch where
  day : Int
  month : Int
  year : Int
  offDays : Int := 0
  deriving DecidableEq, Repr

def onFeb29 (td : TimerDef) (day : Int) : Bool :=
  td.days == (29, 29) && td.month == (2, 2) && day == 29

def updateDay (td : TimerDef) (done : Bool) (d : DateSearch) : NextField :=
  if done && ccRange td.days.1 d.day td.days.2 then ⟨done, d.day, 0⟩
  else if onFeb29 td d.day then ⟨false, d.day, 0⟩
  else crinitNext d.day td.days 1 (timerMonthLength d.month d.year)

/-- The days between the firsts of two months count as those of the old year. -/
def updateMonth (td : TimerDef) (done : Bool) (d : DateSearch) : Bool × DateSearch :=
  let month := updateField done d.month td.month 1 12
  (month.done, { d with
    month := month.res
    offDays := d.offDays + (daysToMonth month.res d.year - daysToMonth d.month d.year) })

def updateYear (td : TimerDef) (done : Bool) (d : DateSearch) : Option DateSearch :=
  if !done || !ccRange td.years.1 d.year td.years.2 then
    (nextYear d.year td.years).map fun year =>
      { d with
        year := year
        offDays := d.offDays + (year - d.year) * (365 + if isLeapYear d.year then 1 else 0) }
  else some d

def updateDate (td : TimerDef) (done : Bool) (d : DateSearch) : Option DateSearch :=
  let day := updateDay td done d
  let month := updateMonth td day.done { d with day := day.res, offDays := d.offDays + day.off }
  updateYear td month.1 month.2

def searchDate (td : TimerDef) (sec : Int) : Nat → Bool → DateSearch → Option Int
  | 0, _, _ => none
  | tries + 1, done, d =>
    match updateDate td done d with
    | none => none
    | some d =>
      if checkTimerTime (sec + d.offDays * 86400) td then some (sec + d.offDays * 86400)
      else searchDate td sec tries false d

def startOfSearch (t : Tm) : DateSearch := { day := t.mday, month := t.mon, year := t.year }

/-- The condition `tries++ <= 40` is checked behind the body. -/
def maxTries : Nat := 42

def timerNextTime (last : Timespec) (td : TimerDef) : Timespec :=
  let t := zonedTime last.sec td.timezone
  match searchDate td (last.sec + timeOff t td) maxTries (nextHours t td).done
    (startOfSearch t) with
  | some sec => ⟨sec, last.nsec⟩
  | none => ⟨0, 0⟩

/-! ### What a definition denotes -/

def InCyclic (r : Int × Int) (x : Int) : Prop :=
  if r.1 ≤ r.2 then r.1 ≤ x ∧ x ≤ r.2 else r.1 ≤ x ∨ x ≤ r.2

instance (r : Int × Int) (x : Int) : Decidable (InCyclic r x) := by
  unfold InCyclic
  infer_instance

def Within (start limit : Int) (r : Int × Int) : Prop :=
  (start ≤ r.1 ∧ r.1 ≤ limit) ∧ start ≤ r.2 ∧ r.2 ≤ limit

instance (start limit : Int) (r : Int × Int) : Decidable (Within start limit r) := by
  unfold Within
  infer_instance

structure TimerDef.InRange (td : TimerDef) : Prop where
  years : Within 0 65535 td.years
  month : Within 1 12 td.month
  days : Within 1 31 td.days
  hours : Within 0 23 td.hours
  minutes : Within 0 59 td.minutes
  seconds : Within 0 59 td.seconds

structure TimerDef.Matches (td : TimerDef) (sec : Int) : Prop where
  seconds : InCyclic td.seconds (zonedTime sec td.timezone).sec
  minutes : InCyclic td.minutes (zonedTime sec td.timezone).min
  hours : InCyclic td.hours (zonedTime sec td.timezone).hour
  days : InCyclic td.days (zonedTime sec td.timezone).mday
  month : InCyclic td.month (zonedTime sec td.timezone).mon
  years : InCyclic td.years (zonedTime sec td.timezone).year
  wDay : weekdayBit (zonedTime sec td.timezone).wday &&& td.wDay ≠ 0#8

instance (td : TimerDef) (sec : Int) : Decidable (td.Matches sec) :=
  decidable_of_iff (InCyclic td.seconds (zonedTime sec td.timezone).sec ∧
    InCyclic td.minutes (zonedTime sec td.timezone).min ∧
    InCyclic td.hours (zonedTime sec td.timezone).hour ∧
    InCyclic td.days (zonedTime sec td.timezone).mday ∧
    InCyclic td.month (zonedTime sec td.timezone).mon ∧
    InCyclic td.years (zonedTime sec td.timezone).year ∧
    weekdayBit (zonedTime sec td.timezone).wday &&& td.wDay ≠ 0#8)
    ⟨fun ⟨s, m, h, d, mo, y, w⟩ => ⟨s, m, h, d, mo, y, w⟩, fun ⟨s, m, h, d, mo, y, w⟩ =>
      ⟨s, m, h, d, mo, y, w⟩⟩

instance (td : TimerDef) : Decidable td.InRange :=
  decidable_of_iff (Within 0 65535 td.years ∧ Within 1 12 td.month ∧ Within 1 31 td.days ∧
    Within 0 23 td.hours ∧ Within 0 59 td.minutes ∧ Within 0 59 td.seconds)
    ⟨fun ⟨y, mo, d, h, m, s⟩ => ⟨y, mo, d, h, m, s⟩, fun ⟨y, mo, d, h, m, s⟩ => ⟨y, mo, d, h, m, s⟩⟩

theorem timerMatches_iff (r : Int × Int) (x : Int) : timerMatches r x = true ↔ InCyclic r x := by
  simp only [timerMatches, ccRange, coRange, ocRange, InCyclic, Bool.or_eq_true, Bool.and_eq_true,
    decide_eq_true_eq]
  split_ifs <;> omega

variable {r : Int × Int}

theorem inCyclic_of_ccRange {x : Int} (inside : ccRange r.1 x r.2 = true) : InCyclic r x := by
  simp only [ccRange, Bool.and_eq_true, decide_eq_true_eq] at inside
  unfold InCyclic
  split_ifs <;> omega

variable {last : Int}

theorem crinitNext_within {start limit : Int} (range : Within start limit r)
    (bytes : 0 ≤ start ∧ limit ≤ 255) (low : start ≤ last) (high : last ≤ limit) :
    start ≤ (crinitNext last r start limit).res ∧ (crinitNext last r start limit).res ≤ limit ∧
      InCyclic r (crinitNext last r start limit).res := by
  obtain ⟨⟨low₁, high₁⟩, low₂, high₂⟩ := range
  have first : u8 (if start ≤ r.1 then r.1 else start) = r.1 := by
    rw [if_pos low₁, u8]
    omega
  have second : u8 (if r.2 ≤ limit then r.2 else limit) = r.2 := by
    rw [if_pos high₂, u8]
    omega
  simp only [crinitNext, nextOff, first, second, coRange, InCyclic, Bool.and_eq_true,
    decide_eq_true_eq]
  split_ifs <;> omega

theorem crinitNext_done (last start limit : Int) (r : Int × Int) :
    (crinitNext last r start limit).done = true ↔ last < (crinitNext last r start limit).res := by
  simp only [crinitNext, decide_eq_true_eq]
  omega

theorem crinitNext_off (last start limit : Int) (r : Int × Int) :
    (crinitNext last r start limit).res = last + (crinitNext last r start limit).off := rfl

structure Updated (done : Bool) (last start limit : Int) (r : Int × Int) (f : NextField) :
    Prop where
  off : f.res = last + f.off
  bounds : start ≤ f.res ∧ f.res ≤ limit
  inside : InCyclic r f.res
  later : f.done = true → last < f.res ∨ done = true ∧ f.res = last

theorem updateField_updated {start limit : Int} (done : Bool) (range : Within start limit r)
    (bytes : 0 ≤ start ∧ limit ≤ 255) (low : start ≤ last) (high : last ≤ limit) :
    Updated done last start limit r (updateField done last r start limit) := by
  have next := crinitNext_within range bytes low high
  unfold updateField
  split_ifs with needed
  · exact ⟨crinitNext_off .., ⟨next.1, next.2.1⟩, next.2.2,
      fun larger => .inl ((crinitNext_done ..).1 larger)⟩
  · simp only [Bool.or_eq_true, Bool.not_eq_true', not_or, Bool.not_eq_false] at needed
    exact ⟨by simp, ⟨low, high⟩, inCyclic_of_ccRange needed.2, fun _ => .inr ⟨needed.1, rfl⟩⟩

theorem dateOf_month (n : Int) : u8 (dateOf n).month = (dateOf n).month := by
  have month := (dateOf_valid n).month
  unfold u8
  omega

/-- The check is exact but for the minute and the upper bits of the year. -/
theorem matches_of_check {sec : Int} {td : TimerDef} (check : checkTimerTime sec td = true)
    (minutes : InCyclic td.minutes (zonedTime sec td.timezone).min)
    (years : InCyclic td.years (u16 (zonedTime sec td.timezone).year) →
      InCyclic td.years (zonedTime sec td.timezone).year) : td.Matches sec := by
  have month : u8 (zonedTime sec td.timezone).mon = (zonedTime sec td.timezone).mon :=
    dateOf_month _
  simp only [checkTimerTime, Bool.and_eq_true, timerMatches_iff, bne_iff_ne, month] at check
  obtain ⟨⟨⟨⟨⟨⟨seconds, -⟩, hours⟩, days⟩, month⟩, year⟩, wDay⟩ := check
  exact ⟨seconds, minutes, hours, days, month, years year, wDay⟩

def instant (n hour min sec : Int) : Int := (n - epoch) * 86400 + hour * 3600 + min * 60 + sec

def dayNumber (sec : Int) (td : TimerDef) : Int := (sec + zoneOffset td.timezone) / 86400 + epoch

theorem gmtime_bounds (t : Int) :
    (0 ≤ (gmtime t).sec ∧ (gmtime t).sec ≤ 59) ∧ (0 ≤ (gmtime t).min ∧ (gmtime t).min ≤ 59) ∧
      0 ≤ (gmtime t).hour ∧ (gmtime t).hour ≤ 23 := by
  simp only [gmtime]
  omega

theorem gmtime_instant {n hour min sec : Int} (h : 0 ≤ hour ∧ hour ≤ 23) (m : 0 ≤ min ∧ min ≤ 59)
    (s : 0 ≤ sec ∧ sec ≤ 59) : gmtime (instant n hour min sec) =
      { sec := sec, min := min, hour := hour, mday := (dateOf n).day, mon := (dateOf n).month
        year := (dateOf n).year, wday := (n - epoch + 4) % 7 } := by
  have day : instant n hour min sec / 86400 = n - epoch := by
    unfold instant
    omega
  have number : n - epoch + epoch = n := by omega
  simp only [gmtime, day, number, Tm.mk.injEq, and_true]
  unfold instant
  omega

theorem instant_zoned (sec : Int) (td : TimerDef) :
    sec + zoneOffset td.timezone = instant (dayNumber sec td) (zonedTime sec td.timezone).hour
      (zonedTime sec td.timezone).min (zonedTime sec td.timezone).sec := by
  simp only [instant, dayNumber, zonedTime, gmtime]
  omega

section TimeOfDay

variable {td : TimerDef} (ranges : td.InRange) (sec : Int)
include ranges

theorem nextSeconds_updated :
    Updated false (zonedTime sec td.timezone).sec 0 59 td.seconds
      (nextSeconds (zonedTime sec td.timezone) td) := by
  have bounds := gmtime_bounds (sec + zoneOffset td.timezone)
  exact updateField_updated false ranges.seconds (by decide) bounds.1.1 bounds.1.2

theorem nextMinutes_updated :
    Updated (nextSeconds (zonedTime sec td.timezone) td).done (zonedTime sec td.timezone).min 0 59
      td.minutes (nextMinutes (zonedTime sec td.timezone) td) := by
  have bounds := gmtime_bounds (sec + zoneOffset td.timezone)
  exact updateField_updated _ ranges.minutes (by decide) bounds.2.1.1 bounds.2.1.2

theorem nextHours_updated :
    Updated (nextMinutes (zonedTime sec td.timezone) td).done (zonedTime sec td.timezone).hour 0 23
      td.hours (nextHours (zonedTime sec td.timezone) td) := by
  have bounds := gmtime_bounds (sec + zoneOffset td.timezone)
  exact updateField_updated _ ranges.hours (by decide) bounds.2.2.1 bounds.2.2.2

theorem timeOff_bounds : -86400 < timeOff (zonedTime sec td.timezone) td ∧
    timeOff (zonedTime sec td.timezone) td < 86400 := by
  have old := gmtime_bounds (sec + zoneOffset td.timezone)
  have seconds := nextSeconds_updated ranges sec
  have minutes := nextMinutes_updated ranges sec
  have hours := nextHours_updated ranges sec
  have bounds := And.intro seconds.bounds (And.intro minutes.bounds hours.bounds)
  rw [seconds.off, minutes.off, hours.off] at bounds
  unfold timeOff
  simp only [zonedTime] at *
  omega

theorem timeOff_pos (found : (nextHours (zonedTime sec td.timezone) td).done = true) :
    0 < timeOff (zonedTime sec td.timezone) td := by
  have bounds := gmtime_bounds (sec + zoneOffset td.timezone)
  have seconds := nextSeconds_updated ranges sec
  have minutes := nextMinutes_updated ranges sec
  have hours := nextHours_updated ranges sec
  have s := seconds.bounds
  have m := minutes.bounds
  have h := hours.bounds
  rw [seconds.off] at s
  rw [minutes.off] at m
  rw [hours.off] at h
  unfold timeOff
  simp only [zonedTime] at *
  -- an unchanged field was found later by the field below it
  rcases hours.later found with later | ⟨found, same⟩
  · rw [hours.off] at later
    omega
  rcases minutes.later found with later | ⟨found, same'⟩
  · rw [minutes.off] at later
    rw [hours.off] at same
    omega
  rcases seconds.later found with later | ⟨impossible, -⟩
  · rw [seconds.off] at later
    rw [hours.off] at same
    rw [minutes.off] at same'
    omega
  · cases impossible

theorem zonedTime_found (days : Int) :
    sec + timeOff (zonedTime sec td.timezone) td + days * 86400 + zoneOffset td.timezone =
      instant (dayNumber sec td + days) (nextHours (zonedTime sec td.timezone) td).res
        (nextMinutes (zonedTime sec td.timezone) td).res
        (nextSeconds (zonedTime sec td.timezone) td).res := by
  have zoned := instant_zoned sec td
  rw [(nextSeconds_updated ranges sec).off, (nextMinutes_updated ranges sec).off,
    (nextHours_updated ranges sec).off]
  unfold instant timeOff at *
  omega

theorem zonedTime_result (days : Int) :
    zonedTime (sec + timeOff (zonedTime sec td.timezone) td + days * 86400) td.timezone =
      { sec := (nextSeconds (zonedTime sec td.timezone) td).res
        min := (nextMinutes (zonedTime sec td.timezone) td).res
        hour := (nextHours (zonedTime sec td.timezone) td).res
        mday := (dateOf (dayNumber sec td + days)).day
        mon := (dateOf (dayNumber sec td + days)).month
        year := (dateOf (dayNumber sec td + days)).year
        wday := (dayNumber sec td + days - epoch + 4) % 7 } := by
  conv_lhs => rw [zonedTime, zonedTime_found ranges]
  exact gmtime_instant (nextHours_updated ranges sec).bounds (nextMinutes_updated ranges sec).bounds
    (nextSeconds_updated ranges sec).bounds

end TimeOfDay

variable {m : Int}

theorem daysToMonth_eq (low : 1 ≤ m) (high : m ≤ 12) (year : Int) :
    daysToMonth m year = daysBeforeMonth (leapDay (u16 year)) m := by
  have leaps : (if isLeapYear year then 1 else 0 : Int) = leapDay (u16 year) := rfl
  unfold daysToMonth
  rw [leaps]
  interval_cases m <;> (simp [u8, dayToMonthLookup, daysBeforeMonth]; try omega)

theorem timerMonthLength_eq (low : 1 ≤ m) (high : m ≤ 12) (year : Int) :
    timerMonthLength m year = monthLength (leapDay (u16 year)) m := by
  have leaps : (if isLeapYear year then 29 else 28 : Int) = 28 + leapDay (u16 year) := by
    unfold leapDay isLeapYear
    split_ifs <;> rfl
  unfold timerMonthLength
  rw [leaps]
  interval_cases m <;> (simp [u8, monthLength, daysBeforeMonth]; try omega)

theorem monthLength_bounds (low : 1 ≤ m) (high : m ≤ 12) (year : Int) :
    28 ≤ monthLength (leapDay year) m ∧ monthLength (leapDay year) m ≤ 31 := by
  have leaps := leapDay_bounds year
  unfold monthLength daysBeforeMonth
  split_ifs <;> omega

/-- A day that is already behind its month goes on by single days. -/
structure DayMoved (done : Bool) (day : Int) (f : NextField) : Prop where
  off : f.res = day + f.off
  low : 1 ≤ f.res
  high : f.res ≤ 31 ∨ f.res ≤ day + 1
  later : f.done = true → day < f.res ∨ done = true ∧ f.res = day

variable {d : DateSearch}

theorem updateDay_moved {td : TimerDef} (ranges : td.InRange) (done : Bool)
    (month : 1 ≤ d.month ∧ d.month ≤ 12) (day : 1 ≤ d.day) :
    DayMoved done d.day (updateDay td done d) := by
  unfold updateDay
  split_ifs with inside feb
  · simp only [Bool.and_eq_true] at inside
    exact ⟨by simp, day, .inr (Int.le_add_one (Int.le_refl _)), fun _ => .inr ⟨inside.1, rfl⟩⟩
  · exact ⟨by simp, day, .inr (Int.le_add_one (Int.le_refl _)), nofun⟩
  · have length := monthLength_bounds month.1 month.2 (u16 d.year)
    rw [← timerMonthLength_eq month.1 month.2] at length
    obtain ⟨⟨low₁, high₁⟩, low₂, high₂⟩ := ranges.days
    generalize timerMonthLength d.month d.year = ml at length
    refine ⟨crinitNext_off .., ?_, ?_, fun larger => .inl ((crinitNext_done ..).1 larger)⟩
    all_goals
      simp only [crinitNext, nextOff, u8, coRange, Bool.and_eq_true]
      split_ifs <;> omega

structure DateMoved (td : TimerDef) (done : Bool) (d d' : DateSearch) : Prop where
  days : 1 ≤ d'.day ∧ (d'.day ≤ 31 ∨ d'.day ≤ d.day + 1)
  month : 1 ≤ d'.month ∧ d'.month ≤ 12
  year : d'.year = d.year ∧ ccRange td.years.1 d.year td.years.2 = true ∨
    d'.year = d.year + 1 ∧ nextYear d.year td.years = some d'.year
  offDays : d'.offDays = d.offDays + (d'.day - d.day) +
    (daysBeforeMonth (leapDay (u16 d.year)) d'.month -
      daysBeforeMonth (leapDay (u16 d.year)) d.month) +
    (d'.year - d.year) * (365 + leapDay (u16 d.year))
  later : d'.year = d.year → d.month < d'.month ∨ d'.month = d.month ∧
    (d.day < d'.day ∨ done = true ∧ d'.day = d.day)

theorem nextYear_eq {next : Int} (year : nextYear last r = some next) : next = last + 1 := by
  unfold nextYear at year
  split_ifs at year <;> exact (Option.some.inj year).symm

variable {done : Bool} {d' : DateSearch}

theorem updateYear_cases {td : TimerDef} (step : updateYear td done d = some d') :
    (done = true ∧ ccRange td.years.1 d.year td.years.2 = true ∧ d' = d) ∨
      ¬(done = true ∧ ccRange td.years.1 d.year td.years.2 = true) ∧
        nextYear d.year td.years = some (d.year + 1) ∧
        d' = { d with
          year := d.year + 1, offDays := d.offDays + (365 + leapDay (u16 d.year)) } := by
  unfold updateYear at step
  rw [show (if isLeapYear d.year then 1 else 0 : Int) = leapDay (u16 d.year) from rfl] at step
  split_ifs at step with needed
  · obtain ⟨year, next, rfl⟩ := Option.map_eq_some_iff.1 step
    obtain rfl := nextYear_eq next
    refine .inr ⟨by simpa [← Bool.not_and] using needed, next, ?_⟩
    have one : d.year + 1 - d.year = 1 := by omega
    simp only [one, Int.one_mul]
  · simp only [Bool.or_eq_true, Bool.not_eq_true', not_or, Bool.not_eq_false] at needed
    exact .inl ⟨needed.1, needed.2, (Option.some.inj step).symm⟩

theorem updateDate_moved {td : TimerDef} (ranges : td.InRange)
    (month : 1 ≤ d.month ∧ d.month ≤ 12) (day : 1 ≤ d.day) (step : updateDate td done d = some d') :
    DateMoved td done d d' := by
  have dayMoved := updateDay_moved ranges done month day
  have monthMoved := updateField_updated (updateDay td done d).done ranges.month (by decide)
    month.1 month.2
  simp only [updateDate, updateMonth] at step
  rw [daysToMonth_eq month.1 month.2,
    daysToMonth_eq monthMoved.bounds.1 monthMoved.bounds.2] at step
  obtain ⟨low, high⟩ := And.intro dayMoved.low dayMoved.high
  have off := dayMoved.off
  rcases updateYear_cases step with ⟨found, inside, rfl⟩ | ⟨-, next, rfl⟩
  · refine ⟨⟨low, high⟩, monthMoved.bounds, .inl ⟨rfl, inside⟩, ?_, fun _ => ?_⟩
    · simp only [Int.sub_self, Int.zero_mul]
      omega
    · rcases monthMoved.later found with later | ⟨found, same⟩
      · exact .inl later
      · exact .inr ⟨same, dayMoved.later found⟩
  · refine ⟨⟨low, high⟩, monthMoved.bounds, .inr ⟨rfl, next⟩, ?_, fun same => ?_⟩
    · have one : d.year + 1 - d.year = 1 := by omega
      simp only [one, Int.one_mul]
      omega
    · simp only at same
      omega

theorem DateMoved.offDays_same {td : TimerDef} (moved : DateMoved td done d d')
    (same : d'.year = d.year) :
    d'.offDays = d.offDays + (d'.day - d.day) +
      (daysBeforeMonth (leapDay (u16 d.year)) d'.month -
        daysBeforeMonth (leapDay (u16 d.year)) d.month) := by
  have offDays := moved.offDays
  rw [same, Int.sub_self, Int.zero_mul] at offDays
  omega

theorem DateMoved.offDays_succ {td : TimerDef} (moved : DateMoved td done d d')
    (succ : d'.year = d.year + 1) :
    d'.offDays = d.offDays + (d'.day - d.day) +
      (daysBeforeMonth (leapDay (u16 d.year)) d'.month -
        daysBeforeMonth (leapDay (u16 d.year)) d.month) +
      (365 + leapDay (u16 d.year)) := by
  have offDays := moved.offDays
  rw [succ, show d.year + 1 - d.year = 1 by omega, Int.one_mul] at offDays
  exact offDays

end Crinit
