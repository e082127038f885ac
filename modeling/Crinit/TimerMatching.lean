import Crinit.TimerDocumented

/-! Which instants a definition matches, and the offset of the zone that a timer string names. -/
namespace Crinit

open List

/-- The minutes that the exchanged arguments decide: those behind the later end of a range
with two ends, and of a range that wraps around that end as well. -/
def MinuteMisread (r : Int × Int) (x : Int) : Prop :=
  (r.1 < r.2 ∧ r.2 < x) ∨ (r.2 < r.1 ∧ r.1 ≤ x)

instance (r : Int × Int) (x : Int) : Decidable (MinuteMisread r x) := by
  unfold MinuteMisread
  infer_instance

structure TimerDef.OthersMatch (td : TimerDef) (sec : Int) : Prop where
  seconds : InCyclic td.seconds (zonedTime sec td.timezone).sec
  hours : InCyclic td.hours (zonedTime sec td.timezone).hour
  days : InCyclic td.days (zonedTime sec td.timezone).mday
  month : InCyclic td.month (zonedTime sec td.timezone).mon
  wDay : weekdayBit (zonedTime sec td.timezone).wday &&& td.wDay ≠ 0#8

/-- Where nothing else decides, the minute and the year do. A misread minute does no harm only when
the year is out of range. -/
def TimerDef.ReadRight (td : TimerDef) (sec : Int) : Prop :=
  td.OthersMatch sec →
    let t := zonedTime sec td.timezone
    if MinuteMisread td.minutes t.min then
      if td.minutes.1 < td.minutes.2 then ¬ InCyclic td.years (u16 t.year)
      else ¬ InCyclic td.years t.year
    else
      InCyclic td.minutes t.min → (InCyclic td.years (u16 t.year) ↔ InCyclic td.years t.year)

theorem minute_right {r : Int × Int} {x : Int} (right : ¬ MinuteMisread r x) :
    timerMatchesMinute r x = true ↔ InCyclic r x := by
  simp only [MinuteMisread, not_or, not_and, Int.not_lt, Int.not_le] at right
  simp only [timerMatchesMinute, ccRange, coRange, ocRange, InCyclic, Bool.or_eq_true,
    Bool.and_eq_true, decide_eq_true_eq]
  split_ifs <;> omega

theorem minute_misread {r : Int × Int} {x : Int} (misread : MinuteMisread r x) :
    (timerMatchesMinute r x = true ↔ r.1 < r.2) ∧ (InCyclic r x ↔ ¬ r.1 < r.2) := by
  simp only [MinuteMisread] at misread
  simp only [timerMatchesMinute, ccRange, coRange, ocRange, InCyclic, Bool.or_eq_true,
    Bool.and_eq_true, decide_eq_true_eq]
  constructor
  · omega
  · split_ifs <;> omega

theorem check_iff (td : TimerDef) (sec : Int) : checkTimerTime sec td = true ↔
    td.OthersMatch sec ∧ timerMatchesMinute td.minutes (zonedTime sec td.timezone).min = true ∧
      InCyclic td.years (u16 (zonedTime sec td.timezone).year) := by
  have month : u8 (zonedTime sec td.timezone).mon = (zonedTime sec td.timezone).mon :=
    dateOf_month _
  simp only [checkTimerTime, Bool.and_eq_true, timerMatches_iff, bne_iff_ne, month]
  constructor
  · rintro ⟨⟨⟨⟨⟨⟨seconds, minute⟩, hours⟩, days⟩, mon⟩, years⟩, wDay⟩
    exact ⟨⟨seconds, hours, days, mon, wDay⟩, minute, years⟩
  · rintro ⟨others, minute, years⟩
    exact ⟨⟨⟨⟨⟨⟨others.seconds, minute⟩, others.hours⟩, others.days⟩, others.month⟩, years⟩,
      others.wDay⟩

theorem matches_iff (td : TimerDef) (sec : Int) : td.Matches sec ↔
    td.OthersMatch sec ∧ InCyclic td.minutes (zonedTime sec td.timezone).min ∧
      InCyclic td.years (zonedTime sec td.timezone).year := by
  constructor
  · intro h
    exact ⟨⟨h.seconds, h.hours, h.days, h.month, h.wDay⟩, h.minutes, h.years⟩
  · rintro ⟨others, minutes, years⟩
    exact ⟨others.seconds, minutes, others.hours, others.days, others.month, years, others.wDay⟩

/-- The check is membership exactly for the instants whose minute and year are read right. -/
theorem checkTimerTime_exact_iff (td : TimerDef) (sec : Int) :
    (checkTimerTime sec td = true ↔ td.Matches sec) ↔ td.ReadRight sec := by
  rw [check_iff, matches_iff]
  unfold TimerDef.ReadRight
  by_cases others : td.OthersMatch sec
  · simp only [others, true_and, true_imp_iff]
    split_ifs with misread late
    · obtain ⟨passes, inside⟩ := minute_misread misread
      simp [passes, inside, late]
    · obtain ⟨passes, inside⟩ := minute_misread misread
      simp [passes, inside, late]
    · rw [minute_right misread]
      exact and_congr_right_iff
  · simp [others]

def lateMinutes : TimerDef := { hours := (12, 12), minutes := (10, 20) }

theorem behind_range_matches : lateMinutes.InRange ∧
    ¬ (checkTimerTime 45000 lateMinutes = true ↔ lateMinutes.Matches 45000) := by
  decide

def MinuteTail.zone? : MinuteTail → Option ZoneText
  | .zone z => z
  | .second ⟨_, .zone z⟩ => some z
  | .second ⟨_, .unread _⟩ => none

def DateTime.zone? : DateTime → Option ZoneText
  | .date d => d.time.bind fun t => t.tail.zone?
  | .time t => t.tail.zone?

def TimerText.zone? : TimerText → Option ZoneText
  | .shorthand _ _ => none
  | .plain a => a.zone?
  | .anyDay a => a.bind DateTime.zone?
  | .day _ _ a => a.bind DateTime.zone?
  | .glued _ _ a => a.zone?
  | .days _ _ _ _ a => a.bind DateTime.zone?

structure ReadsZone (text : List Char) (acts : List TimerAction) (z : ZoneText) : Prop where
  wf : z.Wf
  suffix : z.render <:+ text
  last : zoneActions (some z) <:+ acts

section Zones

variable {z : ZoneText} {text : List Char} {acts : List TimerAction}

theorem ReadsZone.append (reads : ReadsZone text acts z) (text' : List Char)
    (acts' : List TimerAction) : ReadsZone (text' ++ text) (acts' ++ acts) z :=
  ⟨reads.wf, reads.suffix.trans (suffix_append _ _), reads.last.trans (suffix_append _ _)⟩

theorem minuteTail_zone {t : MinuteTail} (wf : t.Wf) (zone : t.zone? = some z) :
    ReadsZone t.render t.actions z := by
  cases t with
  | zone z' =>
    cases zone
    exact ⟨wf z rfl, suffix_refl _, suffix_refl _⟩
  | second t =>
    obtain ⟨f, tail⟩ := t
    cases tail with
    | zone z' =>
      cases zone
      have read : ReadsZone z.render (zoneActions (some z)) z :=
        ⟨wf.zone z rfl, suffix_refl _, suffix_refl _⟩
      exact read.append (':' :: f.render) [.seconds f.texts.1 f.texts.2]
    | unread rest => cases zone

theorem time_zone {t : TimeText} (wf : t.Wf) (zone : t.tail.zone? = some z) :
    ReadsZone t.render t.actions z := by
  have read := (minuteTail_zone wf.tail zone).append (t.hour.render ++ ':' :: t.minute.render)
    [.hours t.hour.texts.1 t.hour.texts.2, .minutes t.minute.texts.1 t.minute.texts.2]
  rwa [append_assoc, cons_append] at read

theorem dateTime_zone {a : DateTime} (wf : a.Wf 4) (zone : a.zone? = some z) :
    ReadsZone a.render a.actions z := by
  cases a with
  | time t => exact time_zone wf zone
  | date d =>
    obtain ⟨t, there, read⟩ := Option.bind_eq_some_iff.1 zone
    have read := (time_zone (wf.time t there) read).append
      (d.year.render ++ '-' :: (d.month.render ++ '-' :: (d.day.render ++ ['-'])))
      [.years d.year.texts.1 d.year.texts.2, .month d.month.texts.1 d.month.texts.2,
        .days d.day.texts.1 d.day.texts.2]
    simpa [DateTime.render, DateText.render, DateTime.actions, DateText.actions, there, renderTime,
      timeActions] using read

theorem day_zone {a : Option DateTime} (wf : ∀ a' ∈ a, a'.Wf 4)
    (zone : a.bind DateTime.zone? = some z) : ReadsZone (renderDay a) (dayActions a) z := by
  obtain ⟨a', rfl, read⟩ := Option.bind_eq_some_iff.1 zone
  exact (dateTime_zone (wf a' rfl) read).append ['-'] []

theorem timer_zone {t : TimerText} (wf : t.Wf 4) (zone : t.zone? = some z) :
    ReadsZone t.render t.actions z := by
  cases t with
  | shorthand name word => cases zone
  | plain a => exact dateTime_zone wf zone
  | anyDay a => exact (day_zone wf zone).append ['*'] []
  | day w word a => exact (day_zone wf.2 zone).append word [_]
  | glued w word a => exact (dateTime_zone wf.2 zone).append word []
  | days w word w' word' a =>
    have read := (day_zone wf.2.2 zone).append (word ++ '.' :: '.' :: word')
      [.weekdays w.bit w'.bit]
    rwa [append_assoc] at read

theorem runs_append {td td' : TimerDef} {first second : List TimerAction}
    (runs : Runs td (first ++ second) td') : ∃ between, Runs between second td' := by
  induction first generalizing td with
  | nil => exact ⟨td, runs⟩
  | cons a first ih => exact ih (runs_cons.1 runs).2

theorem zone_set {td td' : TimerDef} (wf : z.Wf) (runs : Runs td (zoneActions (some z)) td') :
    td'.timezone = z.stored := by
  obtain ⟨_, set⟩ := (runs_zone fun _ same => Option.mem_some_iff.1 same ▸ wf).1 runs
  rw [set]
  rfl

end Zones

/-- The zone at the end of an accepted string is applied as written exactly if it is added
or has no minutes. -/
theorem zone_applied_iff {s : List Char} {td : TimerDef} (accepted : timerParse s = (true, td))
    {t : TimerText} (wf : t.Wf 4) (reads : t.render = s) {z : ZoneText} (zone : t.zone? = some z) :
    z.render <:+ s ∧
      (zoneOffset td.timezone = z.seconds ↔ z.sign = '+' ∨ decimal z.minutes = 0) := by
  obtain ⟨acts, rest, scanned, runs⟩ := timerParse_accepted accepted
  have read := timer_zone wf zone
  rw [← reads, yycTimer_render wf] at scanned
  cases scanned
  obtain ⟨front, whole⟩ := read.last
  rw [← whole] at runs
  obtain ⟨between, last⟩ := runs_append runs
  rw [zone_set read.wf last]
  exact ⟨reads ▸ read.suffix, stored_seconds_iff read.wf.sign⟩

def westOrEast (sign : Char) : ZoneText := ⟨sign, "03".toList, true, "30".toList⟩

theorem westOrEast_wf {sign : Char} (isSign : isSign sign = true) : (westOrEast sign).Wf where
  sign := isSign
  hours := show Digits "03".toList ∧ 1 ≤ 2 ∧ 2 ≤ 2 by decide
  minutes := show Digits "30".toList ∧ (2 = 0 ∨ 2 = 2) by decide

def halfPastTwelveIn (z : ZoneText) : TimerText := .plain (.time (halfPastTwelve (.zone (some z))))

theorem halfPastTwelveIn_wf {z : ZoneText} (wf : z.Wf) : (halfPastTwelveIn z).Wf 4 :=
  halfPastTwelve_wf fun _ same => Option.mem_some_iff.1 same ▸ wf

def atHalfPastTwelve (timezone : Int × Int) : TimerDef :=
  { hours := (12, 12), minutes := (30, 30), timezone := timezone }

theorem east_applied : (westOrEast '+').render <:+ "12:30+03:30".toList ∧
    (zoneOffset (atHalfPastTwelve (3, 30)).timezone = (westOrEast '+').seconds ↔
      (westOrEast '+').sign = '+' ∨ decimal (westOrEast '+').minutes = 0) :=
  zone_applied_iff (s := "12:30+03:30".toList) (by decide +kernel)
    (halfPastTwelveIn_wf (westOrEast_wf rfl)) (by decide) rfl

/-- Three and a half hours west of Greenwich become two and a half. -/
theorem west_misapplied :
    timerParse "12:30-03:30".toList = (true, atHalfPastTwelve (-3, 30)) ∧
    (halfPastTwelveIn (westOrEast '-')).Wf 4 ∧
    (halfPastTwelveIn (westOrEast '-')).render = "12:30-03:30".toList ∧
    (halfPastTwelveIn (westOrEast '-')).zone? = some (westOrEast '-') ∧
    zoneOffset (atHalfPastTwelve (-3, 30)).timezone = -9000 ∧
    (westOrEast '-').seconds = -12600 :=
  ⟨by decide +kernel, halfPastTwelveIn_wf (westOrEast_wf rfl), by decide, rfl, by decide, by decide⟩

end Crinit
