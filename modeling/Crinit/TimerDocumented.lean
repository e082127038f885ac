import Crinit.TimerReading

/-! What the documentation says about timer strings: the grammar with its shorthands, the ranges of
the fields, and the set of times that a string stands for. -/
namespace Crinit

open List Scanner

def decimal (x : List Char) : Nat := x.foldl (fun n c => n * 10 + (c.toNat - '0'.toNat)) 0

inductive DocDays where
  | any
  | day (w : Weekday) (word : List Char)
  | days (first : Weekday) (word : List Char) (last : Weekday) (word' : List Char)
  deriving DecidableEq, Repr

structure DocDate where
  year : FieldText
  month : FieldText
  day : FieldText
  deriving DecidableEq, Repr

structure DocTime where
  hour : FieldText
  minute : FieldText
  second : Option FieldText
  zone : Option ZoneText
  deriving DecidableEq, Repr

inductive DocTimer where
  | shorthand (name : Shorthand) (word : List Char)
  | timer (weekday : Option DocDays) (date : Option DocDate) (time : Option DocTime)
  deriving DecidableEq, Repr

def DocDays.render : DocDays → List Char
  | .any => ['*']
  | .day _ word => word
  | .days _ word _ word' => word ++ '.' :: '.' :: word'

def DocDate.render (d : DocDate) : List Char :=
  d.year.render ++ '-' :: (d.month.render ++ '-' :: d.day.render)

def renderSecond : Option FieldText → List Char
  | none => []
  | some f => ':' :: f.render

def DocTime.render (t : DocTime) : List Char :=
  t.hour.render ++ ':' :: (t.minute.render ++ (renderSecond t.second ++ renderZone t.zone))

def DocTimer.render : DocTimer → List Char
  | .shorthand _ word => word
  | .timer weekday date time =>
    ['-'].intercalate ((weekday.map DocDays.render).toList ++ (date.map DocDate.render).toList ++
      (time.map DocTime.render).toList)

def DocDays.Wf : DocDays → Prop
  | .any => True
  | .day w word => w.Named word
  | .days w word w' word' => w.Named word ∧ w'.Named word'

structure DocDate.Wf (d : DocDate) : Prop where
  year : d.year.Wf 5 5
  month : d.month.Wf 2 2
  day : d.day.Wf 2 2

structure DocTime.Wf (t : DocTime) : Prop where
  hour : t.hour.Wf 2 2
  minute : t.minute.Wf 2 2
  second : ∀ f ∈ t.second, f.Wf 2 2
  zone : ∀ z ∈ t.zone, z.Wf ∧ (z.colon = true → z.minutes ≠ [])

def DocTimer.Wf : DocTimer → Prop
  | .shorthand name word => word.map Char.toLower = name.name
  | .timer weekday date time => (∀ d ∈ weekday, d.Wf) ∧ (∀ d ∈ date, d.Wf) ∧ (∀ t ∈ time, t.Wf) ∧
      (weekday.isSome ∨ date.isSome ∨ time.isSome)

/-! ### The ranges of the numbers -/

def InBounds (low high : Nat) (x : List Char) : Prop := x = [] ∨ low ≤ decimal x ∧ decimal x ≤ high

def FieldText.InRange (low high : Nat) (f : FieldText) : Prop :=
  InBounds low high f.texts.1 ∧ InBounds low high f.texts.2

structure DocDate.InRange (d : DocDate) : Prop where
  year : d.year.InRange 0 65535
  month : d.month.InRange 1 12
  day : d.day.InRange 1 31

def ZoneText.InRange (z : ZoneText) : Prop :=
  decimal z.hours ≤ (if z.sign = '-' then 13 else 15) ∧ decimal z.minutes ≤ 59

structure DocTime.InRange (t : DocTime) : Prop where
  hour : t.hour.InRange 0 23
  minute : t.minute.InRange 0 59
  second : ∀ f ∈ t.second, f.InRange 0 59
  zone : ∀ z ∈ t.zone, z.InRange

def DocTimer.InRange : DocTimer → Prop
  | .shorthand _ _ => True
  | .timer _ date time => (∀ d ∈ date, d.InRange) ∧ ∀ t ∈ time, t.InRange

structure Meaning where
  weekdays : Weekday → Bool := fun _ => true
  years : Nat × Nat := (0, 65535)
  month : Nat × Nat := (1, 12)
  days : Nat × Nat := (1, 31)
  hours : Nat × Nat := (0, 0)
  minutes : Nat × Nat := (0, 0)
  seconds : Nat × Nat := (0, 0)
  timezone : Int := 0

def FieldText.ends (low high : Nat) : FieldText → Nat × Nat
  | .star => (low, high)
  | .single n => (decimal n, decimal n)
  | .range start stop =>
    (if start = [] then low else decimal start, if stop = [] then high else decimal stop)

def cyclicDays (first last w : Weekday) : Bool :=
  (w.index + 7 - first.index) % 7 ≤ (last.index + 7 - first.index) % 7

def DocDays.set : DocDays → Weekday → Bool
  | .any => fun _ => true
  | .day w _ => fun w' => w' == w
  | .days first _ last _ => cyclicDays first last

/-- The seconds to the east of Greenwich. -/
def ZoneText.seconds (z : ZoneText) : Int :=
  (if z.sign = '-' then -1 else 1) * ((decimal z.hours : Int) * 3600 + decimal z.minutes * 60)

def Shorthand.meaning : Shorthand → Meaning
  | .minutely => { hours := (0, 23), minutes := (0, 59) }
  | .hourly => { hours := (0, 23) }
  | .daily | .midnight => {}
  | .monthly => { days := (1, 1) }
  | .weekly => { weekdays := fun w => w == .mon }
  | .yearly | .annually => { month := (1, 1), days := (1, 1) }

def DocTime.meaning (t : DocTime) (m : Meaning) : Meaning :=
  { m with
    hours := t.hour.ends 0 23
    minutes := t.minute.ends 0 59
    seconds := (t.second.map (FieldText.ends 0 59)).getD m.seconds
    timezone := (t.zone.map ZoneText.seconds).getD m.timezone }

def DocDate.meaning (d : DocDate) (m : Meaning) : Meaning :=
  { m with years := d.year.ends 0 65535, month := d.month.ends 1 12, days := d.day.ends 1 31 }

def DocTimer.meaning : DocTimer → Meaning
  | .shorthand name _ => name.meaning
  | .timer weekday date time =>
    let m : Meaning := { weekdays := (weekday.map DocDays.set).getD fun _ => true }
    let m := (date.map fun d => d.meaning m).getD m
    (time.map fun t => t.meaning m).getD m

def ints (r : Nat × Nat) : Int × Int := (r.1, r.2)

def SameSet (low high : Nat) (r : Int × Int) (r' : Nat × Nat) : Prop :=
  ∀ v : Nat, low ≤ v → v ≤ high → (InCyclic r v ↔ InCyclic (ints r') v)

structure Denotes (td : TimerDef) (m : Meaning) : Prop where
  weekdays : ∀ w : Weekday, td.wDay.getLsbD w.index = m.weekdays w
  years : SameSet 0 65535 td.years m.years
  month : SameSet 1 12 td.month m.month
  days : SameSet 1 31 td.days m.days
  hours : SameSet 0 23 td.hours m.hours
  minutes : SameSet 0 59 td.minutes m.minutes
  seconds : SameSet 0 59 td.seconds m.seconds
  timezone : zoneOffset td.timezone = m.timezone

def Documented (s : List Char) (td : TimerDef) : Prop :=
  ∃ d : DocTimer, d.Wf ∧ s = d.render ∧ d.InRange ∧ Denotes td d.meaning

section Numbers

variable {x : List Char} {low high : Nat} {f : FieldText}

theorem digit_bounds {c : Char} (digit : c.isDigit = true) : 48 ≤ c.toNat ∧ c.toNat ≤ 57 := by
  simpa [Char.isDigit, UInt32.le_iff_toNat_le] using digit

theorem parse_loop (digits : Digits x) (n : Nat) :
    x.foldl (fun res c => u16 (res * 10 + ((c.toNat : Int) - '0'.toNat))) (n % 65536 : Int) =
      (x.foldl (fun n c => n * 10 + (c.toNat - '0'.toNat)) n : Nat) % 65536 := by
  induction x generalizing n with
  | nil => rfl
  | cons c x ih =>
    have bounds := digit_bounds (digits c mem_cons_self)
    have zero : '0'.toNat = 48 := rfl
    have step : u16 ((n % 65536 : Int) * 10 + ((c.toNat : Int) - '0'.toNat)) =
        ((n * 10 + (c.toNat - '0'.toNat) : Nat) : Int) % 65536 := by
      rw [zero, u16]
      omega
    rw [foldl_cons, step, ih fun c mem => digits c (mem_cons_of_mem _ mem)]
    rfl

theorem parse_decimal (digits : Digits x) (some : x ≠ []) :
    timerParseUint16 x = (decimal x : Int) % 65536 := by
  rw [timerParseUint16, if_neg some]
  exact parse_loop digits 0

theorem decimal_loop (digits : Digits x) (n : Nat) :
    x.foldl (fun n c => n * 10 + (c.toNat - '0'.toNat)) n < (n + 1) * 10 ^ x.length := by
  induction x generalizing n with
  | nil => simp
  | cons c x ih =>
    have bounds := digit_bounds (digits c mem_cons_self)
    have zero : '0'.toNat = 48 := rfl
    have tail := ih (fun c mem => digits c (mem_cons_of_mem _ mem))
      (n * 10 + (c.toNat - '0'.toNat))
    have more : (n * 10 + (c.toNat - '0'.toNat) + 1) * 10 ^ x.length ≤ (n + 1) * 10 *
      10 ^ x.length :=
      Nat.mul_le_mul_right _ (by omega)
    rw [foldl_cons, length_cons, Nat.pow_succ]
    calc _ < _ := tail
      _ ≤ (n + 1) * 10 * 10 ^ x.length := more
      _ = (n + 1) * (10 ^ x.length * 10) := by rw [Nat.mul_assoc, Nat.mul_comm 10]

theorem decimal_lt (digits : Digits x) {k : Nat} (few : x.length ≤ k) : decimal x < 10 ^ k := by
  have bound := decimal_loop digits 0
  rw [Nat.zero_add, Nat.one_mul] at bound
  exact bound.trans_le (Nat.pow_le_pow_right (by decide) few)

theorem set_end (digits : Digits x) (few : x.length ≤ 2) (bound : Nat) :
    (if u8 (timerParseUint16 x) = 0xff then (bound : Int) else u8 (timerParseUint16 x)) =
      ((if x = [] then bound else decimal x : Nat) : Int) := by
  by_cases none : x = []
  · rw [none]
    rfl
  · have small := decimal_lt digits few
    have value : u8 (timerParseUint16 x) = (decimal x : Int) := by
      rw [parse_decimal digits none, u8]
      omega
    rw [value, if_neg none, if_neg (by omega)]

theorem texts_digits {single range : Nat} (wf : f.Wf single range) :
    Digits f.texts.1 ∧ Digits f.texts.2 := by
  cases f with
  | star => exact ⟨forall_mem_nil _, forall_mem_nil _⟩
  | single n => exact ⟨wf.1, wf.1⟩
  | range a b => exact ⟨wf.1.1, wf.2.1⟩

theorem texts_length {k : Nat} (wf : f.Wf k k) : f.texts.1.length ≤ k ∧ f.texts.2.length ≤ k := by
  cases f with
  | star => exact ⟨Nat.zero_le _, Nat.zero_le _⟩
  | single n => exact ⟨wf.2.2, wf.2.2⟩
  | range a b => exact ⟨wf.1.2, wf.2.2⟩

theorem ends_texts {single range : Nat} (wf : f.Wf single range) : f.ends low high =
    (if f.texts.1 = [] then low else decimal f.texts.1, if f.texts.2 = [] then high
    else decimal f.texts.2) := by
  cases f with
  | star => rfl
  | single n =>
    have some : n ≠ [] := ne_nil_of_length_pos wf.2.1
    simp [FieldText.ends, FieldText.texts, some]
  | range a b => rfl

theorem setField_ends (wf : f.Wf 2 2) :
    timerSetField low high f.texts.1 f.texts.2 = ints (f.ends low high) := by
  have digits := texts_digits wf
  have few := texts_length wf
  rw [timerSetField, set_end digits.1 few.1, set_end digits.2 few.2, ends_texts wf]
  rfl

theorem ccRange_end {bound : Nat} (inside : low ≤ bound ∧ bound ≤ high) :
    ccRange low (if x = [] then bound else decimal x : Nat) high = true ↔ InBounds low high x := by
  unfold ccRange InBounds
  split_ifs with none
  · simp [none, inside.1, inside.2]
  · simp [none]

theorem inField_iff (wf : f.Wf 2 2) (order : low ≤ high) :
    inField low high (ints (f.ends low high)) = true ↔ f.InRange low high := by
  rw [ends_texts wf, inField, Bool.and_eq_true]
  exact and_congr (ccRange_end ⟨Nat.le_refl _, order⟩) (ccRange_end ⟨order, Nat.le_refl _⟩)

end Numbers

variable {z : ZoneText}

/-- The hours and the minutes as they are stored: the sign goes with the hours alone. -/
def ZoneText.stored (z : ZoneText) : Int × Int :=
  (if z.sign = '-' then -(decimal z.hours : Int) else decimal z.hours, decimal z.minutes)

theorem stored_seconds_iff (sign : isSign z.sign = true) :
    zoneOffset z.stored = z.seconds ↔ z.sign = '+' ∨ decimal z.minutes = 0 := by
  simp only [isSign, Bool.or_eq_true, beq_iff_eq] at sign
  rcases sign with plus | minus
  · simp [zoneOffset, ZoneText.stored, ZoneText.seconds, plus]
  · simp only [zoneOffset, ZoneText.stored, ZoneText.seconds, minus, if_true]
    simp only [show ('-' : Char) ≠ '+' by decide, false_or]
    omega

theorem setTimezone_stored (wf : z.Wf) :
    timerSetTimezone (z.sign :: z.hours) z.minutes = z.stored := by
  obtain ⟨digits, low, few⟩ := wf.hours
  have some : z.hours ≠ [] := ne_nil_of_length_pos low
  have small := decimal_lt digits few
  have hours : s8 (timerParseUint16 z.hours) = (decimal z.hours : Int) := by
    rw [parse_decimal digits some, s8]
    omega
  have minutes := set_end wf.minutes.1 (by have := wf.minutes.2; omega) 0
  have empty : (if z.minutes = [] then 0 else decimal z.minutes) = decimal z.minutes := by
    split_ifs with none
    · rw [none]
      rfl
    · rfl
  rw [empty] at minutes
  simp only [timerSetTimezone, ZoneText.stored, head?_cons, tail_cons, Option.some.injEq, hours]
  refine Prod.ext ?_ minutes
  show s8 _ = _
  split_ifs <;> (unfold s8; omega)

theorem stored_iff (z : ZoneText) :
    (ccRange (-13) z.stored.1 15 && ccRange 0 z.stored.2 59) = true ↔ z.InRange := by
  unfold ZoneText.stored ZoneText.InRange
  split_ifs <;> simp only [ccRange, Bool.and_eq_true, decide_eq_true_eq] <;> omega

/-- Behind 65535 the years are counted from zero again, and 65535 as the start stands for a start
that is left out. -/
def FarYears (start stop : List Char) : Prop := 65535 ≤ decimal start ∨ 65535 < decimal stop

def FieldText.YearsSet (f : FieldText) : Prop :=
  SameSet 0 65535 (timerSetYears f.texts.1 f.texts.2) (f.ends 0 65535)

theorem parse_stop {x : List Char} (digits : Digits x) (near : decimal x ≤ 65535) :
    timerParseUint16 x = ((if x = [] then 65535 else decimal x : Nat) : Int) := by
  by_cases none : x = []
  · rw [none]
    rfl
  · rw [parse_decimal digits none, if_neg none]
    omega

theorem setYears_ends {f : FieldText} (wf : f.Wf 4 5) (near : ¬ FarYears f.texts.1 f.texts.2) :
    timerSetYears f.texts.1 f.texts.2 = ints (f.ends 0 65535) := by
  have digits := texts_digits wf
  simp only [FarYears, not_or, Nat.not_le, Nat.not_lt] at near
  have start : (if timerParseUint16 f.texts.1 = 0xffff then 0 else timerParseUint16 f.texts.1) =
      ((if f.texts.1 = [] then 0 else decimal f.texts.1 : Nat) : Int) := by
    by_cases none : f.texts.1 = []
    · rw [none]
      rfl
    · rw [parse_decimal digits.1 none, if_neg none]
      split_ifs <;> omega
  rw [timerSetYears, start, parse_stop digits.2 near.2, ends_texts wf]
  rfl

theorem years_inRange {f : FieldText} (near : ¬ FarYears f.texts.1 f.texts.2) :
    f.InRange 0 65535 := by
  simp only [FarYears, not_or, Nat.not_le, Nat.not_lt] at near
  exact ⟨.inr ⟨Nat.zero_le _, by omega⟩, .inr ⟨Nat.zero_le _, near.2⟩⟩

theorem decimal_le {x : List Char} {low high : Nat} (inside : InBounds low high x) :
    decimal x ≤ high := by
  rcases inside with rfl | inside
  · exact Nat.zero_le _
  · exact inside.2

/-- A start of 65535 is set as 0, which makes a difference for one of the ends of the years. -/
theorem far_years {f : FieldText} (wf : f.Wf 4 5) (inRange : f.InRange 0 65535)
    (same : f.YearsSet) : ¬ FarYears f.texts.1 f.texts.2 := by
  have first := decimal_le inRange.1
  have second := decimal_le inRange.2
  rintro (far | far)
  · have start : decimal f.texts.1 = 65535 := by omega
    have some : f.texts.1 ≠ [] := by
      intro none
      rw [none] at start
      cases start
    have digits := texts_digits wf
    rw [FieldText.YearsSet, ends_texts wf, if_neg some, start] at same
    have set : timerSetYears f.texts.1 f.texts.2 = (0, timerParseUint16 f.texts.2) := by
      rw [timerSetYears, parse_decimal digits.1 some, start]
      rfl
    rw [set, parse_stop digits.2 second] at same
    generalize last : (if f.texts.2 = [] then 65535 else decimal f.texts.2) = n at same
    have bound : n ≤ 65535 := by
      rw [← last]
      split_ifs <;> omega
    rcases Nat.lt_or_ge n 65535 with less | full
    · have inside : InCyclic (ints (65535, n)) (65535 : Nat) := by
        dsimp only [InCyclic, ints]
        split_ifs <;> omega
      have outside := (same 65535 (Nat.zero_le _) (Nat.le_refl _)).2 inside
      dsimp only [InCyclic] at outside
      split_ifs at outside <;> omega
    · have inside : InCyclic (0, (n : Int)) (0 : Nat) := by
        dsimp only [InCyclic]
        split_ifs <;> omega
      have outside := (same 0 (Nat.le_refl _) (Nat.zero_le _)).1 inside
      dsimp only [InCyclic, ints] at outside
      split_ifs at outside <;> omega
  · omega

/-- From a day to the day before it only the first one is left out of the week. -/
theorem setWeekdays_days (first last : Weekday) :
    (∀ w : Weekday, (timerSetWeekdays first.bit last.bit).getLsbD w.index =
      cyclicDays first last w) ↔
      first.bit ≠ last.bit <<< 1 := by
  have table : ∀ first ∈ Weekday.all, ∀ last ∈ Weekday.all,
      ((∀ w ∈ Weekday.all, (timerSetWeekdays first.bit last.bit).getLsbD w.index =
        cyclicDays first last w) ↔
        first.bit ≠ last.bit <<< 1) := by
    decide
  exact (forall_congr' fun w => (imp_iff_right (mem_all w)).symm).trans
    (table first (mem_all _) last (mem_all _))

theorem setWeekdays_day (first w : Weekday) (a : Option DateTime) :
    (timerSetWeekdays first.bit (dayStop first.bit a)).getLsbD w.index = (w == first) := by
  have same : timerSetWeekdays first.bit (dayStop first.bit a) = first.bit := by
    cases a with
    | none => exact if_pos rfl
    | some _ => cases first <;> rfl
  rw [same]
  cases first <;> cases w <;> rfl

def Runs (td : TimerDef) (acts : List TimerAction) (td' : TimerDef) : Prop :=
  runActions td acts = (td', true)

theorem runs_nil {td td' : TimerDef} : Runs td [] td' ↔ td' = td := by
  simp only [Runs, runActions, Prod.mk.injEq, and_true]
  exact eq_comm

theorem runs_cons {td td' : TimerDef} {a : TimerAction} {acts : List TimerAction} :
    Runs td (a :: acts) td' ↔ (a.run td).2 = true ∧ Runs (a.run td).1 acts td' := by
  unfold Runs
  rw [runActions]
  split_ifs with ran
  · simp [ran]
  · constructor
    · intro same
      rw [same] at ran
      exact (ran rfl).elim
    · rintro ⟨ran', -⟩
      exact (ran ran').elim

def TimerDef.setTime (td : TimerDef) : Option DocTime → TimerDef
  | none => td
  | some t =>
    { td with
      hours := ints (t.hour.ends 0 23)
      minutes := ints (t.minute.ends 0 59)
      seconds := (t.second.map fun f => ints (f.ends 0 59)).getD td.seconds
      timezone := (t.zone.map ZoneText.stored).getD td.timezone }

def TimerDef.setDate (td : TimerDef) : Option DocDate → TimerDef
  | none => td
  | some d =>
    { td with
      years := timerSetYears d.year.texts.1 d.year.texts.2
      month := ints (d.month.ends 1 12)
      days := ints (d.day.ends 1 31) }

def DocTime.toText (t : DocTime) : TimeText :=
  ⟨t.hour, t.minute,
    match t.second, t.zone with
    | none, z => .zone z
    | some f, none => .second ⟨f, .unread []⟩
    | some f, some z => .second ⟨f, .zone z⟩⟩

section Setters

variable {td td' : TimerDef} {f : FieldText} {acts : List TimerAction}

theorem runs_field (low high : Nat) (set : Int × Int → TimerDef) (order : low ≤ high)
    (wf : f.Wf 2 2) {a : TimerAction}
    (run : a.run td = (set (timerSetField low high f.texts.1 f.texts.2),
      inField low high (timerSetField low high f.texts.1 f.texts.2))) :
    Runs td (a :: acts) td' ↔ f.InRange low high ∧
      Runs (set (ints (f.ends low high))) acts td' := by
  rw [runs_cons, run, setField_ends wf]
  exact and_congr_left fun _ => inField_iff wf order

theorem runs_hours (wf : f.Wf 2 2) : Runs td (.hours f.texts.1 f.texts.2 :: acts) td' ↔
    f.InRange 0 23 ∧ Runs { td with hours := ints (f.ends 0 23) } acts td' :=
  runs_field 0 23 (fun r => { td with hours := r }) (by decide) wf rfl

theorem runs_minutes (wf : f.Wf 2 2) : Runs td (.minutes f.texts.1 f.texts.2 :: acts) td' ↔
    f.InRange 0 59 ∧ Runs { td with minutes := ints (f.ends 0 59) } acts td' :=
  runs_field 0 59 (fun r => { td with minutes := r }) (by decide) wf rfl

theorem runs_seconds (wf : f.Wf 2 2) : Runs td (.seconds f.texts.1 f.texts.2 :: acts) td' ↔
    f.InRange 0 59 ∧ Runs { td with seconds := ints (f.ends 0 59) } acts td' :=
  runs_field 0 59 (fun r => { td with seconds := r }) (by decide) wf rfl

theorem runs_month (wf : f.Wf 2 2) : Runs td (.month f.texts.1 f.texts.2 :: acts) td' ↔
    f.InRange 1 12 ∧ Runs { td with month := ints (f.ends 1 12) } acts td' :=
  runs_field 1 12 (fun r => { td with month := r }) (by decide) wf rfl

theorem runs_days (wf : f.Wf 2 2) : Runs td (.days f.texts.1 f.texts.2 :: acts) td' ↔
    f.InRange 1 31 ∧ Runs { td with days := ints (f.ends 1 31) } acts td' :=
  runs_field 1 31 (fun r => { td with days := r }) (by decide) wf rfl

theorem runs_zone {z : Option ZoneText} (wf : ∀ z' ∈ z, z'.Wf) : Runs td (zoneActions z) td' ↔
    (∀ z' ∈ z, z'.InRange) ∧ td' =
    { td with timezone := (z.map ZoneText.stored).getD td.timezone } := by
  cases z with
  | none => simp [zoneActions, runs_nil]
  | some z =>
    rw [zoneActions, runs_cons, runs_nil, TimerAction.run, setTimezone_stored (wf z rfl)]
    exact and_congr ((stored_iff z).trans (by simp)) Iff.rfl

theorem runs_time {t : DocTime} (wf : t.Wf) :
    Runs td t.toText.actions td' ↔ t.InRange ∧ td' = td.setTime (some t) := by
  obtain ⟨hour, minute, second, zone⟩ := t
  obtain ⟨hourWf, minuteWf, secondWf, zoneWf⟩ := wf
  have zoneIff {td : TimerDef} : Runs td (zoneActions zone) td' ↔ _ :=
    runs_zone fun z mem => (zoneWf z mem).1
  cases second with
  | none =>
    have run : Runs td (DocTime.toText ⟨hour, minute, none, zone⟩).actions td' ↔ _ :=
      (runs_hours hourWf).trans (and_congr Iff.rfl
        ((runs_minutes minuteWf).trans (and_congr Iff.rfl zoneIff)))
    rw [run]
    constructor
    · rintro ⟨h, m, z, rfl⟩
      exact ⟨⟨h, m, absent, z⟩, rfl⟩
    · rintro ⟨⟨h, m, -, z⟩, rfl⟩
      exact ⟨h, m, z, rfl⟩
  | some f =>
    have acts : (DocTime.toText ⟨hour, minute, some f, zone⟩).actions =
      .hours hour.texts.1 hour.texts.2 ::
        .minutes minute.texts.1 minute.texts.2 :: .seconds f.texts.1 f.texts.2 ::
          zoneActions zone := by
      cases zone <;> rfl
    rw [acts, runs_hours hourWf, runs_minutes minuteWf, runs_seconds (secondWf f rfl), zoneIff]
    constructor
    · rintro ⟨h, m, s, z, rfl⟩
      exact ⟨⟨h, m, present s, z⟩, rfl⟩
    · rintro ⟨⟨h, m, s, z⟩, rfl⟩
      exact ⟨h, m, s f rfl, z, rfl⟩

end Setters

/-! ### The documented texts among those that the scanner reads -/

def docDateTime : Option DocDate → Option DocTime → Option DateTime
  | none, time => time.map fun t => .time t.toText
  | some d, time => some (.date ⟨d.year, d.month, d.day, time.map DocTime.toText⟩)

def DocTimer.toText : DocTimer → TimerText
  | .shorthand name word => .shorthand name word
  | .timer none date time => (docDateTime date time).elim (.anyDay none) .plain
  | .timer (some .any) date time => .anyDay (docDateTime date time)
  | .timer (some (.day w word)) date time => .day w word (docDateTime date time)
  | .timer (some (.days w word w' word')) date time => .days w word w' word' (docDateTime date time)

theorem DocTime.toText_render (t : DocTime) : t.toText.render = t.render := by
  obtain ⟨hour, minute, _ | f, _ | z⟩ := t <;>
    simp [DocTime.toText, TimeText.render, DocTime.render, MinuteTail.render, SecondText.render,
      SecondTail.render,
      renderSecond, renderZone]

theorem DocTime.toText_wf {t : DocTime} (wf : t.Wf) : t.toText.Wf := by
  obtain ⟨hour, minute, second, zone⟩ := t
  obtain ⟨hourWf, minuteWf, secondWf, zoneWf⟩ := wf
  refine ⟨hourWf, minuteWf, ?_⟩
  rcases second with _ | f
  · exact fun z mem => (zoneWf z mem).1
  · rcases zone with _ | z
    · refine ⟨secondWf f rfl, (fun _ none => by cases none), fun rest same => ?_⟩
      cases same
      refine ⟨absent, fun g after _ same => ?_⟩
      have lengths := congrArg List.length same
      simp only [length_append, length_nil] at lengths
      show g.render.length ≤ f.render.length
      omega
    · exact ⟨secondWf f rfl, (fun _ same => by cases same; exact (zoneWf z rfl).1),
        fun _ none => by cases none⟩

theorem DocTime.toText_rest (t : DocTime) : t.toText.tail.rest = [] := by
  obtain ⟨hour, minute, _ | f, _ | z⟩ := t <;> rfl

section DateTime

variable {date : Option DocDate} {time : Option DocTime}

theorem docDateTime_wf (dateWf : ∀ d ∈ date, d.Wf) (timeWf : ∀ t ∈ time, t.Wf) :
    ∀ a ∈ docDateTime date time, a.Wf 5 := by
  cases date with
  | none =>
    cases time with
    | none => exact absent
    | some t =>
      intro a same
      cases same
      exact DocTime.toText_wf (timeWf t rfl)
  | some d =>
    obtain ⟨yearWf, monthWf, dayWf⟩ := dateWf d rfl
    intro a same
    cases same
    refine ⟨yearWf, monthWf, dayWf, fun t mem => ?_⟩
    cases time with
    | none => cases mem
    | some t' =>
      cases mem
      exact DocTime.toText_wf (timeWf t' rfl)

theorem docDateTime_rest (date : Option DocDate) (time : Option DocTime) :
    dayRest (docDateTime date time) = [] := by
  rcases date with _ | d <;> rcases time with _ | t
  · rfl
  · exact t.toText_rest
  · rfl
  · exact t.toText_rest

def docParts (date : Option DocDate) (time : Option DocTime) : List (List Char) :=
  (date.map DocDate.render).toList ++ (time.map DocTime.render).toList

theorem docDateTime_render (date : Option DocDate) (time : Option DocTime) (part : List Char) :
    part ++ renderDay (docDateTime date time) = ['-'].intercalate (part :: docParts date time) := by
  rcases date with _ | d <;> rcases time with _ | t <;>
    simp [docDateTime, renderDay, docParts, DateTime.render, DateText.render, renderTime,
      DocDate.render,
      DocTime.toText_render, List.intercalate]

theorem docDateTime_plain {a : DateTime} (there : docDateTime date time = some a) :
    a.render = ['-'].intercalate (docParts date time) := by
  rcases date with _ | d <;> rcases time with _ | t <;> cases there <;>
    simp [docParts, DateTime.render, DateText.render, renderTime, DocDate.render,
      DocTime.toText_render,
      List.intercalate]

theorem docDateTime_none (none : docDateTime date time = none) : date = .none ∧ time = .none := by
  rcases date with _ | d <;> rcases time with _ | t <;> first | exact ⟨rfl, rfl⟩ | cases none

end DateTime

section Text

variable {d : DocTimer}

theorem DocTimer.toText_render (wf : d.Wf) : d.toText.render = d.render := by
  rcases d with ⟨name, word⟩ | ⟨_ | weekday, date, time⟩
  · rfl
  · obtain ⟨-, -, -, part⟩ := wf
    cases there : docDateTime date time with
    | none =>
      obtain ⟨rfl, rfl⟩ := docDateTime_none there
      simp at part
    | some a =>
      rw [DocTimer.toText, there]
      exact docDateTime_plain there
  · have parts : (DocTimer.timer (some weekday) date time).render =
        ['-'].intercalate (weekday.render :: docParts date time) := by
      simp [DocTimer.render, docParts]
    rw [parts, ← docDateTime_render]
    rcases weekday with _ | ⟨w, word⟩ | ⟨w, word, w', word'⟩
    · rfl
    · rfl
    · simp [DocTimer.toText, TimerText.render, DocDays.render]

theorem DocTimer.toText_wf (wf : d.Wf) : d.toText.Wf 5 := by
  rcases d with ⟨name, word⟩ | ⟨weekday, date, time⟩
  · exact wf
  · obtain ⟨dayWf, dateWf, timeWf, -⟩ := wf
    have inner := docDateTime_wf dateWf timeWf
    rcases weekday with _ | _ | ⟨w, word⟩ | ⟨w, word, w', word'⟩
    · cases there : docDateTime date time with
      | none =>
        rw [DocTimer.toText, there]
        exact absent
      | some a =>
        rw [DocTimer.toText, there]
        exact inner a there
    · exact inner
    · exact ⟨dayWf _ rfl, inner⟩
    · exact ⟨(dayWf _ rfl).1, (dayWf _ rfl).2, inner⟩

theorem DocTimer.toText_rest (d : DocTimer) : d.toText.rest = [] := by
  rcases d with ⟨name, word⟩ | ⟨_ | _ | ⟨w, word⟩ | ⟨w, word, w', word'⟩, date, time⟩
  · rfl
  · have rest := docDateTime_rest date time
    cases there : docDateTime date time with
    | none =>
      rw [DocTimer.toText, there]
      rfl
    | some a =>
      rw [there] at rest
      rw [DocTimer.toText, there]
      exact rest
  all_goals exact docDateTime_rest date time

end Text

/-! ### Where the scanner leaves the documentation -/

def TimerText.isGlued : TimerText → Bool
  | .glued _ _ _ => true
  | _ => false

def EndsInColon (s : List Char) : Prop := ∃ x, s = x ++ [':']

def TimerAction.Misset : TimerAction → Prop
  | .weekdays start stop => start = stop <<< 1
  | .years start stop => FarYears start stop
  | .timezone tzH tzM => tzH.head? = some '-' ∧ decimal tzM ≠ 0
  | _ => False

/-- Text behind the seconds is left unread, a weekday without a dash is not set, a time zone ends in
a colon, the weekdays go from a day to the day before it, a year is too large, or a time zone to
the west has minutes. -/
def TimerText.Misread (t : TimerText) : Prop :=
  t.rest ≠ [] ∨ t.isGlued = true ∨ EndsInColon t.render ∨ ∃ a ∈ t.actions, a.Misset

theorem wf_five {f : FieldText} (wf : f.Wf 4 5) : f.Wf 5 5 := by
  cases f with
  | star => trivial
  | single n => exact ⟨wf.1, wf.2.1, Nat.le_succ_of_le wf.2.2⟩
  | range a b => exact wf

variable {y : List Char}

theorem EndsInColon.append (colon : EndsInColon y) (x : List Char) : EndsInColon (x ++ y) := by
  obtain ⟨z, rfl⟩ := colon
  exact ⟨x ++ z, (append_assoc _ _ _).symm⟩

theorem EndsInColon.cons (colon : EndsInColon y) (c : Char) : EndsInColon (c :: y) :=
  colon.append [c]

theorem not_endsInColon (some : y ≠ []) (none : ':' ∉ y) (x : List Char) :
    ¬ EndsInColon (x ++ y) := by
  rintro ⟨z, same⟩
  have last := congrArg List.getLast? same
  rw [getLast?_append_of_ne_nil _ some, getLast?_concat] at last
  exact none (mem_of_getLast? last)

theorem zone_colon (colon : z.colon = true) (none : z.minutes = []) : EndsInColon z.render := by
  refine ⟨z.sign :: z.hours, ?_⟩
  simp [ZoneText.render, ZoneText.colonText, colon, none]

theorem exists_docTime {t : TimeText} (wf : t.Wf) (read : t.tail.rest = [])
    (tidy : ¬ EndsInColon t.render) :
    ∃ t' : DocTime, t'.Wf ∧ t'.toText = t := by
  have tail (colon : EndsInColon t.tail.render) : False := tidy (((colon.append _).cons _).append _)
  obtain ⟨hour, minute, z | ⟨f, z | rest⟩⟩ := t
  · refine ⟨⟨hour, minute, none, z⟩, ⟨wf.hour, wf.minute, absent, fun z' mem => ?_⟩, rfl⟩
    cases mem
    exact ⟨wf.tail z' rfl, fun colon none => tail (zone_colon colon none)⟩
  · have secondWf : SecondText.Wf ⟨f, .zone z⟩ := wf.tail
    refine ⟨⟨hour, minute, some f, some z⟩,
      ⟨wf.hour, wf.minute, (fun _ same => ?_), fun _ same => ?_⟩, rfl⟩
    · cases same
      exact secondWf.field
    · cases same
      exact ⟨secondWf.zone z rfl, fun colon none =>
        tail (((zone_colon colon none).append _).cons _)⟩
  · have none : rest = [] := read
    have secondWf : SecondText.Wf ⟨f, .unread rest⟩ := wf.tail
    refine ⟨⟨hour, minute, some f, .none⟩, ⟨wf.hour, wf.minute, (fun _ same => ?_), absent⟩, ?_⟩
    · cases same
      exact secondWf.field
    · rw [none]
      rfl

theorem exists_docDateTime {a : Option DateTime} (wf : ∀ a' ∈ a, a'.Wf 4) (read : dayRest a = [])
    (tidy : ∀ a' ∈ a, ¬ EndsInColon a'.render) : ∃ (date : Option DocDate) (time : Option DocTime),
      (∀ d ∈ date, d.Wf) ∧ (∀ t ∈ time, t.Wf) ∧ docDateTime date time = a := by
  rcases a with _ | d | t
  · exact ⟨none, none, absent, absent, rfl⟩
  · have dateWf : d.Wf 4 := wf _ rfl
    obtain ⟨year, month, day, time⟩ := d
    have date : DocDate.Wf ⟨year, month, day⟩ := ⟨wf_five dateWf.year, dateWf.month, dateWf.day⟩
    cases time with
    | none => exact ⟨some ⟨year, month, day⟩, none, present date, absent, rfl⟩
    | some t =>
      obtain ⟨t', timeWf, rfl⟩ := exists_docTime (dateWf.time t rfl) read fun colon =>
        tidy _ rfl (((((((colon.cons _).append _).cons _).append _).cons _).append _))
      exact ⟨some ⟨year, month, day⟩, some t', present date, present timeWf, rfl⟩
  · obtain ⟨t', timeWf, rfl⟩ := exists_docTime (wf _ rfl) read (tidy _ rfl)
    exact ⟨none, some t', absent, present timeWf, rfl⟩

variable {t : TimerText}

/-- A text without these places is documented. -/
theorem exists_docTimer (wf : t.Wf 4) (read : t.rest = []) (dashed : t.isGlued = false)
    (tidy : ¬ EndsInColon t.render) : ∃ d : DocTimer, d.Wf ∧ d.toText = t := by
  have inner {a : Option DateTime} (tidy : ¬ EndsInColon (renderDay a)) : ∀ a' ∈ a,
    ¬ EndsInColon a'.render := by
    intro a' same colon
    cases same
    exact tidy (colon.cons _)
  cases t with
  | shorthand name word => exact ⟨.shorthand name word, wf, rfl⟩
  | plain a =>
    obtain ⟨date, time, dateWf, timeWf, there⟩ := exists_docDateTime (a := some a) (present wf)
      read (present tidy)
    refine ⟨.timer none date time, ⟨absent, dateWf, timeWf, ?_⟩, ?_⟩
    · rcases date with _ | d <;> rcases time with _ | t
      · cases there
      all_goals simp
    · rw [DocTimer.toText, there]
      rfl
  | anyDay a =>
    obtain ⟨date, time, dateWf, timeWf, rfl⟩ :=
      exists_docDateTime wf read (inner fun colon => tidy (colon.cons _))
    exact ⟨.timer (some .any) date time, ⟨present trivial, dateWf, timeWf, .inl rfl⟩, rfl⟩
  | day w word a =>
    obtain ⟨date, time, dateWf, timeWf, rfl⟩ :=
      exists_docDateTime wf.2 read (inner fun colon => tidy (colon.append _))
    exact ⟨.timer (some (.day w word)) date time, ⟨present wf.1, dateWf, timeWf, .inl rfl⟩, rfl⟩
  | glued w word a => cases dashed
  | days w word w' word' a =>
    obtain ⟨date, time, dateWf, timeWf, rfl⟩ := exists_docDateTime wf.2.2 read
      (inner fun colon => tidy ((((colon.append _).cons _).cons _).append _))
    exact ⟨.timer (some (.days w word w' word')) date time,
      ⟨present ⟨wf.1, wf.2.1⟩, dateWf, timeWf, .inl rfl⟩, rfl⟩

/-! ### What the actions of a documented text set -/

section Whole

variable {td : TimerDef} {weekday : Option DocDays} {date : Option DocDate} {time : Option DocTime}

theorem time_actions (time : Option DocTime) :
    dayActions (docDateTime none time) = timeActions (time.map DocTime.toText) := by
  cases time <;> rfl

theorem plain_actions (date : Option DocDate) (time : Option DocTime) :
    (DocTimer.timer none date time).toText.actions = dayActions (docDateTime date time) := by
  rw [DocTimer.toText]
  cases docDateTime date time <;> rfl

theorem runs_dateTime {td' : TimerDef} (dateWf : ∀ d ∈ date, d.Wf) (timeWf : ∀ t ∈ time, t.Wf) :
    Runs td (dayActions (docDateTime date time)) td' ↔
      (∀ d ∈ date, d.month.InRange 1 12 ∧ d.day.InRange 1 31) ∧
      (∀ t ∈ time, t.InRange) ∧ td' = (td.setDate date).setTime time := by
  have timeIff {td : TimerDef} : Runs td (timeActions (time.map DocTime.toText)) td' ↔
      (∀ t ∈ time, t.InRange) ∧ td' = td.setTime time := by
    cases time with
    | none => simp [timeActions, runs_nil, TimerDef.setTime]
    | some t => exact (runs_time (timeWf t rfl)).trans (and_congr (by simp) Iff.rfl)
  cases date with
  | none =>
    rw [time_actions, timeIff]
    simp [TimerDef.setDate]
  | some d =>
    obtain ⟨-, monthWf, dayWf⟩ := dateWf d rfl
    have acts : dayActions (docDateTime (some d) time) = .years d.year.texts.1 d.year.texts.2 ::
        .month d.month.texts.1 d.month.texts.2 :: .days d.day.texts.1 d.day.texts.2 ::
          timeActions (time.map DocTime.toText) := rfl
    rw [acts, runs_cons, runs_month monthWf, runs_days dayWf, timeIff]
    constructor
    · rintro ⟨-, month, day, time, rfl⟩
      exact ⟨present ⟨month, day⟩, time, rfl⟩
    · rintro ⟨ranges, time, rfl⟩
      exact ⟨rfl, (ranges d rfl).1, (ranges d rfl).2, time, rfl⟩

def setDays (a : Option DateTime) : Option DocDays → BitVec 8
  | none | some .any => 0x7f#8
  | some (.day w _) => timerSetWeekdays w.bit (dayStop w.bit a)
  | some (.days w _ w' _) => timerSetWeekdays w.bit w'.bit

theorem runs_timer (dateWf : ∀ d ∈ date, d.Wf) (timeWf : ∀ t ∈ time, t.Wf) :
    Runs timerSetDefault (DocTimer.timer weekday date time).toText.actions td ↔
      (∀ d ∈ date, d.month.InRange 1 12 ∧ d.day.InRange 1 31) ∧ (∀ t ∈ time, t.InRange) ∧
        td = (TimerDef.setDate { wDay := setDays (docDateTime date time) weekday } date).setTime
          time := by
  have inner {td' : TimerDef} : Runs td' (dayActions (docDateTime date time)) td ↔ _ :=
    runs_dateTime dateWf timeWf
  rcases weekday with _ | _ | ⟨w, word⟩ | ⟨w, word, w', word'⟩
  · rw [plain_actions]
    exact inner
  · exact inner
  · exact runs_cons.trans ((and_iff_right rfl).trans inner)
  · exact runs_cons.trans ((and_iff_right rfl).trans inner)

theorem sameSet_ints (low high : Nat) (r : Nat × Nat) : SameSet low high (ints r) r :=
  fun _ _ _ => Iff.rfl

theorem denotes_default {bits : BitVec 8} {set : Weekday → Bool}
    (weekdays : ∀ w : Weekday, bits.getLsbD w.index = set w) :
    Denotes { wDay := bits } { weekdays := set } :=
  ⟨weekdays, sameSet_ints _ _ (0, 65535), sameSet_ints _ _ (1, 12), sameSet_ints _ _ (1, 31),
    sameSet_ints _ _ (0, 0),
    sameSet_ints _ _ (0, 0), sameSet_ints _ _ (0, 0), rfl⟩

theorem denotes_time {m : Meaning} (denotes : Denotes td m) {t : DocTime}
    (zone : ∀ z ∈ t.zone, zoneOffset z.stored = z.seconds) :
    Denotes (td.setTime (some t)) (t.meaning m) := by
  refine { denotes with
    hours := sameSet_ints _ _ _, minutes := sameSet_ints _ _ _, seconds := ?_, timezone := ?_ }
  · obtain ⟨hour, minute, _ | f, zone⟩ := t
    · exact denotes.seconds
    · exact sameSet_ints _ _ _
  · obtain ⟨hour, minute, second, _ | z⟩ := t
    · exact denotes.timezone
    · exact zone z rfl

theorem denotes_date {m : Meaning} (denotes : Denotes td m) {d : DocDate}
    (years : d.year.YearsSet) : Denotes (td.setDate (some d)) (d.meaning m) :=
  { denotes with years := years, month := sameSet_ints _ _ _, days := sameSet_ints _ _ _ }

/-- All but the weekdays, the years and the zone are set as documented. -/
theorem denotes_iff (bits : BitVec 8) :
    Denotes ((TimerDef.setDate { wDay := bits } date).setTime time)
      (DocTimer.timer weekday date time).meaning ↔
      (∀ w : Weekday, bits.getLsbD w.index = (weekday.map DocDays.set).getD (fun _ => true) w) ∧
        (∀ d ∈ date, d.year.YearsSet) ∧
        ∀ t ∈ time, ∀ z ∈ t.zone, zoneOffset z.stored = z.seconds := by
  constructor
  · intro denotes
    refine ⟨fun w => ?_, fun d same => ?_, fun t same z zone => ?_⟩
    · have here := denotes.weekdays w
      rcases date with _ | d <;> rcases time with _ | t <;> exact here
    · cases same
      have here := denotes.years
      rcases time with _ | t <;> exact here
    · cases same
      obtain ⟨hour, minute, second, zone⟩ := t
      cases zone
      have here := denotes.timezone
      rcases date with _ | d <;> exact here
  · rintro ⟨weekdays, years, zone⟩
    have base := denotes_default weekdays
    have dated : Denotes (TimerDef.setDate { wDay := bits } date)
      (DocTimer.timer weekday date none).meaning := by
      cases date with
      | none => exact base
      | some d => exact denotes_date base (years d rfl)
    cases time with
    | none => exact dated
    | some t => exact denotes_time dated (zone t rfl)

theorem time_misset (t : DocTime) : (∃ a ∈ t.toText.actions, a.Misset) ↔
    ∃ z ∈ t.zone, z.sign = '-' ∧ decimal z.minutes ≠ 0 := by
  obtain ⟨hour, minute, _ | f, _ | z⟩ := t <;>
    simp [DocTime.toText, TimeText.actions, MinuteTail.actions, SecondText.actions, zoneActions,
      TimerAction.Misset]

theorem dateTime_misset : (∃ a ∈ dayActions (docDateTime date time), a.Misset) ↔
    (∃ d ∈ date, FarYears d.year.texts.1 d.year.texts.2) ∨
      ∃ t ∈ time, ∃ z ∈ t.zone, z.sign = '-' ∧ decimal z.minutes ≠ 0 := by
  have inTime : (∃ a ∈ timeActions (time.map DocTime.toText), a.Misset) ↔
      ∃ t ∈ time, ∃ z ∈ t.zone, z.sign = '-' ∧ decimal z.minutes ≠ 0 := by
    cases time with
    | none => simp [timeActions]
    | some t => simpa [timeActions] using time_misset t
  cases date with
  | none =>
    rw [time_actions, inTime]
    simp
  | some d =>
    simp only [docDateTime, dayActions, DateTime.actions, DateText.actions,
      exists_mem_cons_iff, inTime]
    simp [TimerAction.Misset]

theorem day_set (w : Weekday) (a : Option DateTime) : w.bit ≠ dayStop w.bit a <<< 1 := by
  have table : ∀ w ∈ Weekday.all, w.bit ≠ 0xff#8 <<< 1 ∧ w.bit ≠ w.bit <<< 1 := by
    decide
  cases a with
  | none => exact (table w (mem_all w)).1
  | some _ => exact (table w (mem_all w)).2

theorem years_set_iff (dateWf : ∀ d ∈ date, d.year.Wf 4 5) :
    ((∀ d ∈ date, d.year.InRange 0 65535) ∧ ∀ d ∈ date, d.year.YearsSet) ↔
      ¬ ∃ d ∈ date, FarYears d.year.texts.1 d.year.texts.2 := by
  constructor
  · rintro ⟨ranges, same⟩ ⟨d, mem, far⟩
    exact far_years (dateWf d mem) (ranges d mem) (same d mem) far
  · intro near
    refine ⟨fun d mem => years_inRange fun far => near ⟨d, mem, far⟩, fun d mem => ?_⟩
    rw [FieldText.YearsSet, setYears_ends (dateWf d mem) fun far => near ⟨d, mem, far⟩]
    exact sameSet_ints _ _ _

theorem zone_set_iff (wf : z.Wf) :
    zoneOffset z.stored = z.seconds ↔ ¬(z.sign = '-' ∧ decimal z.minutes ≠ 0) := by
  rw [stored_seconds_iff wf.sign]
  have sign := wf.sign
  simp only [isSign, Bool.or_eq_true, beq_iff_eq] at sign
  rcases sign with plus | minus
  · simp [plus]
  · simp [minus]

/-- The weekdays, the years and the zone are set as documented where no action is amiss. -/
theorem timer_set_iff (dateWf : ∀ d ∈ date, d.year.Wf 4 5) (timeWf : ∀ t ∈ time, t.Wf) :
    ((∀ d ∈ date, d.year.InRange 0 65535) ∧
      (∀ w : Weekday, (setDays (docDateTime date time) weekday).getLsbD w.index =
        (weekday.map DocDays.set).getD (fun _ => true) w) ∧
      (∀ d ∈ date, d.year.YearsSet) ∧
      ∀ t ∈ time, ∀ z ∈ t.zone, zoneOffset z.stored = z.seconds) ↔
    ¬ ∃ a ∈ (DocTimer.timer weekday date time).toText.actions, a.Misset := by
  have zones : (∀ t ∈ time, ∀ z ∈ t.zone, zoneOffset z.stored = z.seconds) ↔
      ¬ ∃ t ∈ time, ∃ z ∈ t.zone, z.sign = '-' ∧ decimal z.minutes ≠ 0 := by
    simp only [not_exists, not_and]
    exact forall₂_congr fun t mem => forall₂_congr fun z there =>
      (zone_set_iff ((timeWf t mem).zone z there).1).trans not_and
  have years : ((∀ d ∈ date, d.year.InRange 0 65535) ∧ (∀ d ∈ date, d.year.YearsSet) ∧
      ∀ t ∈ time, ∀ z ∈ t.zone, zoneOffset z.stored = z.seconds) ↔
      ¬ ∃ a ∈ dayActions (docDateTime date time), a.Misset := by
    rw [dateTime_misset, not_or, ← years_set_iff dateWf, ← zones, and_assoc]
  have all : ∀ w : Weekday, (0x7f#8).getLsbD w.index = true := by
    intro w
    cases w <;> rfl
  rw [and_left_comm, years]
  rcases weekday with _ | _ | ⟨w, word⟩ | ⟨w, word, w', word'⟩
  · rw [plain_actions]
    exact and_iff_right all
  · exact and_iff_right all
  · have acts : (DocTimer.timer (some (.day w word)) date time).toText.actions =
        .weekdays w.bit (dayStop w.bit (docDateTime date time)) ::
          dayActions (docDateTime date time) := rfl
    rw [acts, exists_mem_cons_iff, not_or]
    exact and_congr (iff_of_true (fun v => setWeekdays_day w v _) (day_set w _)) Iff.rfl
  · have acts : (DocTimer.timer (some (.days w word w' word')) date time).toText.actions =
        .weekdays w.bit w'.bit :: dayActions (docDateTime date time) := rfl
    rw [acts, exists_mem_cons_iff, not_or]
    exact and_congr (setWeekdays_days w w') Iff.rfl

theorem shorthand_denotes (name : Shorthand) :
    Denotes (TimerAction.run timerSetDefault (.shorthand name)).1 name.meaning := by
  cases name <;> exact ⟨fun w => by cases w <;> rfl, fun _ _ _ => Iff.rfl, fun _ _ _ => Iff.rfl,
    fun _ _ _ => Iff.rfl,
    fun _ _ _ => Iff.rfl, fun _ _ _ => Iff.rfl, fun _ _ _ => Iff.rfl, rfl⟩

end Whole

/-! ### Two readings of one string -/

theorem dayActions_head {a : DateTime} :
    ∃ (x : TimerAction) (acts : List TimerAction), a.actions = x :: acts ∧
    (∀ start stop, x ≠ .weekdays start stop) ∧ ∀ name, x ≠ .shorthand name := by
  cases a with
  | date d => exact ⟨_, _, rfl, (fun _ _ none => by cases none), fun _ none => by cases none⟩
  | time t => exact ⟨_, _, rfl, (fun _ _ none => by cases none), fun _ none => by cases none⟩

theorem not_glued {t' : TimerText} (wf : t.Wf 4) (wf' : t'.Wf 4) (same : t'.render = t.render)
    (acts : t'.actions = t.actions) (dashed : t'.isGlued = false) : t.isGlued = false := by
  cases t with
  | glued w word a =>
    obtain ⟨c, word', rfl, alpha⟩ := named_head wf.1
    obtain ⟨x, acts', first, noDays, noShorthand⟩ := dayActions_head (a := a)
    have acts : t'.actions = x :: acts' := acts.trans first
    cases t' with
    | shorthand name word => exact (noShorthand name (List.cons.inj acts).1.symm).elim
    | plain a' =>
      obtain ⟨c', rest, head, field⟩ := render_head wf' (by decide)
      cases head.symm.trans same
      rw [alpha_outside alpha] at field
      cases field
    | anyDay a' =>
      have star : '*' = c := (List.cons.inj same).1
      rw [← star] at alpha
      cases alpha
    | day w' word' a' => exact (noDays _ _ (List.cons.inj acts).1.symm).elim
    | glued w' word' a' => cases dashed
    | days w₁ word₁ w₂ word₂ a' => exact (noDays _ _ (List.cons.inj acts).1.symm).elim
  | _ => rfl

theorem field_noColon {single range : Nat} {f : FieldText} (wf : f.Wf single range) :
    f.render ≠ [] ∧ ':' ∉ f.render := by
  refine ⟨ne_nil_of_length_pos (render_length wf).1, fun mem => ?_⟩
  cases render_isField wf ':' mem

theorem digits_noColon {x : List Char} (digits : Digits x) : ':' ∉ x := by
  intro mem
  cases digits ':' mem

theorem zone_noColon (wf : z.Wf) (tidy : z.colon = true → z.minutes ≠ []) (x : List Char) :
    ¬ EndsInColon (x ++ z.render) := by
  by_cases none : z.minutes = []
  · have colon : z.colonText = [] := by
      rw [ZoneText.colonText, if_neg fun colon => tidy colon none]
    have text : x ++ z.render = (x ++ [z.sign]) ++ z.hours := by
      simp [ZoneText.render, none, colon]
    rw [text]
    exact not_endsInColon (ne_nil_of_length_pos wf.hours.2.1) (digits_noColon wf.hours.1) _
  · have text : x ++ z.render = (x ++ z.sign :: (z.hours ++ z.colonText)) ++ z.minutes := by
      simp [ZoneText.render]
    rw [text]
    exact not_endsInColon none (digits_noColon wf.minutes.1) _

theorem docTime_noColon {t : DocTime} (wf : t.Wf) (x : List Char) :
    ¬ EndsInColon (x ++ t.render) := by
  obtain ⟨hour, minute, second, _ | z⟩ := t
  · rcases second with _ | f
    · obtain ⟨some, none⟩ := field_noColon wf.minute
      have noColon := not_endsInColon some none (x ++ (hour.render ++ [':']))
      simpa [DocTime.render, renderSecond, renderZone] using noColon
    · obtain ⟨some, none⟩ := field_noColon (wf.second f rfl)
      have noColon := not_endsInColon some none
        (x ++ (hour.render ++ ':' :: (minute.render ++ [':'])))
      simpa [DocTime.render, renderSecond, renderZone] using noColon
  · obtain ⟨zoneWf, tidy⟩ := wf.zone z rfl
    have noColon := zone_noColon zoneWf tidy
      (x ++ (hour.render ++ ':' :: (minute.render ++ renderSecond second)))
    simpa [DocTime.render, renderZone] using noColon

theorem word_noColon {w : Weekday} {word : List Char} (named : w.Named word) (x : List Char) :
    ¬ EndsInColon (x ++ word) := by
  obtain ⟨c, word', rfl, -⟩ := named_head named
  exact not_endsInColon (cons_ne_nil _ _) (fun mem => by cases named_alpha named ':' mem) x

theorem docDays_noColon {d : DocDays} (wf : d.Wf) : ¬ EndsInColon d.render := by
  rcases d with _ | ⟨w, word⟩ | ⟨w, word, w', word'⟩
  · exact not_endsInColon (cons_ne_nil _ _) (by decide) []
  · exact word_noColon wf []
  · have noColon := word_noColon wf.2 (word ++ ['.', '.'])
    simpa [DocDays.render] using noColon

theorem docTimer_noColon {d : DocTimer} (wf : d.Wf) : ¬ EndsInColon d.render := by
  rcases d with ⟨name, word⟩ | ⟨weekday, date, time⟩
  · have alpha := word_alpha wf (shorthand_alpha name).2
    refine not_endsInColon (y := word) ?_ (fun mem => by cases alpha ':' mem) []
    rintro rfl
    exact (shorthand_alpha name).1 wf.symm
  · obtain ⟨dayWf, dateWf, timeWf, part⟩ := wf
    cases time with
    | some t =>
      have noColon := docTime_noColon (timeWf t rfl)
        (['-'].intercalate ((weekday.map DocDays.render).toList ++
        (date.map DocDate.render).toList ++ [[]]))
      rcases weekday with _ | w <;> rcases date with _ | d <;>
        simpa [DocTimer.render, List.intercalate] using noColon
    | none =>
      cases date with
      | some d =>
        obtain ⟨some, none⟩ := field_noColon (dateWf d rfl).day
        have noColon := not_endsInColon some none
          (['-'].intercalate ((weekday.map DocDays.render).toList ++
          [d.year.render, d.month.render, []]))
        rcases weekday with _ | w <;> simpa [DocTimer.render, DocDate.render,
          List.intercalate] using noColon
      | none =>
        cases weekday with
        | none => simp at part
        | some w =>
          have noColon := docDays_noColon (dayWf w rfl)
          simpa [DocTimer.render, List.intercalate] using noColon

variable {rest : List Char}

theorem yycYear_four {a : DateTime} (wf : a.Wf 5) {acts : List TimerAction}
    (read : yycYear a.render = ⟨acts, some rest⟩) : a.Wf 4 := by
  obtain ⟨a', wf', same, -⟩ := yycYear_read read
  cases a with
  | time t => exact wf
  | date d =>
    cases a' with
    | date d' =>
      obtain ⟨year, -⟩ := closed_field (wf_five wf'.year) wf.year (closed_cons rfl _)
        (closed_cons rfl _) same
      exact ⟨year ▸ wf'.year, wf.month, wf.day, wf.time⟩
    | time t =>
      obtain ⟨-, colon⟩ := append_closed (closed_cons rfl _) (closed_cons rfl _)
        (render_isField wf'.hour) (render_isField wf.year) same
      cases colon

theorem readDay_four {a : Option DateTime} (wf : ∀ a' ∈ a, a'.Wf 5) {acts : List TimerAction}
    (read : readDay a = ⟨acts, some rest⟩) : ∀ a' ∈ a, a'.Wf 4 := by
  intro a' same
  cases same
  exact yycYear_four (wf a' rfl) read

theorem scan_four (wf : t.Wf 5) {acts : List TimerAction} (read : t.scan = ⟨acts, some rest⟩) :
    t.Wf 4 := by
  cases t with
  | shorthand name word => exact wf
  | plain a => exact yycYear_four wf read
  | anyDay a => exact readDay_four wf read
  | day w word a =>
    obtain ⟨acts', -, read⟩ := after_eq.1 read
    exact ⟨wf.1, readDay_four wf.2 read⟩
  | glued w word a => exact ⟨wf.1, yycYear_four wf.2 read⟩
  | days w word w' word' a =>
    obtain ⟨acts', -, read⟩ := after_eq.1 read
    exact ⟨wf.1, wf.2.1, readDay_four wf.2.2 read⟩

variable {s : List Char}

theorem timerParse_accepted {td : TimerDef} (accepted : timerParse s = (true, td)) :
    ∃ (acts : List TimerAction) (rest : List Char), yycTimer s = ⟨acts, some rest⟩ ∧
      Runs timerSetDefault acts td := by
  unfold timerParse at accepted
  obtain ⟨result, same⟩ := Prod.mk.inj accepted
  rw [Bool.and_eq_true] at result
  cases scan : yycTimer s with
  | mk acts unread =>
    rw [scan] at result same
    cases unread with
    | none => cases result.1
    | some rest => exact ⟨acts, rest, rfl, Prod.ext same result.2⟩

theorem toText_notGlued (d : DocTimer) : d.toText.isGlued = false := by
  rcases d with ⟨name, word⟩ | ⟨_ | _ | ⟨w, word⟩ | ⟨w, word, w', word'⟩, date, time⟩
  · rfl
  · rw [DocTimer.toText]
    cases docDateTime date time <;> rfl
  all_goals rfl

theorem toText_year {weekday : Option DocDays} {date : Option DocDate} {time : Option DocTime}
    (wf : (DocTimer.timer weekday date time).toText.Wf 4) : ∀ d ∈ date, d.year.Wf 4 5 := by
  intro d same
  cases same
  have inner : ∀ a ∈ docDateTime (some d) time, a.Wf 4 := by
    rcases weekday with _ | _ | ⟨w, word⟩ | ⟨w, word, w', word'⟩
    · intro a there
      cases there
      exact wf
    · exact wf
    · exact wf.2
    · exact wf.2.2
  exact (inner _ rfl).year

/-- The actions of a documented text set what is documented, if none of them is amiss. -/
theorem docTimer_set_iff {d : DocTimer} {td : TimerDef} (wf : d.Wf) (read : d.toText.Wf 4)
    (runs : Runs timerSetDefault d.toText.actions td) :
    d.InRange ∧ Denotes td d.meaning ↔ ¬ ∃ a ∈ d.toText.actions, a.Misset := by
  rcases d with ⟨name, word⟩ | ⟨weekday, date, time⟩
  · obtain ⟨-, rest⟩ := runs_cons.1 runs
    obtain rfl := runs_nil.1 rest
    refine iff_of_true ⟨trivial, shorthand_denotes name⟩ ?_
    simp [DocTimer.toText, TimerText.actions, TimerAction.Misset]
  · obtain ⟨-, dateWf, timeWf, -⟩ := wf
    obtain ⟨dateRange, timeRange, rfl⟩ := (runs_timer dateWf timeWf).1 runs
    rw [denotes_iff, ← timer_set_iff (toText_year read) timeWf]
    constructor
    · rintro ⟨inRange, set⟩
      exact ⟨fun d mem => (inRange.1 d mem).year, set⟩
    · rintro ⟨years, set⟩
      exact ⟨⟨fun d mem => ⟨years d mem, (dateRange d mem).1, (dateRange d mem).2⟩, timeRange⟩, set⟩

theorem reading_of_documented {td : TimerDef} (accepted : timerParse s = (true, td))
    (documented : Documented s td) (textWf : t.Wf 4) (same : t.render = s) : ¬ t.Misread := by
  obtain ⟨acts, rest, scan, runs⟩ := timerParse_accepted accepted
  obtain ⟨d, wf, rfl, inRange, denotes⟩ := documented
  have text := DocTimer.toText_render wf
  rw [← text] at scan same
  have read : d.toText.Wf 4 := scan_four (DocTimer.toText_wf wf)
    ((yycTimer_scan (DocTimer.toText_wf wf) (Nat.le_refl _)).symm.trans scan)
  obtain ⟨rfl, -⟩ := Scan.mk.inj ((yycTimer_render read).symm.trans scan)
  have both := yycTimer_render textWf
  rw [same, yycTimer_render read] at both
  obtain ⟨actions, unread⟩ := Scan.mk.inj both
  have unread : t.rest = [] := (Option.some.inj unread).symm.trans d.toText_rest
  rintro (left | glued | colon | misset)
  · exact left unread
  · rw [not_glued textWf read same.symm actions (toText_notGlued d)] at glued
    cases glued
  · rw [same, text] at colon
    exact docTimer_noColon wf colon
  · rw [← actions] at misset
    exact (docTimer_set_iff wf read runs).1 ⟨inRange, denotes⟩ misset

theorem documented_of_reading {td : TimerDef} (accepted : timerParse s = (true, td))
    (well : ∀ t : TimerText, t.Wf 4 → t.render = s → ¬ t.Misread) : Documented s td := by
  obtain ⟨acts, rest, scan, runs⟩ := timerParse_accepted accepted
  obtain ⟨t, textWf, rfl⟩ := yycTimer_read scan
  have tidy := well t textWf rfl
  simp only [TimerText.Misread, not_or, not_not, Bool.not_eq_true] at tidy
  obtain ⟨unread, dashed, noColon, set⟩ := tidy
  obtain ⟨rfl, -⟩ := Scan.mk.inj ((yycTimer_render textWf).symm.trans scan)
  obtain ⟨d, wf, rfl⟩ := exists_docTimer textWf unread dashed noColon
  obtain ⟨inRange, denotes⟩ := (docTimer_set_iff wf textWf runs).2 set
  exact ⟨d, wf, DocTimer.toText_render wf, inRange, denotes⟩

/-- An accepted string means what is documented unless it is read otherwise in one of
the places above. -/
theorem accepted_documented_iff (s : List Char) (td : TimerDef)
    (accepted : timerParse s = (true, td)) :
    Documented s td ↔ ∀ t : TimerText, t.Wf 4 → t.render = s → ¬ t.Misread :=
  ⟨fun documented _ wf same => reading_of_documented accepted documented wf same,
    documented_of_reading accepted⟩

theorem office_hours_documented :
    timerParse "Mon..Fri-12..14:15..45:00".toList =
        (true, { wDay := 0x1f#8, hours := (12, 14), minutes := (15, 45), seconds := (0, 0) }) ∧
      (Documented "Mon..Fri-12..14:15..45:00".toList
          { wDay := 0x1f#8, hours := (12, 14), minutes := (15, 45), seconds := (0, 0) } ↔
        ∀ t : TimerText, t.Wf 4 → t.render = "Mon..Fri-12..14:15..45:00".toList → ¬ t.Misread) :=
  ⟨by decide +kernel, accepted_documented_iff _ _ (by decide +kernel)⟩

instance (x : List Char) : Decidable (Digits x) := List.decidableBAll _ x

instance (single range : Nat) (f : FieldText) : Decidable (f.Wf single range) :=
  match f with
  | .star => inferInstanceAs (Decidable True)
  | .single n => inferInstanceAs (Decidable (Digits n ∧ 1 ≤ n.length ∧ n.length ≤ single))
  | .range start stop => inferInstanceAs (Decidable ((Digits start ∧ start.length ≤ range) ∧
      Digits stop ∧ stop.length ≤ range))

instance (w : Weekday) (word : List Char) : Decidable (w.Named word) :=
  inferInstanceAs (Decidable (word.map Char.toLower ∈ w.names))

theorem misread_not_documented (wf : t.Wf 4) (misread : t.Misread)
    (accepted : (timerParse t.render).1 = true) :
    (timerParse t.render).1 = true ∧ ¬ Documented t.render (timerParse t.render).2 := by
  refine ⟨accepted, fun documented => ?_⟩
  generalize parsed : timerParse t.render = r at accepted documented
  obtain ⟨ret, td⟩ := r
  cases accepted
  exact reading_of_documented parsed documented wf rfl misread

def halfPastTwelve (tail : MinuteTail) : TimeText :=
  ⟨.single "12".toList, .single "30".toList, tail⟩

theorem halfPastTwelve_wf {tail : MinuteTail} (wf : tail.Wf) : (halfPastTwelve tail).Wf :=
  ⟨(by decide : FieldText.Wf 2 2 (.single "12".toList)),
    (by decide : FieldText.Wf 2 2 (.single "30".toList)), wf⟩

def newYearsDay (year : FieldText) : DateText :=
  ⟨year, .single "1".toList, .single "1".toList, none⟩

def misreadTexts : List TimerText :=
  [.plain (.time (halfPastTwelve (.second ⟨.single "00".toList, .unread " and more".toList⟩))),
    .glued .mon "Mon".toList (.time (halfPastTwelve (.zone none))),
    .plain (.time (halfPastTwelve (.zone (some ⟨'+', "01".toList, true, []⟩)))),
    .days .tue "Tue".toList .mon "Mon".toList none,
    .plain (.date (newYearsDay (.range "65535".toList []))),
    .plain (.date (newYearsDay (.range "70000".toList "80000".toList))),
    .plain (.time (halfPastTwelve (.zone (some ⟨'-', "03".toList, true, "30".toList⟩))))]

theorem misreadTexts_wf : ∀ t ∈ misreadTexts, t.Wf 4 := by
  have year {start stop : List Char} (wf : (FieldText.range start stop).Wf 4 5) :
      (newYearsDay (.range start stop)).Wf 4 :=
    have one : FieldText.Wf 2 2 (.single "1".toList) := by decide
    ⟨wf, one, one, absent⟩
  simp only [misreadTexts, forall_mem_cons]
  refine ⟨halfPastTwelve_wf ⟨by decide, (fun _ none => by cases none), fun rest same => ?_⟩,
    ⟨by decide, halfPastTwelve_wf absent⟩, halfPastTwelve_wf fun z same => ?_,
    ⟨by decide, by decide, absent⟩, year (by decide), year (by decide),
    halfPastTwelve_wf fun z same => ?_, forall_mem_nil _⟩
  · cases same
    have blank : " and more".toList.head? = some ' ' := by decide
    refine ⟨fun c first => ?_, fun g after wf' same => ?_⟩
    · rw [blank] at first
      cases first
      rfl
    rcases reading_within (f := .single "00".toList) (by decide) wf' (closed_cons rfl _)
      same with ⟨rfl, -⟩ | shorter
    · exact Nat.le_refl _
    · exact Nat.le_of_lt shorter
  all_goals
    cases same
    exact ⟨rfl, by decide, by decide⟩

theorem misreadTexts_misread : ∀ t ∈ misreadTexts, t.Misread := by
  simp only [misreadTexts, forall_mem_cons]
  refine ⟨.inl (by decide), .inr (.inl rfl), .inr (.inr (.inl ⟨"12:30+01".toList, by decide⟩)), ?_,
    ?_, ?_, ?_, forall_mem_nil _⟩
  · exact .inr (.inr (.inr ⟨_, mem_cons_self, (rfl : Weekday.tue.bit = Weekday.mon.bit <<< 1)⟩))
  · exact .inr (.inr (.inr ⟨_, mem_cons_self, Or.inl (by decide)⟩))
  · exact .inr (.inr (.inr ⟨_, mem_cons_self, Or.inl (by decide)⟩))
  · exact .inr (.inr (.inr ⟨.timezone "-03".toList "30".toList, by decide, rfl, by decide⟩))

theorem misread_accepted : misreadTexts.map TimerText.render =
      ["12:30:00 and more".toList, "Mon12:30".toList,
      "12:30+01:".toList, "Tue..Mon".toList, "65535..-1-1".toList, "70000..80000-1-1".toList,
      "12:30-03:30".toList] ∧
    ∀ t ∈ misreadTexts, (timerParse t.render).1 = true ∧
      ¬ Documented t.render (timerParse t.render).2 := by
  have accepted : ∀ t ∈ misreadTexts, (timerParse t.render).1 = true := by decide +kernel
  exact ⟨by decide +kernel, fun t mem =>
    misread_not_documented (misreadTexts_wf t mem) (misreadTexts_misread t mem) (accepted t mem)⟩

end Crinit
