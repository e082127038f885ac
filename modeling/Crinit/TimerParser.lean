import Crinit.Lib.Scanner
import Crinit.Timer

/-! The parser of `timer_parser.re`. Each condition of the scanner is a function; the semantic
actions are collected and run afterwards. -/
namespace Crinit

open Scanner

inductive Weekday where
  | mon | tue | wed | thu | fri | sat | sun
  deriving DecidableEq, Repr

def Weekday.all : List Weekday := [.mon, .tue, .wed, .thu, .fri, .sat, .sun]

def Weekday.index : Weekday → Nat
  | .mon => 0 | .tue => 1 | .wed => 2 | .thu => 3 | .fri => 4 | .sat => 5 | .sun => 6

def Weekday.bit (w : Weekday) : BitVec 8 := 1#8 <<< w.index

inductive Shorthand where
  | minutely | hourly | daily | midnight | monthly | weekly | yearly | annually
  deriving DecidableEq, Repr

inductive TimerAction where
  | shorthand (name : Shorthand)
  | weekdays (start stop : BitVec 8)
  | years (start stop : List Char)
  | month (start stop : List Char)
  | days (start stop : List Char)
  | hours (start stop : List Char)
  | minutes (start stop : List Char)
  | seconds (start stop : List Char)
  | timezone (tzH tzM : List Char)
  deriving DecidableEq, Repr

/-- The loop of `crinitTimerSetWeekdays`. Its bit is shifted out after eight turns. -/
def weekdayLoop : Nat → BitVec 8 → BitVec 8 → BitVec 8 → BitVec 8
  | 0, days, _, _ => days
  | turns + 1, days, start, stop =>
    if start <<< 1 ≤ stop ∧ start <<< 1 ≠ 0#8 then weekdayLoop turns (days ^^^ start)
      (start <<< 1) stop
    else days ^^^ start

def timerSetWeekdays (start stop : BitVec 8) : BitVec 8 :=
  if stop = 0xff#8 then start
  else if start > stop then weekdayLoop 8 0xff#8 (stop <<< 1) (start >>> 1)
  else weekdayLoop 8 0#8 start stop

def timerParseUint16 (text : List Char) : Int :=
  if text = [] then 0xffff
  else text.foldl (fun res c => u16 (res * 10 + ((c.toNat : Int) - '0'.toNat))) 0

def timerSetYears (start stop : List Char) : Int × Int :=
  (if timerParseUint16 start = 0xffff then 0 else timerParseUint16 start, timerParseUint16 stop)

/-- The setters of the other fields: an empty end stands for the bound of the field. -/
def timerSetField (low high : Int) (start stop : List Char) : Int × Int :=
  (if u8 (timerParseUint16 start) = 0xff then low else u8 (timerParseUint16 start),
    if u8 (timerParseUint16 stop) = 0xff then high else u8 (timerParseUint16 stop))

def timerSetMonth : List Char → List Char → Int × Int := timerSetField 1 12
def timerSetDays : List Char → List Char → Int × Int := timerSetField 1 31
def timerSetHours : List Char → List Char → Int × Int := timerSetField 0 23
def timerSetMinutes : List Char → List Char → Int × Int := timerSetField 0 59
def timerSetSeconds : List Char → List Char → Int × Int := timerSetField 0 59

def s8 (x : Int) : Int := (x + 128) % 256 - 128

/-- The hours come with their sign. -/
def timerSetTimezone (tzH tzM : List Char) : Int × Int :=
  (s8 ((if tzH.head? = some '-' then -1 else 1) * s8 (timerParseUint16 tzH.tail)),
    if u8 (timerParseUint16 tzM) = 0xff then 0 else u8 (timerParseUint16 tzM))

def inField (low high : Int) (r : Int × Int) : Bool := ccRange low r.1 high && ccRange low r.2 high

def TimerAction.run (td : TimerDef) : TimerAction → TimerDef × Bool
  | .shorthand .minutely =>
    ({ td with hours := (td.hours.1, 23), minutes := (td.minutes.1, 59) }, true)
  | .shorthand .hourly => ({ td with hours := (td.hours.1, 23) }, true)
  | .shorthand .daily | .shorthand .midnight => (td, true)
  | .shorthand .monthly => ({ td with days := (td.days.1, 1) }, true)
  | .shorthand .weekly => ({ td with wDay := 1#8 }, true)
  | .shorthand .yearly | .shorthand .annually =>
    ({ td with days := (td.days.1, 1), month := (td.month.1, 1) }, true)
  | .weekdays start stop => ({ td with wDay := timerSetWeekdays start stop }, true)
  | .years start stop => ({ td with years := timerSetYears start stop }, true)
  | .month start stop =>
    ({ td with month := timerSetMonth start stop }, inField 1 12 (timerSetMonth start stop))
  | .days start stop =>
    ({ td with days := timerSetDays start stop }, inField 1 31 (timerSetDays start stop))
  | .hours start stop =>
    ({ td with hours := timerSetHours start stop }, inField 0 23 (timerSetHours start stop))
  | .minutes start stop =>
    ({ td with minutes := timerSetMinutes start stop }, inField 0 59 (timerSetMinutes start stop))
  | .seconds start stop =>
    ({ td with seconds := timerSetSeconds start stop }, inField 0 59 (timerSetSeconds start stop))
  | .timezone tzH tzM =>
    ({ td with timezone := timerSetTimezone tzH tzM },
      ccRange (-13) (timerSetTimezone tzH tzM).1 15 && ccRange 0 (timerSetTimezone tzH tzM).2 59)

/-- Behind a setter that failed, `result && ...` calls no other one. -/
def runActions (td : TimerDef) : List TimerAction → TimerDef × Bool
  | [] => (td, true)
  | a :: rest => if (a.run td).2 then runActions (a.run td).1 rest else a.run td

/-- What has to stand behind a text: how many characters are looked at for it, and
where the input goes on. -/
abbrev Behind := List Char → List (Nat × List Char)

def behindChar (c : Char) : Behind
  | x :: rest => if x = c then [(1, rest)] else []
  | [] => []

/-- The terminating zero is looked at as a character. -/
def behindEnd : Behind
  | [] => [(1, [])]
  | _ :: _ => []

def behindAny : Behind
  | s => [(0, s)]

def isSign (c : Char) : Bool := c == '+' || c == '-'

/-- The trailing context `/ [+-]`. -/
def behindSign : Behind
  | x :: rest => if isSign x then [(1, x :: rest)] else []
  | [] => []

/-- The three rules of a field: a range, a single number and `*`, with the texts
between the tags `t1` and `t2` and between `t3` and `t4`. -/
def fields (single range : Nat) (behind : Behind) (s : List Char) :
    List (Match (List Char × List Char)) :=
  ((splits Char.isDigit 0 range s).flatMap fun (a, s) =>
    match s with
    | '.' :: '.' :: s =>
      (splits Char.isDigit 0 range s).flatMap fun (b, s) =>
        (behind s).map fun (k, rest) => ⟨a.length + 2 + b.length + k, (a, b), rest⟩
    | _ => []) ++
  ((splits Char.isDigit 1 single s).flatMap fun (a, s) =>
    (behind s).map fun (k, rest) => ⟨a.length + k, (a, a), rest⟩) ++
  match s with
  | '*' :: s => (behind s).map fun (k, rest) => ⟨1 + k, ([], []), rest⟩
  | _ => []

def isField (c : Char) : Bool := c.isDigit || c == '*' || c == '.'

def lookGroups : Nat → List Char → List (Nat × List Char)
  | 0, s => [(0, s)]
  | n + 1, '-' :: s => (splits isField 1 6 s).flatMap fun (x, s) =>
      (lookGroups n s).map fun (k, rest) => (1 + x.length + k, rest)
  | _ + 1, _ => []

/-- `[0-9*.]{1,12} ('-' [0-9*.]{1,6}){n}`, how far it looks. -/
def lookDate (n : Nat) (behind : Behind) (s : List Char) : List Nat :=
  (splits isField 1 12 s).flatMap fun (x, s) => (lookGroups n s).flatMap fun (k, s) =>
    (behind s).map fun (j, _) => x.length + k + j

def lookHour (s : List Char) : List Nat :=
  (splits isField 1 6 s).flatMap fun (x, s) => (behindChar ':' s).map fun (j, _) => x.length + j

/-- A literal in single quotes, which is matched in any case. -/
def literal (w s : List Char) : List (Nat × List Char) :=
  if (s.take w.length).map Char.toLower = w then [(w.length, s.drop w.length)] else []

def Weekday.short : Weekday → List Char
  | .mon => "mon".toList | .tue => "tue".toList | .wed => "wed".toList | .thu => "thu".toList
  | .fri => "fri".toList | .sat => "sat".toList | .sun => "sun".toList

def Weekday.long : Weekday → List Char
  | .mon => "monday".toList | .tue => "tuesday".toList | .wed => "wednesday".toList
  | .thu => "thursday".toList | .fri => "friday".toList | .sat => "saturday".toList
  | .sun => "sunday".toList

def wday (s : List Char) : List (Match Weekday) :=
  Weekday.all.flatMap fun w => (literal w.short s ++ literal w.long s).map fun (k, rest) =>
    ⟨k, w, rest⟩

def Shorthand.all : List Shorthand :=
  [.minutely, .hourly, .daily, .midnight, .monthly, .weekly, .yearly, .annually]

def Shorthand.name : Shorthand → List Char
  | .minutely => "minutely".toList | .hourly => "hourly".toList | .daily => "daily".toList
  | .midnight => "midnight".toList | .monthly => "monthly".toList | .weekly => "weekly".toList
  | .yearly => "yearly".toList | .annually => "annually".toList

/-- What the scanner does from a condition on: the semantic actions, and the input that
is left unread where it returns the result. Without a rule the default one returns false. -/
structure Scan where
  actions : List TimerAction := []
  unread : Option (List Char) := none
  deriving DecidableEq, Repr

def Scan.after (a : TimerAction) (r : Scan) : Scan := { r with actions := a :: r.actions }

def accept (rest : List Char) : Scan := { unread := some rest }

def zones (s : List Char) : List (Match (List Char × List Char)) :=
  match s with
  | [] => []
  | sign :: s =>
    if isSign sign then
      (splits Char.isDigit 1 2 s).flatMap fun (h, s) =>
        (behindAny s ++ behindChar ':' s).flatMap fun (j, s) =>
        (splits Char.isDigit 0 0 s ++ splits Char.isDigit 2 2 s).flatMap fun (m, s) =>
          (behindEnd s).map fun (k, rest) => ⟨1 + h.length + j + m.length + k, (sign :: h, m), rest⟩
    else []

def timezoneRules (s : List Char) : List (Match (Option (List Char × List Char))) :=
  (behindEnd s).map (fun (k, rest) => ⟨k, none, rest⟩) ++ (zones s).map (Match.map some)

def yycTimezone (s : List Char) : Scan :=
  match longest (timezoneRules s) with
  | some ⟨_, none, rest⟩ => accept rest
  | some ⟨_, some (h, m), rest⟩ => (accept rest).after (.timezone h m)
  | none => {}

def eitherFields (first second : Behind) (s : List Char) :
    List (Match ((List Char × List Char) × Bool)) :=
  (fields 2 2 first s).map (Match.map fun texts => (texts, false)) ++
    (fields 2 2 second s).map (Match.map fun texts => (texts, true))

def yycSecond (s : List Char) : Scan :=
  match longest (eitherFields behindAny behindSign s) with
  | some ⟨_, ((a, b), false), rest⟩ => (accept rest).after (.seconds a b)
  | some ⟨_, ((a, b), true), rest⟩ => (yycTimezone rest).after (.seconds a b)
  | none => {}

def yycMinute (s : List Char) : Scan :=
  match longest (eitherFields behindAny (behindChar ':') s) with
  | some ⟨_, ((a, b), false), rest⟩ => (yycTimezone rest).after (.minutes a b)
  | some ⟨_, ((a, b), true), rest⟩ => (yycSecond rest).after (.minutes a b)
  | none => {}

def yycHour (s : List Char) : Scan :=
  match longest (fields 2 2 (behindChar ':') s) with
  | some ⟨_, (a, b), rest⟩ => (yycMinute rest).after (.hours a b)
  | none => {}

def yycDay (s : List Char) : Scan :=
  match longest (eitherFields behindEnd (behindChar '-') s) with
  | some ⟨_, ((a, b), false), rest⟩ => (accept rest).after (.days a b)
  | some ⟨_, ((a, b), true), rest⟩ => (yycHour rest).after (.days a b)
  | none => {}

def yycMonth (s : List Char) : Scan :=
  match longest (fields 2 2 (behindChar '-') s) with
  | some ⟨_, (a, b), rest⟩ => (yycDay rest).after (.month a b)
  | none => {}

def yearRules (s : List Char) : List (Match (Option (List Char × List Char))) :=
  (fields 4 5 (behindChar '-') s).map (Match.map some) ++ (lookHour s).map fun k => ⟨k, none, s⟩

def yycYear (s : List Char) : Scan :=
  match longest (yearRules s) with
  | some ⟨_, some (a, b), rest⟩ => (yycMonth rest).after (.years a b)
  | some ⟨_, none, rest⟩ => yycHour rest
  | none => {}

inductive WeekdayNext where
  | year | hour | stop | dash
  | upTo (last : Weekday)
  deriving DecidableEq, Repr

def weekdayendRules (s : List Char) : List (Match WeekdayNext) :=
  (behindEnd s).map (fun (k, rest) => ⟨k, .stop, rest⟩) ++
    (behindChar '-' s).map (fun (k, rest) => ⟨k, .year, rest⟩) ++
    (behindChar '-' s).flatMap fun (k, rest) => (lookHour rest).map fun j => ⟨k + j, .hour, rest⟩

def yycWeekdayend (s : List Char) : Scan :=
  match longest (weekdayendRules s) with
  | some ⟨_, .stop, rest⟩ => accept rest
  | some ⟨_, .year, rest⟩ => yycYear rest
  | some ⟨_, .hour, rest⟩ => yycHour rest
  | _ => {}

def weekday2Rules (s : List Char) : List (Match WeekdayNext) :=
  (lookDate 2 behindAny s).map (fun k => ⟨k, .year, s⟩) ++
    (lookHour s).map (fun k => ⟨k, .hour, s⟩) ++
    (behindEnd s).map (fun (k, rest) => ⟨k, .stop, rest⟩) ++
    (behindChar '-' s).map (fun (k, rest) => ⟨k, .dash, rest⟩) ++
    (behindChar '.' s).flatMap fun (j, s) => (behindChar '.' s).flatMap fun (k, s) =>
      (wday s).map fun m => ⟨j + k + m.look, .upTo m.tag, m.rest⟩

/-- The first two rules go on without a call of `crinitTimerSetWeekdays`. -/
def yycWeekday2 (wDay : BitVec 8) (s : List Char) : Scan :=
  match longest (weekday2Rules s) with
  | some ⟨_, .year, rest⟩ => yycYear rest
  | some ⟨_, .hour, rest⟩ => yycHour rest
  | some ⟨_, .stop, rest⟩ => (accept rest).after (.weekdays wDay (-1))
  | some ⟨_, .dash, rest⟩ => (yycYear rest).after (.weekdays wDay wDay)
  | some ⟨_, .upTo last, rest⟩ => (yycWeekdayend rest).after (.weekdays wDay last.bit)
  | none => {}

def weekday1Rules (s : List Char) : List (Match (Option Weekday)) :=
  (behindChar '*' s).map (fun (k, rest) => ⟨k, none, rest⟩) ++ (wday s).map (Match.map some)

def yycWeekday1 (s : List Char) : Scan :=
  match longest (weekday1Rules s) with
  | some ⟨_, none, rest⟩ => yycWeekdayend rest
  | some ⟨_, some w, rest⟩ => yycWeekday2 w.bit rest
  | none => {}

inductive TimerStart where
  | shorthand (name : Shorthand)
  | weekday1 | year | hour
  deriving DecidableEq, Repr

def timerRules (s : List Char) : List (Match TimerStart) :=
  (Shorthand.all.flatMap fun name => (literal name.name s).flatMap fun (k, s) =>
      (behindEnd s).map fun (j, rest) => ⟨k + j, .shorthand name, rest⟩) ++
    (wday s).map (fun m => ⟨m.look, .weekday1, s⟩) ++
    (behindChar '*' s).map (fun (k, _) => ⟨k, .weekday1, s⟩) ++
    (lookDate 2 behindEnd s).map (fun k => ⟨k, .year, s⟩) ++
    (lookDate 3 (behindChar ':') s).map (fun k => ⟨k, .year, s⟩) ++
    (lookHour s).map fun k => ⟨k, .hour, s⟩

def yycTimer (s : List Char) : Scan :=
  match longest (timerRules s) with
  | some ⟨_, .shorthand name, rest⟩ => (accept rest).after (.shorthand name)
  | some ⟨_, .weekday1, rest⟩ => yycWeekday1 rest
  | some ⟨_, .year, rest⟩ => yycYear rest
  | some ⟨_, .hour, rest⟩ => yycHour rest
  | none => {}

def timerParse (s : List Char) : Bool × TimerDef :=
  let scan := yycTimer s
  let (td, result) := runActions timerSetDefault scan.actions
  (scan.unread.isSome && result, td)

end Crinit
