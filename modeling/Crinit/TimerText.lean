import Crinit.TimerParser

/-! The strings that the scanner accepts, as texts with a structure: it accepts exactly the rendered
texts, with the actions of the text. -/
namespace Crinit

open List Scanner

def Digits (x : List Char) : Prop := ∀ c ∈ x, c.isDigit = true

inductive FieldText where
  | star
  | single (n : List Char)
  | range (start stop : List Char)
  deriving DecidableEq, Repr

def FieldText.render : FieldText → List Char
  | .star => ['*']
  | .single n => n
  | .range start stop => start ++ '.' :: '.' :: stop

def FieldText.texts : FieldText → List Char × List Char
  | .star => ([], [])
  | .single n => (n, n)
  | .range start stop => (start, stop)

def FieldText.Wf (single range : Nat) : FieldText → Prop
  | .star => True
  | .single n => Digits n ∧ 1 ≤ n.length ∧ n.length ≤ single
  | .range start stop => (Digits start ∧ start.length ≤ range) ∧ Digits stop ∧ stop.length ≤ range

section Field

variable {single range : Nat} {f g : FieldText} {behind : Behind} {s : List Char}

theorem mem_fields {m : Match (List Char × List Char)} : m ∈ fields single range behind s ↔
    ∃ (f : FieldText) (after : List Char) (k : Nat), f.Wf single range ∧ s = f.render ++ after ∧
      (k, m.rest) ∈ behind after ∧ m = ⟨f.render.length + k, f.texts, m.rest⟩ := by
  simp only [fields, mem_append, mem_flatMap, Prod.exists, mem_splits]
  constructor
  · rintro ((⟨a, s', ⟨rfl, digits, -, high⟩, mem⟩ | ⟨a, s', ⟨rfl, digits, low, high⟩, mem⟩) | mem)
    · split at mem
      · simp only [mem_flatMap, Prod.exists, mem_splits, mem_map] at mem
        obtain ⟨b, after, ⟨rfl, digits', -, high'⟩, k, rest, behindMem, rfl⟩ := mem
        refine ⟨.range a b, after, k, ⟨⟨digits, high⟩, digits', high'⟩, by simp [FieldText.render],
          behindMem, ?_⟩
        simp only [FieldText.render, FieldText.texts, length_append, length_cons,
          Match.mk.injEq, and_true]
        omega
      · cases mem
    · simp only [mem_map, Prod.exists] at mem
      obtain ⟨k, rest, behindMem, rfl⟩ := mem
      exact ⟨.single a, s', k, ⟨digits, low, high⟩, rfl, behindMem, rfl⟩
    · split at mem
      · simp only [mem_map, Prod.exists] at mem
        obtain ⟨k, rest, behindMem, rfl⟩ := mem
        exact ⟨.star, _, k, trivial, rfl, behindMem, rfl⟩
      · cases mem
  · rintro ⟨f, after, k, wf, rfl, behindMem, eq⟩
    rw [eq]
    cases f with
    | range a b =>
      refine .inl (.inl ⟨a, '.' :: '.' :: (b ++ after),
        ⟨by simp [FieldText.render], wf.1.1, Nat.zero_le _, wf.1.2⟩, ?_⟩)
      simp only [mem_flatMap, Prod.exists, mem_splits, mem_map]
      refine ⟨b, after, ⟨rfl, wf.2.1, Nat.zero_le _, wf.2.2⟩, k, m.rest, behindMem, ?_⟩
      simp only [FieldText.render, FieldText.texts, length_append, length_cons,
        Match.mk.injEq, and_true]
      omega
    | single a =>
      exact .inl (.inr ⟨a, after, ⟨rfl, wf.1, wf.2.1, wf.2.2⟩,
        List.mem_map.2 ⟨(k, m.rest), behindMem, rfl⟩⟩)
    | star => exact .inr (List.mem_map.2 ⟨(k, m.rest), behindMem, rfl⟩)

theorem isField_of_isDigit {c : Char} (digit : c.isDigit = true) : isField c = true := by
  simp [isField, digit]

theorem render_isField (wf : f.Wf single range) : ∀ c ∈ f.render, isField c = true := by
  cases f with
  | star => simp [FieldText.render, isField]
  | single n => exact fun c mem => isField_of_isDigit (wf.1 c mem)
  | range start stop =>
    intro c mem
    simp only [FieldText.render, mem_append, mem_cons] at mem
    rcases mem with mem | rfl | rfl | mem
    · exact isField_of_isDigit (wf.1.1 c mem)
    · rfl
    · rfl
    · exact isField_of_isDigit (wf.2.1 c mem)

theorem dots_not_digits {start stop n : List Char} (digits : Digits n)
    (same : start ++ '.' :: '.' :: stop = n) : False := by
  have dot : '.'.isDigit = true := digits '.' (by simp [← same])
  cases dot

theorem render_inj (wf : f.Wf single range) (wf' : g.Wf single range) (same : g.render = f.render) :
    g = f := by
  have notDigit {n : List Char} (digits : Digits n) (star : n = ['*']) : False := by
    have digit : '*'.isDigit = true := digits '*' (by simp [star])
    cases digit
  have notRange {a b : List Char} (star : a ++ '.' :: '.' :: b = ['*']) : False := by
    have lengths := congrArg List.length star
    simp only [length_append, length_cons, length_nil] at lengths
    omega
  cases f with
  | star =>
    cases g with
    | star => rfl
    | single n => exact (notDigit wf'.1 same).elim
    | range a b => exact (notRange same).elim
  | single n =>
    cases g with
    | star => exact (notDigit wf.1 same.symm).elim
    | single n' => exact congrArg FieldText.single same
    | range a b => exact (dots_not_digits wf.1 same).elim
  | range a b =>
    cases g with
    | star => exact (notRange same.symm).elim
    | single n => exact (dots_not_digits wf'.1 same.symm).elim
    | range a' b' =>
      obtain ⟨rfl, rest⟩ := append_closed (closed_cons rfl _) (closed_cons rfl _) wf.1.1 wf'.1.1
        same
      cases rest
      rfl

theorem closed_field {after after' : List Char} (wf : f.Wf single range) (wf' : g.Wf single range)
    (closed : Closed isField after) (closed' : Closed isField after')
    (same : g.render ++ after' = f.render ++ after) : g = f ∧ after' = after := by
  obtain ⟨texts, rest⟩ := append_closed closed closed' (render_isField wf) (render_isField wf') same
  exact ⟨render_inj wf wf' texts, rest⟩

theorem reading_within {after after' : List Char} (wf : f.Wf single range) (wf' : g.Wf single range)
    (closed : Closed isField after) (same : g.render ++ after' = f.render ++ after) :
    g = f ∧ after' = after ∨ g.render.length < f.render.length := by
  obtain ⟨z, text, rest⟩ := within_closed closed (render_isField wf') same
  cases z with
  | nil => exact .inl ⟨render_inj wf wf' (by simpa using text.symm), rest⟩
  | cons c z =>
    right
    rw [text, length_append, length_cons]
    omega

structure Closing (behind : Behind) : Prop where
  closed : ∀ s p, p ∈ behind s → Closed isField s
  unique : ∀ s p q, p ∈ behind s → q ∈ behind s → p = q

theorem fields_closing (closing : Closing behind) (wf : f.Wf single range)
    {after rest : List Char} {k : Nat}
    (here : (k, rest) ∈ behind after) {m : Match (List Char × List Char)}
    (mem : m ∈ fields single range behind (f.render ++ after)) :
    m = ⟨f.render.length + k, f.texts, rest⟩ := by
  obtain ⟨g, after', j, wf', same, there, eq⟩ := mem_fields.1 mem
  obtain ⟨rfl, rfl⟩ := closed_field wf wf' (closing.closed _ _ here)
    (closing.closed _ _ there) same.symm
  obtain ⟨rfl, rest⟩ := Prod.mk.inj (closing.unique _ _ _ here there)
  rw [eq, rest]

theorem longest_fields (closing : Closing behind) (wf : f.Wf single range)
    {after rest : List Char} {k : Nat}
    (here : (k, rest) ∈ behind after) : longest (fields single range behind (f.render ++ after)) =
      some ⟨f.render.length + k, f.texts, rest⟩ :=
  longest_eq (mem_fields.2 ⟨f, after, k, wf, rfl, here, rfl⟩)
    fun _ mem => .inl (fields_closing closing wf here mem)

end Field

variable {c : Char} {p : Nat × List Char} {s : List Char}

theorem mem_behindChar :
    p ∈ behindChar c s ↔ ∃ rest, s = c :: rest ∧ p = (1, rest) := by
  cases s with
  | nil => simp [behindChar]
  | cons x rest =>
    simp only [behindChar, mem_ite_nil_right, mem_singleton, List.cons.injEq]
    constructor
    · rintro ⟨rfl, rfl⟩
      exact ⟨rest, ⟨rfl, rfl⟩, rfl⟩
    · rintro ⟨_, ⟨rfl, rfl⟩, rfl⟩
      exact ⟨rfl, rfl⟩

theorem mem_behindEnd : p ∈ behindEnd s ↔ s = [] ∧ p = (1, []) := by
  cases s <;> simp [behindEnd]

theorem mem_behindAny : p ∈ behindAny s ↔ p = (0, s) := by
  simp [behindAny]

theorem mem_behindSign :
    p ∈ behindSign s ↔ (∃ c rest, s = c :: rest ∧ isSign c = true) ∧ p = (1, s) := by
  cases s with
  | nil => simp [behindSign]
  | cons x rest =>
    simp only [behindSign, mem_ite_nil_right, mem_singleton, List.cons.injEq]
    constructor
    · rintro ⟨sign, rfl⟩
      exact ⟨⟨x, rest, ⟨rfl, rfl⟩, sign⟩, rfl⟩
    · rintro ⟨⟨_, _, ⟨rfl, rfl⟩, sign⟩, rfl⟩
      exact ⟨sign, rfl⟩

theorem sign_outside (sign : isSign c = true) : isField c = false := by
  simp only [isSign, Bool.or_eq_true, beq_iff_eq] at sign
  rcases sign with rfl | rfl <;> rfl

theorem closing_char (outside : isField c = false) : Closing (behindChar c) := by
  constructor
  · intro s p mem
    obtain ⟨rest, rfl, -⟩ := mem_behindChar.1 mem
    exact closed_cons outside rest
  · intro s p q mem mem'
    obtain ⟨rest, rfl, rfl⟩ := mem_behindChar.1 mem
    obtain ⟨_, same, rfl⟩ := mem_behindChar.1 mem'
    cases same
    rfl

theorem closing_end : Closing behindEnd := by
  constructor
  · intro s p mem
    rw [(mem_behindEnd.1 mem).1]
    exact closed_nil
  · intro s p q mem mem'
    rw [(mem_behindEnd.1 mem).2, (mem_behindEnd.1 mem').2]

theorem closing_sign : Closing behindSign := by
  constructor
  · intro s p mem
    obtain ⟨⟨c, rest, rfl, sign⟩, -⟩ := mem_behindSign.1 mem
    exact closed_cons (sign_outside sign) rest
  · intro s p q mem mem'
    rw [(mem_behindSign.1 mem).2, (mem_behindSign.1 mem').2]

structure ZoneText where
  sign : Char
  hours : List Char
  /-- The scanner reads a colon also without minutes behind it. -/
  colon : Bool
  minutes : List Char
  deriving DecidableEq, Repr

def ZoneText.colonText (z : ZoneText) : List Char := if z.colon then [':'] else []

def ZoneText.render (z : ZoneText) : List Char := z.sign :: (z.hours ++ (z.colonText ++ z.minutes))

structure ZoneText.Wf (z : ZoneText) : Prop where
  sign : isSign z.sign = true
  hours : Digits z.hours ∧ 1 ≤ z.hours.length ∧ z.hours.length ≤ 2
  minutes : Digits z.minutes ∧ (z.minutes.length = 0 ∨ z.minutes.length = 2)

def renderZone : Option ZoneText → List Char
  | none => []
  | some z => z.render

def zoneActions : Option ZoneText → List TimerAction
  | none => []
  | some z => [.timezone (z.sign :: z.hours) z.minutes]

theorem zone_inj {z z' : ZoneText} (wf : z.Wf) (wf' : z'.Wf) (same : z'.render = z.render) :
    z' = z := by
  obtain ⟨sign, hours, colon, minutes⟩ := z
  obtain ⟨sign', hours', colon', minutes'⟩ := z'
  obtain ⟨-, ⟨digits, low, high⟩, ⟨minuteDigits, two⟩⟩ := wf
  obtain ⟨-, ⟨digits', low', high'⟩, ⟨minuteDigits', two'⟩⟩ := wf'
  simp only [ZoneText.render, ZoneText.colonText, List.cons.injEq] at *
  obtain ⟨rfl, same⟩ := same
  have onlyDigits {x y : List Char} (hx : Digits x) (hy : Digits y) : Digits (x ++ y) := by
    intro c mem
    rcases List.mem_append.1 mem with mem | mem
    · exact hx c mem
    · exact hy c mem
  have noColon {x y w : List Char} (only : Digits w) (colon : x ++ ':' :: y = w) : False := by
    have digit : ':'.isDigit = true := only ':' (by simp [← colon])
    cases digit
  cases colon <;> cases colon' <;>
    simp only [Bool.false_eq_true, if_false, if_true, nil_append,
    cons_append] at same
  · -- without a colon the number of the digits tells hours and minutes apart
    have lengths := congrArg List.length same
    simp only [length_append] at lengths
    obtain ⟨rfl, rfl⟩ := append_inj same (by omega)
    rfl
  · exact (noColon (onlyDigits digits minuteDigits) same).elim
  · exact (noColon (onlyDigits digits' minuteDigits') same.symm).elim
  · obtain ⟨rfl, rest⟩ := append_closed (closed_cons rfl _) (closed_cons rfl _) digits digits' same
    cases rest
    rfl

variable {m : Match (List Char × List Char)}

theorem mem_zones : m ∈ zones s ↔
    ∃ z : ZoneText, z.Wf ∧ s = z.render ∧
      m = ⟨z.render.length + 1, (z.sign :: z.hours, z.minutes), []⟩ := by
  cases s with
  | nil => simp [zones, ZoneText.render]
  | cons sign s =>
    simp only [zones, mem_ite_nil_right, mem_flatMap, mem_append,
      Prod.exists, mem_splits,
      mem_behindAny, mem_behindChar, mem_behindEnd, mem_map, Prod.mk.injEq]
    constructor
    · rintro ⟨isSign, h, _, ⟨rfl, digits, low, high⟩, j, s', colon, min, _, minutes, _, _,
        ⟨rfl, rfl, rfl⟩, rfl⟩
      have two : s' = min ∧ Digits min ∧ (min.length = 0 ∨ min.length = 2) := by
        rcases minutes with ⟨same, digits, low, high⟩ | ⟨same, digits, low, high⟩
        · exact ⟨by simpa using same, digits, .inl (by omega)⟩
        · exact ⟨by simpa using same, digits, .inr (by omega)⟩
      obtain ⟨rfl, minuteDigits, two⟩ := two
      rcases colon with ⟨rfl, rfl⟩ | ⟨_, rfl, rfl, rfl⟩
      · refine ⟨⟨sign, h, false, s'⟩, ⟨isSign, ⟨digits, low, high⟩, minuteDigits, two⟩, rfl, ?_⟩
        simp only [ZoneText.render, ZoneText.colonText, Bool.false_eq_true, if_false,
          nil_append,
          length_cons, length_append, Match.mk.injEq, and_true]
        omega
      · refine ⟨⟨sign, h, true, s'⟩, ⟨isSign, ⟨digits, low, high⟩, minuteDigits, two⟩, rfl, ?_⟩
        simp only [ZoneText.render, ZoneText.colonText, if_true, length_cons,
          length_append,
          length_nil, Match.mk.injEq, and_true]
        omega
    · rintro ⟨z, wf, same, rfl⟩
      obtain ⟨rfl, rfl⟩ := List.cons.inj same
      obtain ⟨digits, low, high⟩ := wf.hours
      obtain ⟨minuteDigits, two⟩ := wf.minutes
      refine ⟨wf.sign, z.hours, _, ⟨rfl, digits, low, high⟩, z.colonText.length, z.minutes, ?_,
        z.minutes, [], ?_,
        1, [], ⟨rfl, rfl, rfl⟩, ?_⟩
      · unfold ZoneText.colonText
        cases z.colon
        · exact .inl ⟨rfl, rfl⟩
        · exact .inr ⟨_, rfl, rfl, rfl⟩
      · rcases two with none | two
        · exact .inl ⟨by simp, minuteDigits, by omega, by omega⟩
        · exact .inr ⟨by simp, minuteDigits, by omega, by omega⟩
      · simp only [ZoneText.render, length_cons, length_append, Match.mk.injEq, and_true]
        omega

variable {z : Option ZoneText}

theorem yycTimezone_render (wf : ∀ z' ∈ z, z'.Wf) :
    yycTimezone (renderZone z) = ⟨zoneActions z, some []⟩ := by
  cases z with
  | none => rfl
  | some z =>
    have wf := wf z rfl
    have found : longest (timezoneRules z.render) =
        some ⟨z.render.length + 1, some (z.sign :: z.hours, z.minutes), []⟩ := by
      refine longest_eq (mem_append_right _
        (List.mem_map.2 ⟨_, mem_zones.2 ⟨z, wf, rfl, rfl⟩, rfl⟩)) ?_
      intro m mem
      left
      simp only [timezoneRules, mem_append, mem_map, Prod.exists, mem_behindEnd] at mem
      rcases mem with ⟨k, rest, ⟨none, -⟩, -⟩ | ⟨m', mem, rfl⟩
      · cases none
      · obtain ⟨z', wf', same, rfl⟩ := mem_zones.1 mem
        rw [zone_inj wf wf' same.symm]
        rfl
    rw [renderZone, yycTimezone, found]
    rfl

variable {acts : List TimerAction}

theorem yycTimezone_read {rest : List Char} (read : yycTimezone s = ⟨acts, some rest⟩) :
    ∃ z : Option ZoneText, (∀ z' ∈ z, z'.Wf) ∧ s = renderZone z ∧ acts = zoneActions z ∧
      rest = [] := by
  unfold yycTimezone at read
  cases found : longest (timezoneRules s) with
  | none =>
    rw [found] at read
    cases read
  | some m =>
    rw [found] at read
    have mem := (longest_mem found).1
    simp only [timezoneRules, mem_append, mem_map, Prod.exists, mem_behindEnd] at mem
    rcases mem with ⟨k, rest, ⟨rfl, same⟩, rfl⟩ | ⟨m', mem, rfl⟩
    · cases same
      cases read
      exact ⟨none, absent, rfl, rfl, rfl⟩
    · obtain ⟨z, wf, rfl, rfl⟩ := mem_zones.1 mem
      cases read
      exact ⟨some z, present wf, rfl, rfl, rfl⟩

def Reaches (f : FieldText) (rest : List Char) : Prop :=
  ∀ (g : FieldText) (after : List Char), g.Wf 2 2 → g.render ++ after = f.render ++ rest →
    g.render.length ≤ f.render.length

/-- Behind the seconds the scanner returns without a look at the rest. -/
inductive SecondTail where
  | zone (z : ZoneText)
  | unread (rest : List Char)
  deriving DecidableEq, Repr

structure SecondText where
  field : FieldText
  tail : SecondTail
  deriving DecidableEq, Repr

def SecondTail.render : SecondTail → List Char
  | .zone z => z.render
  | .unread rest => rest

def SecondText.render (t : SecondText) : List Char := t.field.render ++ t.tail.render

def SecondText.actions (t : SecondText) : List TimerAction :=
  .seconds t.field.texts.1 t.field.texts.2 ::
    match t.tail with
    | .zone z => zoneActions (some z)
    | .unread _ => []

def SecondText.rest (t : SecondText) : List Char :=
  match t.tail with
  | .zone _ => []
  | .unread rest => rest

structure SecondText.Wf (t : SecondText) : Prop where
  field : t.field.Wf 2 2
  zone : ∀ z, t.tail = .zone z → z.Wf
  unread : ∀ rest, t.tail = .unread rest → (∀ c ∈ rest.head?, isSign c = false) ∧
    Reaches t.field rest

theorem after_eq {a : TimerAction} {r : Scan} {rest : List Char} :
    r.after a = ⟨acts, some rest⟩ ↔ ∃ acts', acts = a :: acts' ∧ r = ⟨acts', some rest⟩ := by
  obtain ⟨actions, unread⟩ := r
  simp only [Scan.after, Scan.mk.injEq]
  constructor
  · rintro ⟨rfl, rfl⟩
    exact ⟨actions, rfl, rfl, rfl⟩
  · rintro ⟨_, rfl, rfl, rfl⟩
    exact ⟨rfl, rfl⟩

theorem mem_eitherFields {first second : Behind} {m : Match ((List Char × List Char) × Bool)} :
    m ∈ eitherFields first second s ↔
      (∃ m' ∈ fields 2 2 first s, m = m'.map fun texts => (texts, false)) ∨
        ∃ m' ∈ fields 2 2 second s, m = m'.map fun texts => (texts, true) := by
  simp only [eitherFields, mem_append, mem_map, eq_comm]

theorem either_read {first second : Behind} {m : Match ((List Char × List Char) × Bool)}
    (mem : m ∈ eitherFields first second s) :
    ∃ (f : FieldText) (after : List Char) (k : Nat), f.Wf 2 2 ∧ s = f.render ++ after ∧
      (m = ⟨f.render.length + k, (f.texts, false), m.rest⟩ ∧ (k, m.rest) ∈ first after ∨
        m = ⟨f.render.length + k, (f.texts, true), m.rest⟩ ∧ (k, m.rest) ∈ second after) := by
  rcases mem_eitherFields.1 mem with ⟨m', mem', rfl⟩ | ⟨m', mem', rfl⟩
  · obtain ⟨f, after, k, wf, rfl, here, eq⟩ := mem_fields.1 mem'
    refine ⟨f, after, k, wf, rfl, .inl ⟨?_, here⟩⟩
    conv_lhs => rw [eq]
    rfl
  · obtain ⟨f, after, k, wf, rfl, here, eq⟩ := mem_fields.1 mem'
    refine ⟨f, after, k, wf, rfl, .inr ⟨?_, here⟩⟩
    conv_lhs => rw [eq]
    rfl

section Either

variable (first second : Behind) {f : FieldText} {after rest : List Char} {k : Nat}

variable {second} in
theorem longest_second (closing : Closing second) (wf : f.Wf 2 2) (here : (k, rest) ∈ second after)
    (shorter : ∀ m ∈ fields 2 2 first (f.render ++ after), m.look < f.render.length + k) :
    longest (eitherFields first second (f.render ++ after)) =
      some ⟨f.render.length + k, (f.texts, true), rest⟩ := by
  have mine := (mem_fields (m := ⟨f.render.length + k, f.texts, rest⟩)).2
    ⟨f, after, k, wf, rfl, here, rfl⟩
  refine longest_eq (mem_eitherFields.2 (.inr ⟨_, mine, rfl⟩)) ?_
  intro m mem
  rcases mem_eitherFields.1 mem with ⟨m', mem', rfl⟩ | ⟨m', mem', rfl⟩
  · exact .inr (shorter m' mem')
  · rw [fields_closing closing wf here mem']
    exact .inl rfl

variable {first} in
theorem longest_first (wf : f.Wf 2 2) (here : (k, rest) ∈ first after)
    (shorter : ∀ m ∈ fields 2 2 first (f.render ++ after),
      m = ⟨f.render.length + k, f.texts, rest⟩ ∨
      m.look < f.render.length + k)
    (closing : ∀ m ∈ fields 2 2 second (f.render ++ after), m.look < f.render.length + k) :
    longest (eitherFields first second (f.render ++ after)) =
      some ⟨f.render.length + k, (f.texts, false), rest⟩ := by
  have mine := (mem_fields (m := ⟨f.render.length + k, f.texts, rest⟩)).2
    ⟨f, after, k, wf, rfl, here, rfl⟩
  refine longest_eq (mem_eitherFields.2 (.inl ⟨_, mine, rfl⟩)) ?_
  intro m mem
  rcases mem_eitherFields.1 mem with ⟨m', mem', rfl⟩ | ⟨m', mem', rfl⟩
  · rcases shorter m' mem' with rfl | less
    · exact .inl rfl
    · exact .inr less
  · exact .inr (closing m' mem')

end Either

variable {f : FieldText} {after : List Char}

theorem any_within (wf : f.Wf 2 2) (closed : Closed isField after)
    (mem : m ∈ fields 2 2 behindAny (f.render ++ after)) :
    m = ⟨f.render.length + 0, f.texts, after⟩ ∨ m.look < f.render.length := by
  obtain ⟨g, after', k, wf', same, here, eq⟩ := mem_fields.1 mem
  obtain ⟨rfl, rest⟩ := Prod.mk.inj (mem_behindAny.1 here)
  rcases reading_within wf wf' closed same.symm with ⟨rfl, rfl⟩ | less
  · rw [eq, rest]
    exact .inl rfl
  · rw [eq]
    exact .inr less

theorem sign_not_within {g : FieldText} {rest : List Char} (wf : f.Wf 2 2)
    (noSign : ∀ c ∈ rest.head?, isSign c = false) (within : g.render.length ≤ f.render.length)
    (sign : isSign c = true) (same : g.render ++ c :: after = f.render ++ rest) : False := by
  have head {x : List Char} (here : c :: after = x ++ rest) (inside : ∀ c ∈ x, isField c = true) :
    False := by
    cases x with
    | nil =>
      have none := noSign c (by rw [nil_append] at here; rw [← here]; rfl)
      rw [sign] at none
      cases none
    | cons y x =>
      have member := inside y (by simp)
      rw [← (List.cons.inj here).1, sign_outside sign] at member
      cases member
  rcases List.append_eq_append_iff.1 same with ⟨z, text, here⟩ | ⟨z, text, here⟩
  · exact head here fun x mem => render_isField wf x
      (by rw [text]; exact mem_append_right _ mem)
  · have none : z = [] := by
      have lengths := congrArg List.length text
      rw [length_append] at lengths
      exact eq_nil_of_length_eq_zero (by omega)
    subst none
    exact head (x := []) here.symm fun x mem => by cases mem

theorem yycSecond_zone (wf : f.Wf 2 2) (sign : isSign c = true) :
    yycSecond (f.render ++ c :: after) =
      (yycTimezone (c :: after)).after (.seconds f.texts.1 f.texts.2) := by
  have found := longest_second behindAny closing_sign wf
    (mem_behindSign.2 ⟨⟨c, after, rfl, sign⟩, rfl⟩) fun m mem => by
      rcases any_within wf (closed_cons (sign_outside sign) after) mem with rfl | less
      · exact Nat.lt_succ_self _
      · omega
  rw [yycSecond, found]

theorem yycSecond_unread {rest : List Char} (wf : f.Wf 2 2)
    (noSign : ∀ c ∈ rest.head?, isSign c = false) (reaches : Reaches f rest) :
    yycSecond (f.render ++ rest) = (accept rest).after (.seconds f.texts.1 f.texts.2) := by
  have found := longest_first behindSign wf (mem_behindAny.2 rfl : (0, rest) ∈ behindAny rest)
    (fun m mem => by
      obtain ⟨g, after, k, wf', same, here, eq⟩ := mem_fields.1 mem
      obtain ⟨rfl, rest'⟩ := Prod.mk.inj (mem_behindAny.1 here)
      rcases Nat.lt_or_eq_of_le (reaches g after wf' same.symm) with less | equal
      · rw [eq]
        exact .inr less
      · obtain ⟨text, rfl⟩ := append_inj same.symm equal
        obtain rfl := render_inj wf wf' text
        rw [eq, rest']
        exact .inl rfl)
    (fun m mem => by
      obtain ⟨g, after, k, wf', same, here, -⟩ := mem_fields.1 mem
      obtain ⟨⟨c, after', rfl, sign⟩, -⟩ := mem_behindSign.1 here
      exact (sign_not_within wf noSign (reaches g _ wf' same.symm) sign same.symm).elim)
  rw [yycSecond, found]

theorem yycSecond_render {t : SecondText} (wf : t.Wf) :
    yycSecond t.render = ⟨t.actions, some t.rest⟩ := by
  obtain ⟨f, tail⟩ := t
  obtain ⟨field, zone, unread⟩ := wf
  cases tail with
  | zone z =>
    have wf := zone z rfl
    have tz := yycTimezone_render (z := some z) (present wf)
    exact (yycSecond_zone field wf.sign).trans (after_eq.2 ⟨_, rfl, tz⟩)
  | unread rest =>
    obtain ⟨noSign, reaches⟩ := unread rest rfl
    exact (yycSecond_unread field noSign reaches).trans (after_eq.2 ⟨_, rfl, rfl⟩)

/-- Where the scanner returns behind the seconds, it has read as much as it can. -/
theorem unread_wf {rest : List Char} (wf : f.Wf 2 2)
    (all : ∀ m ∈ eitherFields behindAny behindSign (f.render ++ rest), m.look ≤ f.render.length) :
    (∀ c ∈ rest.head?, isSign c = false) ∧ Reaches f rest := by
  constructor
  · intro c head
    obtain ⟨tail, rfl⟩ : ∃ tail, rest = c :: tail := by
      cases rest with
      | nil => cases head
      | cons x tail => exact ⟨tail, by cases head; rfl⟩
    by_contra sign
    have mem := mem_behindSign.2 ⟨⟨c, tail, rfl, by simpa using sign⟩, rfl⟩
    have longer := all _ (mem_eitherFields.2 (.inr ⟨⟨f.render.length + 1, f.texts, c :: tail⟩,
      mem_fields.2 ⟨f, c :: tail, 1, wf, rfl, mem, rfl⟩, rfl⟩))
    simp only [Match.map] at longer
    omega
  · intro g after wf' same
    exact all _ (mem_eitherFields.2 (.inl ⟨⟨g.render.length + 0, g.texts, after⟩,
      mem_fields.2 ⟨g, after, 0, wf', same.symm, mem_behindAny.2 rfl, rfl⟩, rfl⟩))

theorem yycSecond_read {rest : List Char} (read : yycSecond s = ⟨acts, some rest⟩) :
    ∃ t : SecondText, t.Wf ∧ s = t.render ∧ acts = t.actions ∧ rest = t.rest := by
  unfold yycSecond at read
  cases found : longest (eitherFields behindAny behindSign s) with
  | none =>
    rw [found] at read
    cases read
  | some m =>
    rw [found] at read
    obtain ⟨mem, all⟩ := longest_mem found
    obtain ⟨f, after, k, wf, rfl, ⟨eq, here⟩ | ⟨eq, here⟩⟩ := either_read mem
    · obtain ⟨rfl, rest'⟩ := Prod.mk.inj (mem_behindAny.1 here)
      rw [eq] at read all
      rw [rest'] at read
      obtain ⟨acts', rfl, accepted⟩ := after_eq.1 read
      cases accepted
      exact ⟨⟨f, .unread rest⟩, ⟨wf, (fun _ none => by cases none),
        fun _ same => by cases same; exact unread_wf wf all⟩,
        rfl, rfl, rfl⟩
    · obtain ⟨⟨c, after', rfl, sign⟩, counted⟩ := mem_behindSign.1 here
      obtain ⟨-, rest'⟩ := Prod.mk.inj counted
      rw [eq, rest'] at read
      obtain ⟨acts', rfl, zone⟩ := after_eq.1 read
      obtain ⟨z, zoneWf, same, rfl, rfl⟩ := yycTimezone_read zone
      cases z with
      | none => cases same
      | some z =>
        rw [same]
        exact ⟨⟨f, .zone z⟩, ⟨wf, (fun _ eq => by cases eq; exact zoneWf z rfl),
          (fun _ none => by cases none)⟩,
          rfl, rfl, rfl⟩

inductive MinuteTail where
  | zone (z : Option ZoneText)
  | second (t : SecondText)
  deriving DecidableEq, Repr

structure TimeText where
  hour : FieldText
  minute : FieldText
  tail : MinuteTail
  deriving DecidableEq, Repr

def MinuteTail.render : MinuteTail → List Char
  | .zone z => renderZone z
  | .second t => ':' :: t.render

def MinuteTail.actions : MinuteTail → List TimerAction
  | .zone z => zoneActions z
  | .second t => t.actions

def MinuteTail.rest : MinuteTail → List Char
  | .zone _ => []
  | .second t => t.rest

def MinuteTail.Wf : MinuteTail → Prop
  | .zone z => ∀ z' ∈ z, z'.Wf
  | .second t => t.Wf

def TimeText.render (t : TimeText) : List Char :=
  t.hour.render ++ ':' :: (t.minute.render ++ t.tail.render)

def TimeText.actions (t : TimeText) : List TimerAction :=
  .hours t.hour.texts.1 t.hour.texts.2 :: .minutes t.minute.texts.1 t.minute.texts.2 ::
    t.tail.actions

structure TimeText.Wf (t : TimeText) : Prop where
  hour : t.hour.Wf 2 2
  minute : t.minute.Wf 2 2
  tail : t.tail.Wf

theorem zone_head (wf : ∀ z' ∈ z, z'.Wf) : ∀ c ∈ (renderZone z).head?, isSign c = true := by
  intro c head
  cases z with
  | none => cases head
  | some z =>
    cases head
    exact (wf z rfl).sign

theorem yycMinute_zone (wf : f.Wf 2 2) (zone : ∀ z' ∈ z, z'.Wf) :
    yycMinute (f.render ++ renderZone z) =
      (yycTimezone (renderZone z)).after (.minutes f.texts.1 f.texts.2) := by
  have closed : Closed isField (renderZone z) := fun c head => sign_outside (zone_head zone c head)
  have found := longest_first (behindChar ':') wf (mem_behindAny.2 rfl : (0, renderZone z) ∈
    behindAny (renderZone z)) (fun m mem => any_within wf closed mem)
    (fun m mem => by
      obtain ⟨g, after, k, wf', same, here, -⟩ := mem_fields.1 mem
      obtain ⟨after', rfl, -⟩ := mem_behindChar.1 here
      obtain ⟨-, colon⟩ := closed_field wf wf' closed (closed_cons rfl after') same.symm
      have sign := zone_head zone ':' (by rw [← colon]; rfl)
      cases sign)
  rw [yycMinute, found]

theorem yycMinute_second (wf : f.Wf 2 2) :
    yycMinute (f.render ++ ':' :: after) =
      (yycSecond after).after (.minutes f.texts.1 f.texts.2) := by
  have found := longest_second behindAny (closing_char (c := ':') rfl) wf
    (mem_behindChar.2 ⟨after, rfl, rfl⟩) fun m mem => by
      rcases any_within wf (closed_cons rfl after) mem with rfl | less
      · exact Nat.lt_succ_self _
      · omega
  rw [yycMinute, found]

theorem yycHour_minute (wf : f.Wf 2 2) :
    yycHour (f.render ++ ':' :: after) = (yycMinute after).after (.hours f.texts.1 f.texts.2) := by
  have found := longest_fields (closing_char (c := ':') rfl) wf (mem_behindChar.2 ⟨after, rfl, rfl⟩)
  rw [yycHour, found]

theorem yycHour_render {t : TimeText} (wf : t.Wf) :
    yycHour t.render = ⟨t.actions, some t.tail.rest⟩ := by
  obtain ⟨hour, minute, tail⟩ := t
  obtain ⟨hourWf, minuteWf, tailWf⟩ := wf
  refine (yycHour_minute hourWf).trans (after_eq.2 ⟨_, rfl, ?_⟩)
  cases tail with
  | zone z =>
    exact (yycMinute_zone minuteWf tailWf).trans (after_eq.2 ⟨_, rfl, yycTimezone_render tailWf⟩)
  | second t =>
    exact (yycMinute_second minuteWf).trans (after_eq.2 ⟨_, rfl, yycSecond_render tailWf⟩)

theorem yycMinute_read {rest : List Char} (read : yycMinute s = ⟨acts, some rest⟩) :
    ∃ (f : FieldText) (tail : MinuteTail), f.Wf 2 2 ∧ tail.Wf ∧ s = f.render ++ tail.render ∧
      acts = .minutes f.texts.1 f.texts.2 :: tail.actions ∧ rest = tail.rest := by
  unfold yycMinute at read
  cases found : longest (eitherFields behindAny (behindChar ':') s) with
  | none =>
    rw [found] at read
    cases read
  | some m =>
    rw [found] at read
    obtain ⟨f, after, k, wf, rfl, ⟨eq, here⟩ | ⟨eq, here⟩⟩ := either_read (longest_mem found).1
    · obtain ⟨-, rest'⟩ := Prod.mk.inj (mem_behindAny.1 here)
      rw [eq, rest'] at read
      obtain ⟨acts', rfl, zone⟩ := after_eq.1 read
      obtain ⟨z, zoneWf, rfl, rfl, rfl⟩ := yycTimezone_read zone
      exact ⟨f, .zone z, wf, zoneWf, rfl, rfl, rfl⟩
    · obtain ⟨after', rfl, counted⟩ := mem_behindChar.1 here
      obtain ⟨-, rest'⟩ := Prod.mk.inj counted
      rw [eq, rest'] at read
      obtain ⟨acts', rfl, second⟩ := after_eq.1 read
      obtain ⟨t, secondWf, rfl, rfl, rfl⟩ := yycSecond_read second
      exact ⟨f, .second t, wf, secondWf, rfl, rfl, rfl⟩

theorem fields_read {single range : Nat} (mem : m ∈ fields single range (behindChar c) s) :
    ∃ (f : FieldText) (after : List Char), f.Wf single range ∧ s = f.render ++ c :: after ∧
      m = ⟨f.render.length + 1, f.texts, after⟩ := by
  obtain ⟨f, _, k, wf, rfl, here, eq⟩ := mem_fields.1 mem
  obtain ⟨after, rfl, counted⟩ := mem_behindChar.1 here
  obtain ⟨rfl, rest⟩ := Prod.mk.inj counted
  rw [rest] at eq
  exact ⟨f, after, wf, rfl, eq⟩

theorem yycHour_read {rest : List Char} (read : yycHour s = ⟨acts, some rest⟩) :
    ∃ t : TimeText, t.Wf ∧ s = t.render ∧ acts = t.actions ∧ rest = t.tail.rest := by
  unfold yycHour at read
  cases found : longest (fields 2 2 (behindChar ':') s) with
  | none =>
    rw [found] at read
    cases read
  | some m =>
    rw [found] at read
    obtain ⟨f, after, wf, rfl, rfl⟩ := fields_read (longest_mem found).1
    obtain ⟨acts', rfl, minute⟩ := after_eq.1 read
    obtain ⟨g, tail, wf', tailWf, rfl, rfl, rfl⟩ := yycMinute_read minute
    exact ⟨⟨f, g, tail⟩, ⟨wf, wf', tailWf⟩, rfl, rfl, rfl⟩

structure DateText where
  year : FieldText
  month : FieldText
  day : FieldText
  time : Option TimeText
  deriving DecidableEq, Repr

def renderTime : Option TimeText → List Char
  | none => []
  | some t => '-' :: t.render

def timeActions : Option TimeText → List TimerAction
  | none => []
  | some t => t.actions

def timeRest : Option TimeText → List Char
  | none => []
  | some t => t.tail.rest

def DateText.render (d : DateText) : List Char :=
  d.year.render ++ '-' :: (d.month.render ++ '-' :: (d.day.render ++ renderTime d.time))

def DateText.actions (d : DateText) : List TimerAction :=
  .years d.year.texts.1 d.year.texts.2 :: .month d.month.texts.1 d.month.texts.2 ::
    .days d.day.texts.1 d.day.texts.2 :: timeActions d.time

structure DateText.Wf (digits : Nat) (d : DateText) : Prop where
  year : d.year.Wf digits 5
  month : d.month.Wf 2 2
  day : d.day.Wf 2 2
  time : ∀ t ∈ d.time, t.Wf

inductive DateTime where
  | date (d : DateText)
  | time (t : TimeText)
  deriving DecidableEq, Repr

def DateTime.render : DateTime → List Char
  | .date d => d.render
  | .time t => t.render

def DateTime.actions : DateTime → List TimerAction
  | .date d => d.actions
  | .time t => t.actions

def DateTime.rest : DateTime → List Char
  | .date d => timeRest d.time
  | .time t => t.tail.rest

def DateTime.Wf (digits : Nat) : DateTime → Prop
  | .date d => d.Wf digits
  | .time t => t.Wf

theorem yycDay_render {time : Option TimeText} (wf : f.Wf 2 2) (timeWf : ∀ t ∈ time, t.Wf) :
    yycDay (f.render ++ renderTime time) =
      ⟨.days f.texts.1 f.texts.2 :: timeActions time, some (timeRest time)⟩ := by
  cases time with
  | none =>
    have found := longest_first (behindChar '-') wf
      (mem_behindEnd.2 ⟨rfl, rfl⟩ : (1, []) ∈ behindEnd [])
      (fun m mem => .inl (fields_closing closing_end wf (mem_behindEnd.2 ⟨rfl, rfl⟩) mem))
      (fun m mem => by
        obtain ⟨g, after, wf', same, -⟩ := fields_read mem
        obtain ⟨-, none⟩ := closed_field wf wf' closed_nil (closed_cons rfl after) same.symm
        cases none)
    rw [renderTime, yycDay, found]
    rfl
  | some t =>
    have found := longest_second behindEnd (closing_char (c := '-') rfl) wf
      (mem_behindChar.2 ⟨t.render, rfl, rfl⟩) fun m mem => by
        obtain ⟨g, after, k, wf', same, here, -⟩ := mem_fields.1 mem
        obtain ⟨rfl, -⟩ := mem_behindEnd.1 here
        obtain ⟨-, none⟩ := closed_field wf wf' (closed_cons rfl t.render) closed_nil same.symm
        cases none
    rw [renderTime, yycDay, found]
    exact after_eq.2 ⟨_, rfl, yycHour_render (timeWf t rfl)⟩

theorem yycDay_read {rest : List Char} (read : yycDay s = ⟨acts, some rest⟩) :
    ∃ (f : FieldText) (time : Option TimeText), f.Wf 2 2 ∧ (∀ t ∈ time, t.Wf) ∧
      s = f.render ++ renderTime time ∧ acts = .days f.texts.1 f.texts.2 :: timeActions time ∧
      rest = timeRest time := by
  unfold yycDay at read
  cases found : longest (eitherFields behindEnd (behindChar '-') s) with
  | none =>
    rw [found] at read
    cases read
  | some m =>
    rw [found] at read
    obtain ⟨f, after, k, wf, rfl, ⟨eq, here⟩ | ⟨eq, here⟩⟩ := either_read (longest_mem found).1
    · obtain ⟨rfl, counted⟩ := mem_behindEnd.1 here
      obtain ⟨-, rest'⟩ := Prod.mk.inj counted
      rw [eq, rest'] at read
      obtain ⟨acts', rfl, accepted⟩ := after_eq.1 read
      cases accepted
      exact ⟨f, none, wf, absent, rfl, rfl, rfl⟩
    · obtain ⟨after', rfl, counted⟩ := mem_behindChar.1 here
      obtain ⟨-, rest'⟩ := Prod.mk.inj counted
      rw [eq, rest'] at read
      obtain ⟨acts', rfl, hour⟩ := after_eq.1 read
      obtain ⟨t, timeWf, rfl, rfl, rfl⟩ := yycHour_read hour
      exact ⟨f, some t, wf, present timeWf, rfl, rfl, rfl⟩

theorem mem_lookHour {k : Nat} : k ∈ lookHour s ↔ ∃ x after : List Char,
    s = x ++ ':' :: after ∧ (∀ c ∈ x, isField c = true) ∧ 1 ≤ x.length ∧ x.length ≤ 6 ∧
      k = x.length + 1 := by
  simp only [lookHour, mem_flatMap, Prod.exists, mem_splits, mem_map, mem_behindChar]
  constructor
  · rintro ⟨x, _, ⟨rfl, all, low, high⟩, j, rest, ⟨after, rfl, same⟩, rfl⟩
    cases same
    exact ⟨x, rest, rfl, all, low, high, rfl⟩
  · rintro ⟨x, after, rfl, all, low, high, rfl⟩
    exact ⟨x, _, ⟨rfl, all, low, high⟩, 1, after, ⟨after, rfl, rfl⟩, rfl⟩

theorem render_length {single range : Nat} (wf : f.Wf single range) :
    1 ≤ f.render.length ∧ (f.render.length ≤ 1 ∨ f.render.length ≤ single ∨
      f.render.length ≤ 2 * range + 2) := by
  cases f with
  | star => exact ⟨Nat.le_refl _, .inl (Nat.le_refl _)⟩
  | single n => exact ⟨wf.2.1, .inr (.inl wf.2.2)⟩
  | range a b =>
    have first := wf.1.2
    have second := wf.2.2
    simp only [FieldText.render, length_append, length_cons]
    omega

theorem yycYear_date (wf : f.Wf 4 5) :
    yycYear (f.render ++ '-' :: after) = (yycMonth after).after (.years f.texts.1 f.texts.2) := by
  have here : (1, after) ∈ behindChar '-' ('-' :: after) := mem_behindChar.2 ⟨after, rfl, rfl⟩
  have found : longest (yearRules (f.render ++ '-' :: after)) =
      some ⟨f.render.length + 1, some f.texts, after⟩ := by
    refine longest_eq (mem_append_left _ (List.mem_map.2
      ⟨⟨f.render.length + 1, f.texts, after⟩, mem_fields.2 ⟨f, _, 1, wf, rfl, here, rfl⟩, rfl⟩)) ?_
    intro m mem
    left
    simp only [yearRules, mem_append, mem_map, mem_lookHour] at mem
    rcases mem with ⟨m', mem, rfl⟩ | ⟨_, ⟨x, after', same, all, -, -, rfl⟩, rfl⟩
    · rw [fields_closing (closing_char rfl) wf here mem]
      rfl
    · obtain ⟨-, colon⟩ := append_closed (closed_cons rfl _) (closed_cons rfl after')
        (render_isField wf) all same.symm
      cases colon
  rw [yycYear, found]

theorem yycMonth_day (wf : f.Wf 2 2) :
    yycMonth (f.render ++ '-' :: after) = (yycDay after).after (.month f.texts.1 f.texts.2) := by
  have found := longest_fields (closing_char (c := '-') rfl) wf (mem_behindChar.2 ⟨after, rfl, rfl⟩)
  rw [yycMonth, found]

theorem yycMonth_read {rest : List Char} (read : yycMonth s = ⟨acts, some rest⟩) :
    ∃ (f g : FieldText) (time : Option TimeText), f.Wf 2 2 ∧ g.Wf 2 2 ∧ (∀ t ∈ time, t.Wf) ∧
      s = f.render ++ '-' :: (g.render ++ renderTime time) ∧
      acts = .month f.texts.1 f.texts.2 :: .days g.texts.1 g.texts.2 :: timeActions time ∧
      rest = timeRest time := by
  unfold yycMonth at read
  cases found : longest (fields 2 2 (behindChar '-') s) with
  | none =>
    rw [found] at read
    cases read
  | some m =>
    rw [found] at read
    obtain ⟨f, after, wf, rfl, rfl⟩ := fields_read (longest_mem found).1
    obtain ⟨acts', rfl, day⟩ := after_eq.1 read
    obtain ⟨g, time, dayWf, timeWf, rfl, rfl, rfl⟩ := yycDay_read day
    exact ⟨f, g, time, wf, dayWf, timeWf, rfl, rfl, rfl⟩

theorem yycYear_hour (wf : f.Wf 2 2) :
    yycYear (f.render ++ ':' :: after) = yycHour (f.render ++ ':' :: after) := by
  have length := render_length wf
  have found : longest (yearRules (f.render ++ ':' :: after)) =
      some ⟨f.render.length + 1, none, f.render ++ ':' :: after⟩ := by
    refine longest_eq (mem_append_right _ (List.mem_map.2 ⟨f.render.length + 1, ?_, rfl⟩)) ?_
    · exact mem_lookHour.2 ⟨f.render, after, rfl, render_isField wf, length.1, by omega, rfl⟩
    · intro m mem
      left
      simp only [yearRules, mem_append, mem_map, mem_lookHour] at mem
      rcases mem with ⟨m', mem, rfl⟩ | ⟨_, ⟨x, after', same, all, -, -, rfl⟩, rfl⟩
      · obtain ⟨g, after', wf', same, -⟩ := fields_read mem
        obtain ⟨-, colon⟩ := append_closed (closed_cons rfl _) (closed_cons rfl after')
          (render_isField wf) (render_isField wf') same.symm
        cases colon
      · obtain ⟨rfl, -⟩ := append_closed (closed_cons rfl _) (closed_cons rfl after')
          (render_isField wf) all same.symm
        rfl
  rw [yycYear, found]

theorem yycYear_render {a : DateTime} (wf : a.Wf 4) :
    yycYear a.render = ⟨a.actions, some a.rest⟩ := by
  cases a with
  | date d =>
    refine (yycYear_date wf.year).trans (after_eq.2 ⟨_, rfl, ?_⟩)
    exact (yycMonth_day wf.month).trans (after_eq.2 ⟨_, rfl, yycDay_render wf.day wf.time⟩)
  | time t => exact (yycYear_hour wf.hour).trans (yycHour_render wf)

theorem yycYear_read {rest : List Char} (read : yycYear s = ⟨acts, some rest⟩) :
    ∃ a : DateTime, a.Wf 4 ∧ s = a.render ∧ acts = a.actions ∧ rest = a.rest := by
  unfold yycYear at read
  cases found : longest (yearRules s) with
  | none =>
    rw [found] at read
    cases read
  | some m =>
    rw [found] at read
    have mem := (longest_mem found).1
    simp only [yearRules, mem_append, mem_map, mem_lookHour] at mem
    rcases mem with ⟨m', mem, rfl⟩ | ⟨_, -, rfl⟩
    · obtain ⟨f, after, wf, rfl, rfl⟩ := fields_read mem
      obtain ⟨acts', rfl, month⟩ := after_eq.1 read
      obtain ⟨g, h, time, monthWf, dayWf, timeWf, rfl, rfl, rfl⟩ := yycMonth_read month
      exact ⟨.date ⟨f, g, h, time⟩, ⟨wf, monthWf, dayWf, timeWf⟩, rfl, rfl, rfl⟩
    · obtain ⟨t, wf, rfl, rfl, rfl⟩ := yycHour_read read
      exact ⟨.time t, wf, rfl, rfl, rfl⟩

end Crinit
