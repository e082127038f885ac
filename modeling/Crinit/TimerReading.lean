import Crinit.TimerText

/-! How the scanner reads a whole timer string: the weekdays in front of the date and the time, and
the shorthands. -/
namespace Crinit

open List Scanner

def Weekday.names (w : Weekday) : List (List Char) := [w.short, w.long]

def Weekday.Named (w : Weekday) (word : List Char) : Prop := word.map Char.toLower ∈ w.names

variable {s : List Char}

theorem mem_literal {w : List Char} {p : Nat × List Char} : p ∈ literal w s ↔
    ∃ word rest : List Char, s = word ++ rest ∧ word.map Char.toLower = w ∧
      p = (word.length, rest) := by
  simp only [literal, mem_ite_nil_right, mem_singleton]
  constructor
  · rintro ⟨same, rfl⟩
    refine ⟨s.take w.length, s.drop w.length, (take_append_drop _ _).symm, same, ?_⟩
    have lengths := congrArg List.length same
    rw [length_map] at lengths
    rw [lengths]
  · rintro ⟨word, rest, rfl, rfl, rfl⟩
    simp

theorem mem_wday {m : Match Weekday} : m ∈ wday s ↔
    ∃ word rest : List Char, s = word ++ rest ∧ m.tag.Named word ∧
      m = ⟨word.length, m.tag, rest⟩ := by
  simp only [wday, mem_flatMap, mem_map, mem_append, Prod.exists, mem_literal, Prod.mk.injEq]
  constructor
  · rintro ⟨w, -, k, rest, ⟨word, _, rfl, named, rfl, rfl⟩ | ⟨word, _, rfl, named, rfl, rfl⟩, rfl⟩
    · exact ⟨word, rest, rfl, List.mem_cons.2 (.inl named), rfl⟩
    · exact ⟨word, rest, rfl, mem_cons_of_mem _ (List.mem_singleton.2 named), rfl⟩
  · rintro ⟨word, rest, rfl, named, same⟩
    refine ⟨m.tag, by cases m.tag <;> decide, word.length, rest, ?_, same.symm⟩
    rcases List.mem_cons.1 named with short | long
    · exact .inl ⟨word, rest, rfl, short, rfl, rfl⟩
    · exact .inr ⟨word, rest, rfl, List.mem_singleton.1 long, rfl, rfl⟩

variable {c : Char}

theorem isAlpha_of_toLower (lower : c.toLower.isAlpha = true) : c.isAlpha = true := by
  unfold Char.toLower at lower
  split at lower
  · rename_i upper
    have isUpper : c.isUpper = true := decide_eq_true upper
    change (c.isUpper || c.isLower) = true
    rw [isUpper, Bool.true_or]
  · exact lower

theorem names_alpha (w : Weekday) : ∀ name ∈ w.names, name ≠ [] ∧ ∀ c ∈ name, c.isAlpha = true := by
  have table : ∀ name ∈ w.names, name ≠ [] ∧ name.all Char.isAlpha = true := by cases w <;> decide
  exact fun name mem => ⟨(table name mem).1, List.all_eq_true.1 (table name mem).2⟩

theorem shorthand_alpha (name : Shorthand) :
    name.name ≠ [] ∧ ∀ c ∈ name.name, c.isAlpha = true := by
  have table : name.name ≠ [] ∧ name.name.all Char.isAlpha = true := by cases name <;> decide
  exact ⟨table.1, List.all_eq_true.1 table.2⟩

variable {word : List Char}

theorem word_alpha {name : List Char} (same : word.map Char.toLower = name)
    (alpha : ∀ c ∈ name, c.isAlpha = true) : ∀ c ∈ word, c.isAlpha = true := by
  intro c mem
  exact isAlpha_of_toLower (alpha _ (same ▸ mem_map_of_mem mem))

variable {w : Weekday}

theorem named_alpha (named : w.Named word) : ∀ c ∈ word, c.isAlpha = true :=
  word_alpha rfl (names_alpha w _ named).2

theorem named_head (named : w.Named word) :
    ∃ (c : Char) (word' : List Char), word = c :: word' ∧ c.isAlpha = true := by
  cases word with
  | nil => exact ((names_alpha w _ named).1 rfl).elim
  | cons c word' => exact ⟨c, word', rfl, named_alpha named c mem_cons_self⟩

theorem names_start : ∀ w ∈ Weekday.all, ∀ w' ∈ Weekday.all, ∀ name ∈ w.names, ∀ name' ∈ w'.names,
    name'.isPrefixOf name = true → w' = w := by
  decide

theorem mem_all (w : Weekday) : w ∈ Weekday.all := by
  cases w <;> decide

theorem named_start {w' : Weekday} {z : List Char} (named : w.Named (word ++ z))
    (named' : w'.Named word) : w' = w := by
  refine names_start w (mem_all w) w' (mem_all w') _ named _ named' ?_
  simp

theorem wday_word {rest : List Char} (named : w.Named word) (closed : Closed Char.isAlpha rest)
    {m : Match Weekday} (mem : m ∈ wday (word ++ rest)) :
    m = ⟨word.length, w, rest⟩ ∨ m.look < word.length := by
  obtain ⟨word', rest', same, named', eq⟩ := mem_wday.1 mem
  obtain ⟨z, rfl, rfl⟩ := within_closed closed (named_alpha named') same.symm
  obtain rfl := named_start named named'
  cases z with
  | nil =>
    left
    rw [eq]
    simp
  | cons c z =>
    right
    rw [eq]
    simp

theorem wday_closed (closed : Closed Char.isAlpha s) : wday s = [] := by
  refine List.eq_nil_iff_forall_not_mem.2 fun m mem => ?_
  obtain ⟨word, rest, rfl, named, -⟩ := mem_wday.1 mem
  obtain ⟨c, word', rfl, alpha⟩ := named_head named
  have outside := closed c rfl
  rw [alpha] at outside
  cases outside

/-! ### How far the trailing contexts look

The rules that look ahead for a date or an hour count the groups between the dashes. -/

/-- `('-' y)` for each group. -/
def dashed : List (List Char) → List Char → List Char
  | [], after => after
  | y :: ys, after => '-' :: (y ++ dashed ys after)

def Group (high : Nat) (x : List Char) : Prop :=
  (∀ c ∈ x, isField c = true) ∧ 1 ≤ x.length ∧ x.length ≤ high

def isPart (c : Char) : Bool := isField c || c == '-'

variable {n k : Nat}

theorem mem_lookGroups {rest : List Char} : (k, rest) ∈ lookGroups n s ↔ ∃ ys :
    List (List Char),
    ys.length = n ∧ (∀ y ∈ ys, Group 6 y) ∧ s = dashed ys rest ∧ k = (dashed ys []).length := by
  induction n generalizing s k rest with
  | zero =>
    simp only [lookGroups, mem_singleton, Prod.mk.injEq, length_eq_zero_iff]
    constructor
    · rintro ⟨rfl, rfl⟩
      exact ⟨[], rfl, forall_mem_nil _, rfl, rfl⟩
    · rintro ⟨_, rfl, -, rfl, rfl⟩
      exact ⟨rfl, rfl⟩
  | succ n ih =>
    constructor
    · intro mem
      unfold lookGroups at mem
      split at mem
      · contradiction
      · rename_i s' n' same
        cases same
        simp only [mem_flatMap, Prod.exists, mem_splits, mem_map, ih, Prod.mk.injEq] at mem
        obtain ⟨y, after, ⟨rfl, all, low, high⟩, j, rest', ⟨ys, rfl, groups, rfl, rfl⟩, rfl, rfl⟩ :=
          mem
        refine ⟨y :: ys, rfl, List.forall_mem_cons.2 ⟨⟨all, low, high⟩, groups⟩, rfl, ?_⟩
        simp only [dashed, length_cons, length_append]
        omega
      · cases mem
    · rintro ⟨ys, count, groups, rfl, rfl⟩
      cases ys with
      | nil => cases count
      | cons y ys =>
        obtain ⟨⟨all, low, high⟩, groups⟩ := List.forall_mem_cons.1 groups
        simp only [dashed, lookGroups, mem_flatMap, Prod.exists, mem_splits, mem_map, ih,
          Prod.mk.injEq]
        refine ⟨y, _, ⟨rfl, all, low, high⟩, _, rest, ⟨ys, by simpa using count, groups, rfl, rfl⟩,
          ?_, rfl⟩
        simp only [length_cons, length_append]
        omega

theorem mem_lookDate {behind : Behind} : k ∈ lookDate n behind s ↔
    ∃ (x : List Char) (ys : List (List Char)) (after rest : List Char) (j : Nat), Group 12 x ∧
      ys.length = n ∧ (∀ y ∈ ys, Group 6 y) ∧ s = x ++ dashed ys after ∧ (j, rest) ∈ behind after ∧
      k = x.length + (dashed ys []).length + j := by
  simp only [lookDate, mem_flatMap, Prod.exists, mem_splits, mem_map, mem_lookGroups]
  constructor
  · rintro ⟨x, _, ⟨rfl, all, low, high⟩, _, after, ⟨ys, count, groups, rfl, rfl⟩, j, rest, mem, rfl⟩
    exact ⟨x, ys, after, rest, j, ⟨all, low, high⟩, count, groups, rfl, mem, rfl⟩
  · rintro ⟨x, ys, after, rest, j, ⟨all, low, high⟩, count, groups, rfl, mem, rfl⟩
    exact ⟨x, _, ⟨rfl, all, low, high⟩, _, after, ⟨ys, count, groups, rfl, rfl⟩, j, rest, mem, rfl⟩

variable {ys zs : List (List Char)} {after after' : List Char}

theorem closed_of_isPart {rest : List Char} (closed : Closed isPart rest) :
    Closed isField rest := by
  intro c head
  have outside := closed c head
  simp only [isPart, Bool.or_eq_false_iff] at outside
  exact outside.1

theorem closed_dashed (closed : Closed isPart after) :
    Closed isField (dashed ys after) := by
  cases ys with
  | nil => exact closed_of_isPart closed
  | cons y ys => exact closed_cons rfl _

theorem dashed_inj (closed : Closed isPart after) (closed' : Closed isPart after')
    (groups : ∀ y ∈ ys, ∀ c ∈ y, isField c = true) (groups' : ∀ z ∈ zs, ∀ c ∈ z, isField c = true)
    (same : dashed zs after' = dashed ys after) :
    zs = ys ∧ after' = after := by
  -- behind the groups stands no dash, so both lists end at the same place
  have ended {w : List (List Char)} {x : List Char} {end' : List Char} (closed : Closed isPart end')
      (here : '-' :: (x ++ dashed w after) = end' ∨ '-' :: (x ++ dashed w after') = end') :
        False := by
    rcases here with rfl | rfl <;> cases closed '-' rfl
  induction ys generalizing zs with
  | nil =>
    cases zs with
    | nil => exact ⟨rfl, same⟩
    | cons z zs => exact (ended closed (.inr same)).elim
  | cons y ys ih =>
    cases zs with
    | nil => exact (ended closed' (.inl same.symm)).elim
    | cons z zs =>
      obtain ⟨all, tail⟩ := List.forall_mem_cons.1 groups
      obtain ⟨all', tail'⟩ := List.forall_mem_cons.1 groups'
      obtain ⟨rfl, rest⟩ := append_closed (closed_dashed closed) (closed_dashed closed') all all'
        (List.cons.inj same).2
      obtain ⟨rfl, rfl⟩ := ih tail tail' rest
      exact ⟨rfl, rfl⟩

theorem groups_inj {x x' : List Char} (closed : Closed isPart after)
    (closed' : Closed isPart after') (all : ∀ c ∈ x, isField c = true)
    (all' : ∀ c ∈ x', isField c = true) (groups : ∀ y ∈ ys, ∀ c ∈ y, isField c = true)
    (groups' : ∀ z ∈ zs, ∀ c ∈ z, isField c = true)
    (same : x' ++ dashed zs after' = x ++ dashed ys after) : x' = x ∧ zs = ys ∧ after' = after := by
  obtain ⟨rfl, rest⟩ := append_closed (closed_dashed closed) (closed_dashed closed') all all' same
  exact ⟨rfl, dashed_inj closed closed' groups groups' rest⟩

structure Grouped (s x : List Char) (ys : List (List Char)) (after : List Char) : Prop where
  text : s = x ++ dashed ys after
  first : ∀ c ∈ x, isField c = true
  groups : ∀ y ∈ ys, ∀ c ∈ y, isField c = true
  ends : after = [] ∨ ∃ rest, after = ':' :: rest

section Grouped

variable {x : List Char}

section Text

variable (grouped : Grouped s x ys after)
include grouped

theorem Grouped.closed : Closed isPart after := by
  rcases grouped.ends with rfl | ⟨rest, rfl⟩
  · exact closed_nil
  · exact closed_cons rfl rest

theorem Grouped.unique {x' : List Char} (grouped' : Grouped s x' zs after') :
    zs = ys ∧ after' = after := by
  have same := grouped'.text.symm.trans grouped.text
  exact (groups_inj grouped.closed grouped'.closed grouped.first grouped'.first grouped.groups
    grouped'.groups same).2

theorem lookDate_end (mem : k ∈ lookDate n behindEnd s) :
    ys.length = n ∧ after = [] := by
  obtain ⟨x', zs, after', rest, j, first, count, groups, text, here, -⟩ := mem_lookDate.1 mem
  obtain ⟨none, -⟩ := mem_behindEnd.1 here
  obtain ⟨rfl, rfl⟩ := grouped.unique ⟨text, first.1, fun y mem => (groups y mem).1, .inl none⟩
  exact ⟨count, none⟩

theorem lookDate_colon (mem : k ∈ lookDate n (behindChar ':') s) :
    ys.length = n ∧ after ≠ [] := by
  obtain ⟨x', zs, after', rest, j, first, count, groups, text, here, -⟩ := mem_lookDate.1 mem
  obtain ⟨rest', colon, -⟩ := mem_behindChar.1 here
  obtain ⟨rfl, rfl⟩ := grouped.unique ⟨text, first.1, fun y mem => (groups y mem).1,
    .inr ⟨rest', colon⟩⟩
  rw [colon]
  exact ⟨count, cons_ne_nil _ _⟩

theorem lookHour_colon (mem : k ∈ lookHour s) :
    ys = [] ∧ after ≠ [] := by
  obtain ⟨x', rest, text, all, low, high, -⟩ := mem_lookHour.1 mem
  obtain ⟨rfl, rfl⟩ := grouped.unique
    (⟨text, all, forall_mem_nil _, .inr ⟨rest, rfl⟩⟩ : Grouped s x' [] (':' :: rest))
  exact ⟨rfl, cons_ne_nil _ _⟩

end Text

theorem mem_lookDate_end (grouped : Grouped s x ys []) (first : Group 12 x)
    (groups : ∀ y ∈ ys, Group 6 y) :
    ∃ k, 2 ≤ k ∧ k ∈ lookDate ys.length behindEnd s := by
  refine ⟨_, ?_, mem_lookDate.2 ⟨x, ys, [], [], 1, first, rfl, groups, grouped.text,
    mem_behindEnd.2 ⟨rfl, rfl⟩, rfl⟩⟩
  have low := first.2.1
  omega

theorem mem_lookDate_colon {rest : List Char} (grouped : Grouped s x ys (':' :: rest))
    (first : Group 12 x)
    (groups : ∀ y ∈ ys, Group 6 y) : ∃ k, 2 ≤ k ∧ k ∈ lookDate ys.length (behindChar ':') s := by
  refine ⟨_, ?_, mem_lookDate.2 ⟨x, ys, ':' :: rest, rest, 1, first, rfl, groups, grouped.text,
    mem_behindChar.2 ⟨rest, rfl, rfl⟩, rfl⟩⟩
  have low := first.2.1
  omega

end Grouped

def TimeText.behind (t : TimeText) : List Char := ':' :: (t.minute.render ++ t.tail.render)

def DateTime.first : DateTime → List Char
  | .date d => d.year.render
  | .time t => t.hour.render

def DateTime.groups : DateTime → List (List Char)
  | .date ⟨_, month, day, none⟩ => [month.render, day.render]
  | .date ⟨_, month, day, some t⟩ => [month.render, day.render, t.hour.render]
  | .time _ => []

def DateTime.behind : DateTime → List Char
  | .date ⟨_, _, _, none⟩ => []
  | .date ⟨_, _, _, some t⟩ => t.behind
  | .time t => t.behind

theorem group_of_wf {f : FieldText} (wf : f.Wf 2 2) : Group 6 f.render := by
  have length := render_length wf
  exact ⟨render_isField wf, length.1, by omega⟩

theorem DateTime.render_groups (a : DateTime) : a.render = a.first ++ dashed a.groups a.behind := by
  rcases a with ⟨year, month, day, _ | t⟩ | t <;>
    simp [DateTime.render, DateText.render, renderTime, TimeText.render, DateTime.first,
      DateTime.groups,
      DateTime.behind, TimeText.behind, dashed]

section Groups

variable {digits : Nat} {a : DateTime}

theorem DateTime.first_group (wf : a.Wf digits) (few : digits ≤ 5) : Group 12 a.first := by
  cases a with
  | date d =>
    have length := render_length wf.year
    have short : d.year.render.length ≤ 12 := by omega
    exact ⟨render_isField wf.year, length.1, short⟩
  | time t =>
    obtain ⟨all, low, high⟩ := group_of_wf wf.hour
    have short : t.hour.render.length ≤ 12 := by omega
    exact ⟨all, low, short⟩

theorem DateTime.groups_group (wf : a.Wf digits) : ∀ y ∈ a.groups, Group 6 y := by
  rcases a with ⟨year, month, day, _ | t⟩ | t
  · simpa [DateTime.groups] using ⟨group_of_wf wf.month, group_of_wf wf.day⟩
  · simpa [DateTime.groups] using ⟨group_of_wf wf.month, group_of_wf wf.day,
      group_of_wf (wf.time t rfl).hour⟩
  · intro y none
    cases none

theorem DateTime.behind_ends (a : DateTime) : a.behind = [] ∨ ∃ rest, a.behind = ':' :: rest := by
  rcases a with ⟨year, month, day, _ | t⟩ | t
  · exact .inl rfl
  · exact .inr ⟨_, rfl⟩
  · exact .inr ⟨_, rfl⟩

theorem DateTime.grouped (wf : a.Wf digits) (few : digits ≤ 5) :
    Grouped a.render a.first a.groups a.behind :=
  ⟨a.render_groups, (first_group wf few).1, fun y mem => (groups_group wf y mem).1, a.behind_ends⟩

theorem star_grouped (wf : a.Wf digits) (few : digits ≤ 5) :
    Grouped ('*' :: '-' :: a.render) ['*'] (a.first :: a.groups) a.behind := by
  have grouped := DateTime.grouped wf few
  refine ⟨?_, List.all_eq_true.1 rfl, List.forall_mem_cons.2 ⟨grouped.first, grouped.groups⟩,
    grouped.ends⟩
  rw [grouped.text]
  rfl

end Groups

/-! ### The conditions in front of the date -/

def renderDay : Option DateTime → List Char
  | none => []
  | some a => '-' :: a.render

def readDay : Option DateTime → Scan
  | none => accept []
  | some a => yycYear a.render

variable {m : Match WeekdayNext}

theorem mem_weekdayendRules : m ∈ weekdayendRules s ↔
    s = [] ∧ m = ⟨1, .stop, []⟩ ∨
      ∃ rest, s = '-' :: rest ∧ (m = ⟨1, .year, rest⟩ ∨ ∃ k ∈ lookHour rest,
        m = ⟨1 + k, .hour, rest⟩) := by
  simp only [weekdayendRules, mem_append, mem_map, mem_flatMap, Prod.exists,
    mem_behindEnd,
    mem_behindChar, Prod.mk.injEq]
  constructor
  · rintro ((⟨k, _, ⟨rfl, rfl, rfl⟩, rfl⟩ | ⟨k, _, ⟨rest, rfl, rfl, rfl⟩, rfl⟩) |
      ⟨k, _, ⟨rest, rfl, rfl, rfl⟩, j, mem, rfl⟩)
    · exact .inl ⟨rfl, rfl⟩
    · exact .inr ⟨_, rfl, .inl rfl⟩
    · exact .inr ⟨_, rfl, .inr ⟨j, mem, rfl⟩⟩
  · rintro (⟨rfl, rfl⟩ | ⟨rest, rfl, rfl | ⟨j, mem, rfl⟩⟩)
    · exact .inl (.inl ⟨1, [], ⟨rfl, rfl, rfl⟩, rfl⟩)
    · exact .inl (.inr ⟨1, rest, ⟨rest, rfl, rfl, rfl⟩, rfl⟩)
    · exact .inr ⟨1, rest, ⟨rest, rfl, rfl, rfl⟩, j, mem, rfl⟩

section Days

variable {digits : Nat}

theorem lookHour_date {d : DateText} (wf : d.Wf digits) (few : digits ≤ 5) :
    k ∉ lookHour d.render := by
  intro mem
  obtain ⟨none, -⟩ := lookHour_colon (DateTime.grouped (a := .date d) wf few) mem
  obtain ⟨_, _, _, _ | _⟩ := d <;> cases none

theorem mem_lookHour_time {t : TimeText} (wf : t.Wf) :
    t.hour.render.length + 1 ∈ lookHour t.render := by
  obtain ⟨all, low, high⟩ := group_of_wf wf.hour
  exact mem_lookHour.2 ⟨_, _, rfl, all, low, high, rfl⟩

theorem yycWeekdayend_render {a : Option DateTime} (wf : ∀ a' ∈ a, a'.Wf digits)
    (few : digits ≤ 5) :
    yycWeekdayend (renderDay a) = readDay a := by
  rcases a with _ | d | t
  · rfl
  · have found : longest (weekdayendRules ('-' :: d.render)) = some ⟨1, .year, d.render⟩ := by
      refine longest_eq (mem_weekdayendRules.2 (.inr ⟨_, rfl, .inl rfl⟩)) fun m mem => .inl ?_
      rcases mem_weekdayendRules.1 mem with ⟨none, -⟩ | ⟨rest, same, rfl | ⟨k, look, -⟩⟩
      · cases none
      · cases same
        rfl
      · cases same
        exact (lookHour_date (wf (.date d) rfl) few look).elim
    rw [renderDay, DateTime.render, yycWeekdayend, found]
    rfl
  · have timeWf : t.Wf := wf (.time t) rfl
    obtain ⟨k, found⟩ : ∃ k, longest (weekdayendRules ('-' :: t.render)) =
      some ⟨k, .hour, t.render⟩ := by
      refine longest_same (mem_weekdayendRules.2
        (.inr ⟨_, rfl, .inr ⟨_, mem_lookHour_time timeWf, rfl⟩⟩)) ?_
      intro m mem
      rcases mem_weekdayendRules.1 mem with ⟨none, -⟩ | ⟨rest, same, rfl | ⟨k, look, rfl⟩⟩
      · cases none
      · exact .inr (by simp)
      · cases same
        exact .inl ⟨rfl, rfl⟩
    rw [renderDay, DateTime.render, yycWeekdayend, found]
    exact (yycYear_hour timeWf.hour).symm

theorem yycWeekdayend_read {acts : List TimerAction} {rest : List Char}
    (read : yycWeekdayend s = ⟨acts, some rest⟩) :
    ∃ a : Option DateTime, (∀ a' ∈ a, a'.Wf 4) ∧ s = renderDay a := by
  unfold yycWeekdayend at read
  cases found : longest (weekdayendRules s) with
  | none =>
    rw [found] at read
    cases read
  | some m =>
    rw [found] at read
    rcases mem_weekdayendRules.1 (longest_mem found).1 with ⟨rfl, rfl⟩
      | ⟨rest', rfl, rfl | ⟨k, -, rfl⟩⟩
    · exact ⟨none, absent, rfl⟩
    · obtain ⟨a, wf, rfl, -⟩ := yycYear_read read
      exact ⟨some a, present wf, rfl⟩
    · obtain ⟨t, wf, rfl, -⟩ := yycHour_read read
      exact ⟨some (.time t), present wf, rfl⟩

theorem mem_weekday2Rules : m ∈ weekday2Rules s ↔
    (∃ k ∈ lookDate 2 behindAny s, m = ⟨k, .year, s⟩) ∨ (∃ k ∈ lookHour s, m = ⟨k, .hour, s⟩) ∨
      s = [] ∧ m = ⟨1, .stop, []⟩ ∨ (∃ rest, s = '-' :: rest ∧ m = ⟨1, .dash, rest⟩) ∨
      ∃ rest, s = '.' :: '.' :: rest ∧
        ∃ m' ∈ wday rest, m = ⟨2 + m'.look, .upTo m'.tag, m'.rest⟩ := by
  simp only [weekday2Rules, mem_append, mem_map, mem_flatMap, Prod.exists,
    mem_behindEnd,
    mem_behindChar, Prod.mk.injEq]
  constructor
  · rintro ((((⟨k, mem, rfl⟩ | ⟨k, mem, rfl⟩) | ⟨k, _, ⟨rfl, rfl, rfl⟩, rfl⟩)
      | ⟨k, _, ⟨rest, rfl, rfl, rfl⟩, rfl⟩) |
      ⟨j, _, ⟨_, rfl, rfl, rfl⟩, k, _, ⟨rest, rfl, rfl, rfl⟩, m', mem, rfl⟩)
    · exact .inl ⟨k, mem, rfl⟩
    · exact .inr (.inl ⟨k, mem, rfl⟩)
    · exact .inr (.inr (.inl ⟨rfl, rfl⟩))
    · exact .inr (.inr (.inr (.inl ⟨_, rfl, rfl⟩)))
    · exact .inr (.inr (.inr (.inr ⟨_, rfl, m', mem, rfl⟩)))
  · rintro (⟨k, mem, rfl⟩ | ⟨k, mem, rfl⟩ | ⟨rfl, rfl⟩ | ⟨rest, rfl, rfl⟩
      | ⟨rest, rfl, m', mem, rfl⟩)
    · exact .inl (.inl (.inl (.inl ⟨k, mem, rfl⟩)))
    · exact .inl (.inl (.inl (.inr ⟨k, mem, rfl⟩)))
    · exact .inl (.inl (.inr ⟨1, [], ⟨rfl, rfl, rfl⟩, rfl⟩))
    · exact .inl (.inr ⟨1, rest, ⟨rest, rfl, rfl, rfl⟩, rfl⟩)
    · exact .inr ⟨1, _, ⟨_, rfl, rfl, rfl⟩, 1, rest, ⟨rest, rfl, rfl, rfl⟩, m', mem, rfl⟩

theorem lookDate_stop {behind : Behind} {x rest : List Char} (all : ∀ c ∈ x, isField c = true)
    (outside : isField c = false) (noDash : c ≠ '-' ∨ x = []) :
    k ∉ lookDate (n + 1) behind (x ++ c :: rest) := by
  intro mem
  obtain ⟨x', ys, after, rest', j, first, count, -, same, -⟩ := mem_lookDate.1 mem
  cases ys with
  | nil => cases count
  | cons y ys =>
    obtain ⟨rfl, dash⟩ := append_closed (closed_cons outside rest) (closed_cons rfl _) all
      first.1 same.symm
    rcases noDash with noDash | rfl
    · exact noDash (List.cons.inj dash).1.symm
    · exact absurd first.2.1 (by simp)

theorem lookHour_stop {x rest : List Char} (all : ∀ c ∈ x, isField c = true)
    (outside : isField c = false) (noColon : c ≠ ':' ∨ x = []) : k ∉ lookHour (x ++ c :: rest) := by
  intro mem
  obtain ⟨x', after, same, all', low, -⟩ := mem_lookHour.1 mem
  obtain ⟨rfl, colon⟩ := append_closed (closed_cons outside rest) (closed_cons rfl _) all
    all' same.symm
  rcases noColon with noColon | rfl
  · exact noColon (List.cons.inj colon).1.symm
  · exact absurd low (by simp)

theorem alpha_outside (alpha : c.isAlpha = true) : isField c = false := by
  have star : c ≠ '*' := by
    rintro rfl
    cases alpha
  have dot : c ≠ '.' := by
    rintro rfl
    cases alpha
  have digit : c.isDigit = false := by
    rw [← Bool.not_eq_true]
    intro digit
    change (decide (c.val ≥ 'A'.val ∧ c.val ≤ 'Z'.val) ||
      (decide (c.val ≥ 'a'.val) && decide (c.val ≤ 'z'.val))) = true
      at alpha
    change (decide (c.val ≥ '0'.val) && decide (c.val ≤ '9'.val)) = true at digit
    simp only [Bool.or_eq_true, Bool.and_eq_true, decide_eq_true_eq, ge_iff_le,
      UInt32.le_iff_toNat_le] at alpha digit
    have low : '0'.val.toNat = 48 := rfl
    simp at alpha digit
    omega
  simp [isField, star, dot, digit]

theorem field_outside (field : isField c = true) : c.isAlpha = false := by
  rw [← Bool.not_eq_true]
  intro alpha
  rw [alpha_outside alpha] at field
  cases field

def dayStop (bit : BitVec 8) : Option DateTime → BitVec 8
  | none => -1
  | some _ => bit

theorem yycWeekday2_day (bit : BitVec 8) (a : Option DateTime) :
    yycWeekday2 bit (renderDay a) = (readDay a).after (.weekdays bit (dayStop bit a)) := by
  cases a with
  | none => rfl
  | some a =>
    have found : longest (weekday2Rules ('-' :: a.render)) = some ⟨1, .dash, a.render⟩ := by
      refine longest_eq (mem_weekday2Rules.2 (.inr (.inr (.inr (.inl ⟨_, rfl, rfl⟩))))) fun m mem =>
        .inl ?_
      rcases mem_weekday2Rules.1 mem with
        ⟨k, look, -⟩ | ⟨k, look, -⟩ | ⟨none, -⟩ | ⟨rest, same, rfl⟩ | ⟨rest, same, -⟩
      · exact (lookDate_stop (x := []) (forall_mem_nil _) rfl (.inr rfl) look).elim
      · exact (lookHour_stop (x := []) (forall_mem_nil _) rfl (.inr rfl) look).elim
      · cases none
      · cases same
        rfl
      · cases same
    rw [renderDay, yycWeekday2, found]
    rfl

variable {bit : BitVec 8}

theorem yycWeekday2_upTo {rest : List Char} (named : w.Named word)
    (closed : Closed Char.isAlpha rest) :
    yycWeekday2 bit ('.' :: '.' :: (word ++ rest)) =
      (yycWeekdayend rest).after (.weekdays bit w.bit) := by
  obtain ⟨c, word', rfl, alpha⟩ := named_head named
  have outside := alpha_outside alpha
  have dots : ∀ c ∈ ['.', '.'], isField c = true := List.all_eq_true.1 rfl
  have found : longest (weekday2Rules ('.' :: '.' :: (c :: word' ++ rest))) =
      some ⟨2 + (c :: word').length, .upTo w, rest⟩ := by
    refine longest_eq (mem_weekday2Rules.2
      (.inr (.inr (.inr (.inr ⟨_, rfl, ⟨(c :: word').length, w, rest⟩,
      mem_wday.2 ⟨_, rest, rfl, named, rfl⟩, rfl⟩))))) fun m mem => ?_
    rcases mem_weekday2Rules.1 mem with
      ⟨k, look, -⟩ | ⟨k, look, -⟩ | ⟨none, -⟩ | ⟨rest, same, -⟩ | ⟨rest, same, m', mem', rfl⟩
    · exact (lookDate_stop (x := ['.', '.']) dots outside (.inl (by rintro rfl; cases alpha))
        look).elim
    · exact (lookHour_stop (x := ['.', '.']) dots outside (.inl (by rintro rfl; cases alpha))
        look).elim
    · cases none
    · cases same
    · cases same
      rcases wday_word named closed mem' with rfl | shorter
      · exact .inl rfl
      · exact .inr (by simpa using shorter)
  rw [yycWeekday2, found]

section Glued

variable {a : DateTime} (wf : a.Wf digits) (few : digits ≤ 5)
include wf few

theorem render_stop :
    ∃ (x : List Char) (c : Char) (rest : List Char),
    a.render = x ++ c :: rest ∧ Group 12 x ∧ (c = '-' ∨ c = ':') := by
  have first := DateTime.first_group wf few
  cases a with
  | date d => exact ⟨d.year.render, '-', _, rfl, first, .inl rfl⟩
  | time t => exact ⟨t.hour.render, ':', _, rfl, first, .inr rfl⟩

theorem render_head :
    ∃ (c : Char) (rest : List Char),
    a.render = c :: rest ∧ isField c = true := by
  obtain ⟨x, c, rest, text, ⟨all, low, -⟩, -⟩ := render_stop wf few
  cases x with
  | nil => cases low
  | cons c' x => exact ⟨c', _, text, all c' mem_cons_self⟩

/-- A date or a time right behind the word is looked at as a whole. -/
theorem weekday2_glued (mem : m ∈ weekday2Rules a.render) :
    (∃ k ∈ lookDate 2 behindAny a.render, m = ⟨k, .year, a.render⟩) ∨
      ∃ k ∈ lookHour a.render, m = ⟨k, .hour, a.render⟩ := by
  obtain ⟨c, _, head, field⟩ := render_head wf few
  rcases mem_weekday2Rules.1 mem with date | hour | ⟨none, -⟩ | ⟨rest, dash, -⟩
    | ⟨rest, dots, m', mem', -⟩
  · exact .inl date
  · exact .inr hour
  · cases head.symm.trans none
  · cases head.symm.trans dash
    cases field
  · -- the fields end at a dash or a colon, and not at a letter
    obtain ⟨word, rest', rfl, named, -⟩ := mem_wday.1 mem'
    obtain ⟨letter, word', rfl, alpha⟩ := named_head named
    obtain ⟨x, c, after, text, first, ends⟩ := render_stop wf few
    have outside : isField c = false := by rcases ends with rfl | rfl <;> rfl
    have same : ['.', '.'] ++ letter :: (word' ++ rest') = x ++ c :: after := dots.symm.trans text
    have twoDots : ∀ c ∈ ['.', '.'], isField c = true := List.all_eq_true.1 rfl
    obtain ⟨-, at'⟩ := append_closed (closed_cons outside _) (closed_cons (alpha_outside alpha) _)
      first.1 twoDots same
    cases at'
    rcases ends with rfl | rfl <;> cases alpha

theorem yycWeekday2_glued :
    yycWeekday2 bit a.render = yycYear a.render := by
  cases a with
  | date d =>
    have first := DateTime.first_group (a := .date d) wf few
    obtain ⟨k, here⟩ : ∃ k, k ∈ lookDate 2 behindAny d.render := ⟨_, mem_lookDate.2 ⟨d.year.render,
      [d.month.render, d.day.render], renderTime d.time, renderTime d.time, 0, first, rfl,
      by simpa using ⟨group_of_wf wf.month, group_of_wf wf.day⟩, by simp [DateText.render, dashed],
      mem_behindAny.2 rfl, rfl⟩⟩
    obtain ⟨_, found⟩ : ∃ k, longest (weekday2Rules d.render) = some ⟨k, .year, d.render⟩ := by
      refine longest_same (mem_weekday2Rules.2 (.inl ⟨k, here, rfl⟩)) fun m mem => .inl ?_
      rcases weekday2_glued (a := .date d) wf few mem with ⟨_, _, rfl⟩ | ⟨_, look, -⟩
      · exact ⟨rfl, rfl⟩
      · exact (lookHour_date wf few look).elim
    rw [DateTime.render, yycWeekday2, found]
  | time t =>
    have timeWf : t.Wf := wf
    obtain ⟨_, found⟩ : ∃ k, longest (weekday2Rules t.render) = some ⟨k, .hour, t.render⟩ := by
      refine longest_same (mem_weekday2Rules.2 (.inr (.inl ⟨_, mem_lookHour_time timeWf, rfl⟩)))
        fun m mem => .inl ?_
      rcases weekday2_glued (a := .time t) wf few mem with ⟨_, look, -⟩ | ⟨_, -, rfl⟩
      · exact (lookDate_stop (group_of_wf timeWf.hour).1 rfl (.inl (by decide)) look).elim
      · exact ⟨rfl, rfl⟩
    rw [DateTime.render, yycWeekday2, found]
    exact (yycYear_hour timeWf.hour).symm

end Glued

theorem yycWeekday2_read {acts : List TimerAction} {rest : List Char}
    (read : yycWeekday2 bit s = ⟨acts, some rest⟩) :
    (∃ a : Option DateTime, (∀ a' ∈ a, a'.Wf 4) ∧ s = renderDay a) ∨
    (∃ a : DateTime, a.Wf 4 ∧ s = a.render) ∨
      ∃ (w : Weekday) (word : List Char) (a : Option DateTime), w.Named word ∧ (∀ a' ∈ a, a'.Wf 4) ∧
        s = '.' :: '.' :: (word ++ renderDay a) := by
  unfold yycWeekday2 at read
  cases found : longest (weekday2Rules s) with
  | none =>
    rw [found] at read
    cases read
  | some m =>
    rw [found] at read
    rcases mem_weekday2Rules.1 (longest_mem found).1 with
      ⟨k, -, rfl⟩ | ⟨k, -, rfl⟩ | ⟨rfl, rfl⟩ | ⟨rest', rfl, rfl⟩ | ⟨rest', rfl, m', mem, rfl⟩
    · obtain ⟨a, wf, rfl, -⟩ := yycYear_read read
      exact .inr (.inl ⟨a, wf, rfl⟩)
    · obtain ⟨t, wf, rfl, -⟩ := yycHour_read read
      exact .inr (.inl ⟨.time t, wf, rfl⟩)
    · exact .inl ⟨none, absent, rfl⟩
    · have read : (yycYear rest').after (.weekdays bit bit) = ⟨acts, some rest⟩ := read
      obtain ⟨acts', rfl, year⟩ := after_eq.1 read
      obtain ⟨a, wf, rfl, -⟩ := yycYear_read year
      exact .inl ⟨some a, present wf, rfl⟩
    · have read : (yycWeekdayend m'.rest).after (.weekdays bit m'.tag.bit) = ⟨acts, some rest⟩ :=
        read
      obtain ⟨acts', rfl, weekdayend⟩ := after_eq.1 read
      obtain ⟨a, wf, after⟩ := yycWeekdayend_read weekdayend
      obtain ⟨word, rest'', rfl, named, eq⟩ := mem_wday.1 mem
      rw [eq] at after
      exact .inr (.inr ⟨m'.tag, word, a, named, wf, by rw [← after]⟩)

end Days

inductive TimerText where
  | shorthand (name : Shorthand) (word : List Char)
  /-- Without a weekday. -/
  | plain (a : DateTime)
  | anyDay (a : Option DateTime)
  | day (w : Weekday) (word : List Char) (a : Option DateTime)
  /-- A weekday with no dash behind it, which is not set. -/
  | glued (w : Weekday) (word : List Char) (a : DateTime)
  | days (w : Weekday) (word : List Char) (w' : Weekday) (word' : List Char) (a : Option DateTime)
  deriving DecidableEq, Repr

def TimerText.render : TimerText → List Char
  | .shorthand _ word => word
  | .plain a => a.render
  | .anyDay a => '*' :: renderDay a
  | .day _ word a => word ++ renderDay a
  | .glued _ word a => word ++ a.render
  | .days _ word _ word' a => word ++ '.' :: '.' :: (word' ++ renderDay a)

def TimerText.Wf (digits : Nat) : TimerText → Prop
  | .shorthand name word => word.map Char.toLower = name.name
  | .plain a => a.Wf digits
  | .anyDay a => ∀ a' ∈ a, a'.Wf digits
  | .day w word a => w.Named word ∧ ∀ a' ∈ a, a'.Wf digits
  | .glued w word a => w.Named word ∧ a.Wf digits
  | .days w word w' word' a => w.Named word ∧ w'.Named word' ∧ ∀ a' ∈ a, a'.Wf digits

def TimerText.scan : TimerText → Scan
  | .shorthand name _ => (accept []).after (.shorthand name)
  | .plain a => yycYear a.render
  | .anyDay a => readDay a
  | .day w _ a => (readDay a).after (.weekdays w.bit (dayStop w.bit a))
  | .glued _ _ a => yycYear a.render
  | .days w _ w' _ a => (readDay a).after (.weekdays w.bit w'.bit)

theorem mem_timerRules {m : Match TimerStart} : m ∈ timerRules s ↔
    (∃ name : Shorthand, s.map Char.toLower = name.name ∧ m = ⟨s.length + 1, .shorthand name, []⟩) ∨
      (∃ m' ∈ wday s, m = ⟨m'.look, .weekday1, s⟩) ∨
      (∃ rest, s = '*' :: rest ∧ m = ⟨1, .weekday1, s⟩) ∨
      (∃ k, (k ∈ lookDate 2 behindEnd s ∨ k ∈ lookDate 3 (behindChar ':') s) ∧ m = ⟨k, .year, s⟩) ∨
      ∃ k ∈ lookHour s, m = ⟨k, .hour, s⟩ := by
  simp only [timerRules, mem_append, mem_map, mem_flatMap, Prod.exists,
    mem_behindEnd, mem_literal,
    mem_behindChar, Prod.mk.injEq]
  constructor
  · rintro (((((⟨name, -, k, _, ⟨word, rest, rfl, named, rfl, rfl⟩, j, _, ⟨rfl, rfl, rfl⟩, rfl⟩
      | ⟨m', mem, rfl⟩) |
      ⟨k, _, ⟨rest, rfl, rfl, rfl⟩, rfl⟩) | ⟨k, mem, rfl⟩) | ⟨k, mem, rfl⟩) | ⟨k, mem, rfl⟩)
    · exact .inl ⟨name, by simpa using named, by simp⟩
    · exact .inr (.inl ⟨m', mem, rfl⟩)
    · exact .inr (.inr (.inl ⟨_, rfl, rfl⟩))
    · exact .inr (.inr (.inr (.inl ⟨k, .inl mem, rfl⟩)))
    · exact .inr (.inr (.inr (.inl ⟨k, .inr mem, rfl⟩)))
    · exact .inr (.inr (.inr (.inr ⟨k, mem, rfl⟩)))
  · rintro (⟨name, named, rfl⟩ | ⟨m', mem, rfl⟩ | ⟨rest, rfl, rfl⟩ | ⟨k, mem | mem, rfl⟩
      | ⟨k, mem, rfl⟩)
    · exact .inl (.inl (.inl (.inl (.inl ⟨name, by cases name <;> decide, s.length, [],
        ⟨s, [], by simp, named, rfl, rfl⟩, 1, [], ⟨rfl, rfl, rfl⟩, rfl⟩))))
    · exact .inl (.inl (.inl (.inl (.inr ⟨m', mem, rfl⟩))))
    · exact .inl (.inl (.inl (.inr ⟨1, rest, ⟨rest, rfl, rfl, rfl⟩, rfl⟩)))
    · exact .inl (.inl (.inr ⟨k, mem, rfl⟩))
    · exact .inl (.inr ⟨k, mem, rfl⟩)
    · exact .inr ⟨k, mem, rfl⟩

/-- A string that starts with a letter is a shorthand or starts with a weekday. -/
theorem timerRules_letter (alpha : c.isAlpha = true) {m : Match TimerStart}
    (mem : m ∈ timerRules (c :: s)) :
    (∃ name : Shorthand, (c :: s).map Char.toLower = name.name ∧
      m = ⟨(c :: s).length + 1, .shorthand name, []⟩) ∨
      ∃ m' ∈ wday (c :: s), m = ⟨m'.look, .weekday1, c :: s⟩ := by
  have outside := alpha_outside alpha
  have nothing : ∀ c ∈ ([] : List Char), isField c = true := forall_mem_nil _
  rcases mem_timerRules.1 mem with shorthand | word | ⟨_, star, -⟩ | ⟨k, look | look, -⟩
    | ⟨k, look, -⟩
  · exact .inl shorthand
  · exact .inr word
  · cases star
    cases alpha
  · exact (lookDate_stop nothing outside (.inr rfl) look).elim
  · exact (lookDate_stop nothing outside (.inr rfl) look).elim
  · exact (lookHour_stop nothing outside (.inr rfl) look).elim

/-- One that starts with a character of a field is neither. -/
theorem timerRules_field (field : isField c = true) {m : Match TimerStart}
    (mem : m ∈ timerRules (c :: s)) : m = ⟨1, .weekday1, c :: s⟩ ∨
      (∃ k, (k ∈ lookDate 2 behindEnd (c :: s) ∨ k ∈ lookDate 3 (behindChar ':') (c :: s)) ∧
        m = ⟨k, .year, c :: s⟩) ∨
      ∃ k ∈ lookHour (c :: s), m = ⟨k, .hour, c :: s⟩ := by
  have noLetter := field_outside field
  rcases mem_timerRules.1 mem with ⟨name, named, -⟩ | ⟨m', word, -⟩ | ⟨_, -, rfl⟩ | date | hour
  · have alpha := word_alpha named (shorthand_alpha name).2 c mem_cons_self
    rw [noLetter] at alpha
    cases alpha
  · rw [wday_closed (closed_cons noLetter s)] at word
    cases word
  · exact .inl rfl
  · exact .inr (.inl date)
  · exact .inr (.inr hour)

theorem shorthand_inj : ∀ name ∈ Shorthand.all, ∀ name' ∈ Shorthand.all, name.name = name'.name →
      name = name' := by
  decide

theorem mem_shorthands (name : Shorthand) : name ∈ Shorthand.all := by
  cases name <;> decide

theorem shorthand_not_day : ∀ name ∈ Shorthand.all, ∀ w ∈ Weekday.all, name.name ∉ w.names := by
  decide

theorem yycTimer_shorthand {name : Shorthand} (named : word.map Char.toLower = name.name) :
    yycTimer word = (accept []).after (.shorthand name) := by
  have found : longest (timerRules word) = some ⟨word.length + 1, .shorthand name, []⟩ := by
    refine longest_eq (mem_timerRules.2 (.inl ⟨name, named, rfl⟩)) fun m mem => ?_
    cases word with
    | nil => exact ((shorthand_alpha name).1 named.symm).elim
    | cons c word =>
      have alpha := word_alpha named (shorthand_alpha name).2 c mem_cons_self
      rcases timerRules_letter alpha mem with ⟨name', named', rfl⟩ | ⟨m', mem', rfl⟩
      · left
        rw [shorthand_inj name (mem_shorthands _) name' (mem_shorthands _)
          (named.symm.trans named')]
      · right
        obtain ⟨word', rest, same, -, eq⟩ := mem_wday.1 mem'
        rw [same, eq, length_append]
        exact Nat.lt_succ_of_le (Nat.le_add_right _ _)
  rw [yycTimer, found]

theorem yycTimer_word {rest : List Char} (named : w.Named word)
    (closed : Closed Char.isAlpha rest) : yycTimer (word ++ rest) = yycWeekday2 w.bit rest := by
  obtain ⟨c, word', rfl, alpha⟩ := named_head named
  obtain ⟨_, found⟩ : ∃ k, longest (timerRules (c :: word' ++ rest)) =
    some ⟨k, .weekday1, c :: word' ++ rest⟩ := by
    refine longest_same (mem_timerRules.2
      (.inr (.inl ⟨⟨_, w, rest⟩, mem_wday.2 ⟨_, rest, rfl, named, rfl⟩, rfl⟩)))
      fun m mem => .inl ?_
    rcases timerRules_letter alpha mem with ⟨name, shorthand, -⟩ | ⟨m', -, rfl⟩
    · -- a shorthand is a word as a whole, so nothing would stand behind the weekday
      have letters := word_alpha shorthand (shorthand_alpha name).2
      cases rest with
      | nil =>
        have shorthand : (c :: word' ++ []).map Char.toLower = name.name := shorthand
        rw [append_nil] at shorthand
        exact (shorthand_not_day name (mem_shorthands _) w (mem_all w) (shorthand ▸ named)).elim
      | cons c' rest =>
        have letter := letters c' (by simp)
        rw [closed c' rfl] at letter
        cases letter
    · exact ⟨rfl, rfl⟩
  have weekday : longest (weekday1Rules (c :: word' ++ rest)) =
    some ⟨(c :: word').length, some w, rest⟩ := by
    refine longest_eq (mem_append_right _
      (List.mem_map.2 ⟨⟨_, w, rest⟩, mem_wday.2 ⟨_, rest, rfl, named, rfl⟩,
      rfl⟩)) fun m mem => ?_
    simp only [weekday1Rules, mem_append, mem_map, Prod.exists, mem_behindChar] at mem
    rcases mem with ⟨_, _, ⟨_, star, -⟩, -⟩ | ⟨m', mem, rfl⟩
    · cases star
      cases alpha
    · rcases wday_word named closed mem with rfl | shorter
      · exact .inl rfl
      · exact .inr shorter
  rw [yycTimer, found]
  show yycWeekday1 _ = _
  rw [yycWeekday1, weekday]

section Whole

variable {digits : Nat}

theorem yycTimer_plain {a : DateTime} (wf : a.Wf digits) (few : digits ≤ 5) :
    yycTimer a.render = yycYear a.render := by
  obtain ⟨c, rest, head, field⟩ := render_head wf few
  have grouped := DateTime.grouped wf few
  have first := DateTime.first_group wf few
  have groups := DateTime.groups_group wf
  have cases {m : Match TimerStart} (mem : m ∈ timerRules a.render) : m = ⟨1, .weekday1, a.render⟩ ∨
      (∃ k, (k ∈ lookDate 2 behindEnd a.render ∨ k ∈ lookDate 3 (behindChar ':') a.render) ∧
        m = ⟨k, .year, a.render⟩) ∨
      ∃ k ∈ lookHour a.render, m = ⟨k, .hour, a.render⟩ := by
    rw [head] at mem ⊢
    exact timerRules_field field mem
  cases a with
  | date d =>
    obtain ⟨k, low, here⟩ : ∃ k, 2 ≤ k ∧
      (k ∈ lookDate 2 behindEnd d.render ∨ k ∈ lookDate 3 (behindChar ':') d.render) := by
      obtain ⟨_, _, _, _ | t⟩ := d
      · obtain ⟨k, low, mem⟩ := mem_lookDate_end grouped first groups
        exact ⟨k, low, .inl mem⟩
      · obtain ⟨k, low, mem⟩ := mem_lookDate_colon grouped first groups
        exact ⟨k, low, .inr mem⟩
    obtain ⟨_, found⟩ : ∃ k, longest (timerRules d.render) = some ⟨k, .year, d.render⟩ := by
      refine longest_same (mem_timerRules.2 (.inr (.inr (.inr (.inl ⟨k, here, rfl⟩))))) fun m mem =>
        ?_
      rcases cases mem with rfl | ⟨_, -, rfl⟩ | ⟨_, look, -⟩
      · exact .inr low
      · exact .inl ⟨rfl, rfl⟩
      · exact (lookHour_date wf few look).elim
    rw [DateTime.render, yycTimer, found]
  | time t =>
    have timeWf : t.Wf := wf
    obtain ⟨_, found⟩ : ∃ k, longest (timerRules t.render) = some ⟨k, .hour, t.render⟩ := by
      refine longest_same (mem_timerRules.2
        (.inr (.inr (.inr (.inr ⟨_, mem_lookHour_time timeWf, rfl⟩))))) fun m mem => ?_
      rcases cases mem with rfl | ⟨_, look | look, -⟩ | ⟨_, -, rfl⟩
      · exact .inr (Nat.succ_lt_succ (group_of_wf timeWf.hour).2.1)
      · cases (lookDate_end grouped look).1
      · cases (lookDate_colon grouped look).1
      · exact .inl ⟨rfl, rfl⟩
    rw [DateTime.render, yycTimer, found]
    exact (yycYear_hour timeWf.hour).symm

theorem yycTimer_anyDay {a : Option DateTime} (wf : ∀ a' ∈ a, a'.Wf digits) (few : digits ≤ 5) :
    yycTimer ('*' :: renderDay a) = readDay a := by
  cases a with
  | none => rfl
  | some a =>
    have grouped := star_grouped (wf a rfl) few
    have found : longest (timerRules ('*' :: renderDay (some a))) =
      some ⟨1, .weekday1, '*' :: renderDay (some a)⟩ := by
      refine longest_eq (mem_timerRules.2 (.inr (.inr (.inl ⟨_, rfl, rfl⟩)))) fun m mem => .inl ?_
      rcases timerRules_field rfl mem with rfl | ⟨_, look | look, -⟩ | ⟨_, look, -⟩
      · rfl
      · obtain ⟨count, none⟩ := lookDate_end grouped look
        rcases a with ⟨_, _, _, _ | t⟩ | t <;> cases none
        cases count
      · obtain ⟨count, some⟩ := lookDate_colon grouped look
        rcases a with ⟨_, _, _, _ | t⟩ | t
        · exact (some rfl).elim
        · cases count
        · cases count
      · cases (lookHour_colon grouped look).1
    have weekday : longest (weekday1Rules ('*' :: renderDay (some a))) =
      some ⟨1, none, renderDay (some a)⟩ := by
      rw [weekday1Rules, wday_closed (closed_cons rfl _)]
      rfl
    rw [yycTimer, found]
    show yycWeekday1 _ = _
    rw [yycWeekday1, weekday]
    exact yycWeekdayend_render wf few

theorem closed_renderDay (a : Option DateTime) : Closed Char.isAlpha (renderDay a) := by
  cases a with
  | none => exact closed_nil
  | some a => exact closed_cons rfl _

theorem closed_render {a : DateTime} (wf : a.Wf digits) (few : digits ≤ 5) :
    Closed Char.isAlpha a.render := by
  obtain ⟨c, rest, text, field⟩ := render_head wf few
  rw [text]
  exact closed_cons (field_outside field) rest

theorem yycTimer_scan {t : TimerText} (wf : t.Wf digits) (few : digits ≤ 5) :
    yycTimer t.render = t.scan := by
  cases t with
  | shorthand name word => exact yycTimer_shorthand wf
  | plain a => exact yycTimer_plain wf few
  | anyDay a => exact yycTimer_anyDay wf few
  | day w word a => exact (yycTimer_word wf.1 (closed_renderDay a)).trans (yycWeekday2_day w.bit a)
  | glued w word a =>
    exact (yycTimer_word wf.1 (closed_render wf.2 few)).trans (yycWeekday2_glued wf.2 few)
  | days w word w' word' a =>
    refine (yycTimer_word wf.1 ?_).trans ((yycWeekday2_upTo wf.2.1 (closed_renderDay a)).trans ?_)
    · exact closed_cons rfl _
    · rw [yycWeekdayend_render wf.2.2 few]
      rfl

theorem yycWeekday1_read {rest : List Char} {acts : List TimerAction}
    (read : yycWeekday1 s = ⟨acts, some rest⟩) :
    ∃ t : TimerText, t.Wf 4 ∧ s = t.render := by
  unfold yycWeekday1 at read
  cases found : longest (weekday1Rules s) with
  | none =>
    rw [found] at read
    cases read
  | some m =>
    rw [found] at read
    have mem := (longest_mem found).1
    simp only [weekday1Rules, mem_append, mem_map, Prod.exists, mem_behindChar,
      Prod.mk.injEq] at mem
    rcases mem with ⟨_, _, ⟨rest', rfl, rfl, rfl⟩, rfl⟩ | ⟨m', mem, rfl⟩
    · obtain ⟨a, wf, rfl⟩ := yycWeekdayend_read read
      exact ⟨.anyDay a, wf, rfl⟩
    · obtain ⟨word, rest', rfl, named, eq⟩ := mem_wday.1 mem
      have read : yycWeekday2 m'.tag.bit m'.rest = ⟨acts, some rest⟩ := read
      have behind : m'.rest = rest' := by rw [eq]
      rw [behind] at read
      rcases yycWeekday2_read read with ⟨a, wf, rfl⟩ | ⟨a, wf, rfl⟩ | ⟨w, word', a, named', wf, rfl⟩
      · exact ⟨.day m'.tag word a, ⟨named, wf⟩, rfl⟩
      · exact ⟨.glued m'.tag word a, ⟨named, wf⟩, rfl⟩
      · exact ⟨.days m'.tag word w word' a, ⟨named, named', wf⟩, rfl⟩

theorem yycTimer_read {rest : List Char} {acts : List TimerAction}
    (read : yycTimer s = ⟨acts, some rest⟩) :
    ∃ t : TimerText, t.Wf 4 ∧ s = t.render := by
  unfold yycTimer at read
  cases found : longest (timerRules s) with
  | none =>
    rw [found] at read
    cases read
  | some m =>
    rw [found] at read
    rcases mem_timerRules.1 (longest_mem found).1 with
      ⟨name, named, rfl⟩ | ⟨m', mem, rfl⟩ | ⟨rest', rfl, rfl⟩ | ⟨k, -, rfl⟩ | ⟨k, -, rfl⟩
    · exact ⟨.shorthand name s, named, rfl⟩
    · exact yycWeekday1_read read
    · exact yycWeekday1_read read
    · obtain ⟨a, wf, rfl, -⟩ := yycYear_read read
      exact ⟨.plain a, wf, rfl⟩
    · obtain ⟨t, wf, rfl, -⟩ := yycHour_read read
      exact ⟨.plain (.time t), wf, rfl⟩

end Whole

def dayActions : Option DateTime → List TimerAction
  | none => []
  | some a => a.actions

def dayRest : Option DateTime → List Char
  | none => []
  | some a => a.rest

def TimerText.actions : TimerText → List TimerAction
  | .shorthand name _ => [.shorthand name]
  | .plain a => a.actions
  | .anyDay a => dayActions a
  | .day w _ a => .weekdays w.bit (dayStop w.bit a) :: dayActions a
  | .glued _ _ a => a.actions
  | .days w _ w' _ a => .weekdays w.bit w'.bit :: dayActions a

def TimerText.rest : TimerText → List Char
  | .shorthand _ _ => []
  | .plain a => a.rest
  | .anyDay a => dayRest a
  | .day _ _ a => dayRest a
  | .glued _ _ a => a.rest
  | .days _ _ _ _ a => dayRest a

theorem readDay_eq {a : Option DateTime} (wf : ∀ a' ∈ a, a'.Wf 4) :
    readDay a = ⟨dayActions a, some (dayRest a)⟩ := by
  cases a with
  | none => rfl
  | some a => exact yycYear_render (wf a rfl)

theorem yycTimer_render {t : TimerText} (wf : t.Wf 4) :
    yycTimer t.render = ⟨t.actions, some t.rest⟩ := by
  rw [yycTimer_scan wf (by decide)]
  cases t with
  | shorthand name word => rfl
  | plain a => exact yycYear_render wf
  | anyDay a => exact readDay_eq wf
  | day w word a => exact after_eq.2 ⟨_, rfl, readDay_eq wf.2⟩
  | glued w word a => exact yycYear_render wf.2
  | days w word w' word' a => exact after_eq.2 ⟨_, rfl, readDay_eq wf.2.2⟩

end Crinit
