import Mathlib.Data.List.TakeWhile
import Mathlib.Tactic.Common

/-! Splitting a text at separators that do not stand in quotes. A part of a text is given by what
follows from its start on, and by what follows behind it. -/
namespace QuoteSplit

open List

variable {α : Type} (sep quote : α → Bool)

def behind (opened : Bool) (s : List α) : Bool := s.foldl (fun o c => o != quote c) opened

def argEnd (opened : Bool) : List α → List α
  | [] => []
  | c :: cs => if sep c && !opened then c :: cs else argEnd (opened != quote c) cs

def args : Nat → List α → List (List α × List α)
  | 0, _ => []
  | turns + 1, s =>
    match s.dropWhile sep with
    | [] => []
    | c :: cs => (c :: cs, argEnd sep quote false (c :: cs)) ::
        args turns (argEnd sep quote false (c :: cs))

def split (s : List α) : List (List α × List α) := args sep quote s.length s

variable {sep quote} {opened : Bool} {s raw rest before start : List α} {c : α}

@[simp] theorem behind_nil : behind quote opened [] = opened := rfl

@[simp] theorem behind_cons (s : List α) :
    behind quote opened (c :: s) = behind quote (opened != quote c) s := rfl

@[simp] theorem behind_append (s t : List α) :
    behind quote opened (s ++ t) = behind quote (behind quote opened s) t := foldl_append

theorem argEnd_append (opened : Bool) (s : List α) : ∃ used, s = used ++ argEnd sep quote opened s ∧
    (argEnd sep quote opened s = [] ∨ behind quote opened used = false) := by
  induction s generalizing opened with
  | nil => exact ⟨[], rfl, .inl rfl⟩
  | cons c cs ih =>
    by_cases ends : (sep c && !opened) = true
    · have stop : argEnd sep quote opened (c :: cs) = c :: cs := if_pos ends
      rw [Bool.and_eq_true, Bool.not_eq_true'] at ends
      rw [stop]
      exact ⟨[], rfl, .inr ends.2⟩
    · have goes : argEnd sep quote opened (c :: cs) = argEnd sep quote (opened != quote c) cs :=
        if_neg ends
      obtain ⟨used, parts, outside⟩ := ih (opened != quote c)
      rw [goes]
      exact ⟨c :: used, congrArg (c :: ·) parts, outside⟩

theorem argEnd_length (opened : Bool) (s : List α) :
    (argEnd sep quote opened s).length ≤ s.length := by
  obtain ⟨used, parts, -⟩ := @argEnd_append α sep quote opened s
  have length := congrArg List.length parts
  rw [length_append] at length
  omega

theorem argEnd_shorter (plain : sep c = false) (cs : List α) :
    (argEnd sep quote false (c :: cs)).length ≤ cs.length := by
  rw [argEnd, plain]
  exact argEnd_length _ _

theorem argEnd_before (is : sep c = true) (outside : behind quote opened s = false)
    (rest : List α) : ∃ s', argEnd sep quote opened (s ++ c :: rest) = s' ++ c :: rest := by
  induction s generalizing opened with
  | nil =>
    rw [behind_nil] at outside
    exact ⟨[], if_pos (by rw [is, outside]; rfl)⟩
  | cons d s ih =>
    rw [cons_append, argEnd]
    split_ifs
    · exact ⟨d :: s, rfl⟩
    · exact ih outside

theorem argEnd_here {cs : List α} : argEnd sep quote opened (c :: cs) = c :: cs ↔
    sep c = true ∧ opened = false := by
  rw [argEnd]
  split_ifs with ends
  · rw [Bool.and_eq_true, Bool.not_eq_true'] at ends
    exact iff_of_true rfl ends
  · rw [Bool.and_eq_true, Bool.not_eq_true'] at ends
    refine iff_of_false ?_ ends
    intro same
    have length := @argEnd_length α sep quote (opened != quote c) cs
    rw [same, length_cons] at length
    omega

/-- An argument ends where a given rest of the text begins if there is no separator outside of
quotes before it and one at its start. -/
theorem argEnd_iff : argEnd sep quote opened (raw ++ rest) = rest ↔
    (∀ p c r, raw = p ++ c :: r → sep c = true → behind quote opened p = true) ∧
      (rest = [] ∨ behind quote opened raw = false ∧ ∃ c cs, rest = c :: cs ∧ sep c = true) := by
  induction raw generalizing opened with
  | nil =>
    cases rest with
    | nil => simp [argEnd]
    | cons c cs =>
      rw [nil_append, argEnd_here, behind_nil]
      simp [and_comm]
  | cons d raw ih =>
    have inner : (∀ p c r, d :: raw = p ++ c :: r → sep c = true → behind quote opened p = true) ↔
        (sep d = true → opened = true) ∧ (∀ p c r, raw = p ++ c :: r → sep c = true →
          behind quote (opened != quote d) p = true) := by
      constructor
      · intro all
        exact ⟨all [] d raw rfl, fun p c r parts => all (d :: p) c r (congrArg (d :: ·) parts)⟩
      · rintro ⟨first, others⟩ p c r parts is
        cases p with
        | nil =>
          cases parts
          exact first is
        | cons d' p =>
          cases parts
          exact others p c r rfl is
    rw [inner, cons_append, argEnd]
    split_ifs with ends
    · rw [Bool.and_eq_true, Bool.not_eq_true'] at ends
      refine iff_of_false ?_ ?_
      · intro same
        have length := congrArg List.length same
        rw [length_cons, length_append] at length
        omega
      · rintro ⟨⟨first, -⟩, -⟩
        rw [first ends.1] at ends
        cases ends.2
    · have first : sep d = true → opened = true := by simpa using ends
      rw [ih, behind_cons, and_iff_right first]

theorem dropWhile_last {p t : List α} {d e : α} (left : (p ++ [e]).dropWhile sep = d :: t) :
    ∃ q, d :: t = q ++ [e] := by
  have whole := @takeWhile_append_dropWhile _ sep (p ++ [e])
  rw [left] at whole
  obtain none | ⟨q, x, same⟩ := eq_nil_or_concat (d :: t)
  · cases none
  · rw [concat_eq_append] at same
    have last := congrArg List.getLast? whole
    rw [same, ← append_assoc, getLast?_concat, getLast?_concat] at last
    cases last
    exact ⟨q, same⟩

theorem head_other {d : α} {t : List α} (left : s.dropWhile sep = d :: t) : sep d = false := by
  have other := head?_dropWhile_not sep s
  rw [left] at other
  exact other

section Split

variable (plain : ∀ c, sep c = true → quote c = false)

include plain

theorem behind_seps (all : ∀ c ∈ s, sep c = true) : behind quote opened s = opened := by
  induction s with
  | nil => rfl
  | cons c s ih =>
    rw [behind_cons, plain c (all c mem_cons_self), Bool.bne_false]
    exact ih fun d mem => all d (mem_cons_of_mem c mem)

theorem behind_takeWhile (s : List α) : behind quote false (s.takeWhile sep) = false :=
  behind_seps plain fun _ mem => mem_takeWhile_imp mem

theorem mem_args {turns : Nat} (mem : (start, rest) ∈ args sep quote turns s) :
    ∃ before, s = before ++ start ∧ behind quote false before = false ∧
      argEnd sep quote false start = rest := by
  induction turns generalizing s with
  | zero => cases mem
  | succ turns ih =>
    unfold args at mem
    have parts := @takeWhile_append_dropWhile _ sep s
    cases first : s.dropWhile sep with
    | nil =>
      rw [first] at mem
      cases mem
    | cons c cs =>
      rw [first] at mem parts
      rcases List.mem_cons.1 mem with here | later
      · cases here
        exact ⟨s.takeWhile sep, parts.symm, behind_takeWhile plain s, rfl⟩
      · obtain ⟨before, same, outside, ends⟩ := ih later
        obtain ⟨used, arg, closed⟩ := @argEnd_append α sep quote false (c :: cs)
        rcases closed with last | closed
        · rw [last] at later
          cases turns with
          | zero => cases later
          | succ turns => cases later
        · refine ⟨s.takeWhile sep ++ (used ++ before), ?_, ?_, ends⟩
          · rw [append_assoc, append_assoc, ← same, ← arg, parts]
          · rw [behind_append, behind_append, behind_takeWhile plain, closed, outside]

/-- What is left of a text behind its first argument, if the argument ends before a separator
outside of quotes. -/
theorem argEnd_left {e : α} {q : List α} (is : sep e = true)
    (outside : behind quote false (q ++ [e]) = false) (rest : List α) :
    ∃ q', argEnd sep quote false (q ++ e :: rest) = q' ++ e :: rest ∧
      behind quote false (q' ++ [e]) = false := by
  have outside' : behind quote false q = false := by
    rw [behind_append, behind_cons, plain e is, Bool.bne_false] at outside
    exact outside
  obtain ⟨q', left⟩ := argEnd_before is outside' rest
  refine ⟨q', left, ?_⟩
  obtain ⟨used, parts, closed⟩ := @argEnd_append α sep quote false (q ++ e :: rest)
  rw [left] at parts closed
  rcases closed with none | closed
  · simp at none
  · have same : q ++ [e] = used ++ (q' ++ [e]) := by
      have : (q ++ [e]) ++ rest = (used ++ (q' ++ [e])) ++ rest := by simpa using parts
      exact append_cancel_right this
    rw [same, behind_append, closed] at outside
    exact outside

theorem args_mem {turns : Nat} (enough : s.length ≤ turns)
    (parts : s = before ++ c :: rest) (other : sep c = false)
    (outside : behind quote false before = false)
    (opens : before = [] ∨ ∃ p d, before = p ++ [d] ∧ sep d = true) :
    (c :: rest, argEnd sep quote false (c :: rest)) ∈ args sep quote turns s := by
  induction turns generalizing s before with
  | zero =>
    rw [parts, length_append, length_cons] at enough
    omega
  | succ turns ih =>
    unfold args
    cases left : before.dropWhile sep with
    | nil =>
      have first : s.dropWhile sep = c :: rest := by
        rw [parts, dropWhile_append_of_pos (List.dropWhile_eq_nil_iff.1 left)]
        exact dropWhile_cons_of_neg (by rw [other]; decide)
      rw [first]
      exact mem_cons_self
    | cons d before' =>
      have first : s.dropWhile sep = d :: (before' ++ c :: rest) := by
        rw [parts, dropWhile_append, left]
        rfl
      rw [first]
      refine mem_cons_of_mem _ ?_
      have whole := @takeWhile_append_dropWhile _ sep before
      rw [left] at whole
      obtain ⟨q, e, same, is⟩ : ∃ q e, d :: before' = q ++ [e] ∧ sep e = true := by
        rcases opens with rfl | ⟨p, e, rfl, is⟩
        · cases left
        · obtain ⟨q, same⟩ := dropWhile_last left
          exact ⟨q, e, same, is⟩
      have outside' : behind quote false (q ++ [e]) = false := by
        rw [← whole, behind_append, behind_takeWhile plain, same] at outside
        exact outside
      have text : d :: (before' ++ c :: rest) = q ++ e :: c :: rest := by
        rw [← cons_append, same, append_assoc]
        rfl
      have shorter := @argEnd_shorter α sep quote d (head_other left) (before' ++ c :: rest)
      have length := length_dropWhile_le sep s
      rw [first, length_cons] at length
      obtain ⟨q', behindArg, closed⟩ := argEnd_left plain is outside' (c :: rest)
      rw [text] at shorter ⊢
      refine ih ?_ ?_ closed (.inr ⟨q', e, rfl, is⟩)
      · omega
      · rw [behindArg, append_assoc]
        rfl

/-- An argument begins outside of quotes, at the start of the text or behind a separator. -/
theorem mem_split_iff (other : sep c = false)
    (opens : before = [] ∨ ∃ p d, before = p ++ [d] ∧ sep d = true) (rest' : List α) :
    (c :: rest, rest') ∈ split sep quote (before ++ c :: rest) ↔
      behind quote false before = false ∧ argEnd sep quote false (c :: rest) = rest' := by
  constructor
  · intro mem
    obtain ⟨before', same, outside, ends⟩ := mem_args plain mem
    rw [append_cancel_right same]
    exact ⟨outside, ends⟩
  · rintro ⟨outside, rfl⟩
    exact args_mem plain le_rfl rfl other outside opens

end Split

end QuoteSplit
