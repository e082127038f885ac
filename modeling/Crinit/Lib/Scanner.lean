import Mathlib.Tactic.Common

/-! Scanning by rules: of the rules that match, the first of those that look furthest is taken. -/
namespace Scanner

open List

/-- How many characters a rule looks at, what it reads, and where the input goes on, which is before
the end of what it looks at if the rule has a trailing context. -/
structure Match (α : Type) where
  look : Nat
  tag : α
  rest : List Char

def Match.map {α β : Type} (f : α → β) (m : Match α) : Match β := ⟨m.look, f m.tag, m.rest⟩

def longer {α : Type} (best : Option (Match α)) (m : Match α) : Option (Match α) :=
  match best with
  | none => some m
  | some b => if b.look < m.look then some m else some b

def longest {α : Type} (ms : List (Match α)) : Option (Match α) := ms.foldl longer none

variable {α : Type}

theorem longest_from (ms : List (Match α)) (b : Match α) :
    ∃ m, ms.foldl longer (some b) = some m ∧ (m = b ∨ m ∈ ms) ∧ b.look ≤ m.look ∧
      ∀ m' ∈ ms, m'.look ≤ m.look := by
  induction ms generalizing b with
  | nil => exact ⟨b, rfl, .inl rfl, Nat.le_refl _, fun _ none => by cases none⟩
  | cons x ms ih =>
    rw [foldl_cons, longer]
    split_ifs with more
    · obtain ⟨m, found, mem, low, all⟩ := ih x
      refine ⟨m, found, .inr ?_, by omega, List.forall_mem_cons.2 ⟨low, all⟩⟩
      rcases mem with rfl | mem
      · exact mem_cons_self
      · exact mem_cons_of_mem _ mem
    · obtain ⟨m, found, mem, low, all⟩ := ih b
      exact ⟨m, found, mem.imp_right (mem_cons_of_mem _), low,
        List.forall_mem_cons.2 ⟨by omega, all⟩⟩

theorem longest_cons (x : Match α) (ms : List (Match α)) :
    ∃ m, longest (x :: ms) = some m ∧ m ∈ x :: ms ∧ ∀ m' ∈ x :: ms, m'.look ≤ m.look := by
  obtain ⟨m, found, mem, low, all⟩ := longest_from ms x
  refine ⟨m, found, ?_, List.forall_mem_cons.2 ⟨low, all⟩⟩
  rcases mem with rfl | mem
  · exact mem_cons_self
  · exact mem_cons_of_mem _ mem

variable {ms : List (Match α)} {m : Match α}

theorem longest_mem (found : longest ms = some m) : m ∈ ms ∧ ∀ m' ∈ ms, m'.look ≤ m.look := by
  cases ms with
  | nil => cases found
  | cons x ms =>
    obtain ⟨m', found', mem, all⟩ := longest_cons x ms
    cases found.symm.trans found'
    exact ⟨mem, all⟩

theorem longest_exists (mem : m ∈ ms) : ∃ m', longest ms = some m' := by
  cases ms with
  | nil => cases mem
  | cons x ms =>
    obtain ⟨m', found, -⟩ := longest_cons x ms
    exact ⟨m', found⟩

theorem longest_eq (mem : m ∈ ms) (others : ∀ m' ∈ ms, m' = m ∨ m'.look < m.look) :
    longest ms = some m := by
  obtain ⟨m', found⟩ := longest_exists mem
  obtain ⟨mem', all⟩ := longest_mem found
  have low := all m mem
  rcases others m' mem' with rfl | less
  · exact found
  · omega

theorem longest_same (mem : m ∈ ms)
    (others : ∀ m' ∈ ms, m'.tag = m.tag ∧ m'.rest = m.rest ∨ m'.look < m.look) :
    ∃ k, longest ms = some ⟨k, m.tag, m.rest⟩ := by
  obtain ⟨m', found⟩ := longest_exists mem
  obtain ⟨mem', all⟩ := longest_mem found
  have low := all m mem
  rcases others m' mem' with ⟨tag, rest⟩ | less
  · exact ⟨m'.look, by rw [found, ← tag, ← rest]⟩
  · omega

def splits (p : Char → Bool) (lo hi : Nat) (s : List Char) : List (List Char × List Char) :=
  ((List.range' lo (hi + 1 - lo)).filter fun k => k ≤ s.length && (s.take k).all p).map
    fun k => (s.take k, s.drop k)

theorem mem_splits {p : Char → Bool} {lo hi : Nat} {s x rest : List Char} :
    (x, rest) ∈ splits p lo hi s ↔
      s = x ++ rest ∧ (∀ c ∈ x, p c = true) ∧ lo ≤ x.length ∧ x.length ≤ hi := by
  simp only [splits, mem_map, mem_filter, mem_range'_1, Bool.and_eq_true,
    decide_eq_true_eq, all_eq_true, Prod.mk.injEq]
  constructor
  · rintro ⟨k, ⟨range, inside, all⟩, rfl, rfl⟩
    exact ⟨(take_append_drop k s).symm, all, by simp; omega, by simp; omega⟩
  · rintro ⟨rfl, all, low, high⟩
    refine ⟨x.length, ⟨by omega, by simp, ?_⟩, by simp, by simp⟩
    simpa using all

def Closed (p : Char → Bool) (rest : List Char) : Prop := ∀ c ∈ rest.head?, p c = false

section Class

variable {p : Char → Bool} {x y rest rest' : List Char}

theorem closed_nil : Closed p [] := nofun

theorem closed_cons {c : Char} (outside : p c = false) (rest : List Char) :
    Closed p (c :: rest) := by
  intro x head
  cases head
  exact outside

theorem within_closed (closed : Closed p rest) (all : ∀ c ∈ y, p c = true)
    (same : y ++ rest' = x ++ rest) : ∃ z, x = y ++ z ∧ rest' = z ++ rest := by
  rcases List.append_eq_append_iff.1 same with ⟨z, rfl, rfl⟩ | ⟨z, rfl, rfl⟩
  · exact ⟨z, rfl, rfl⟩
  · cases z with
    | nil => exact ⟨[], by simp, rfl⟩
    | cons c z =>
      have inside := all c (by simp)
      have outside := closed c (by simp)
      rw [inside] at outside
      cases outside

theorem append_closed (closed : Closed p rest) (closed' : Closed p rest')
    (all : ∀ c ∈ x, p c = true)
    (all' : ∀ c ∈ y, p c = true) (same : y ++ rest' = x ++ rest) : y = x ∧ rest' = rest := by
  obtain ⟨z, rfl, rfl⟩ := within_closed closed all' same
  obtain ⟨z', eq, -⟩ := within_closed closed' all same.symm
  have lengths := congrArg List.length eq
  simp only [length_append] at lengths
  have none : z = [] := eq_nil_of_length_eq_zero (by omega)
  simp [none]

end Class

/-! ### Parts that may be left out -/

theorem absent {p : α → Prop} : ∀ a ∈ (none : Option α), p a := by
  rintro _ ⟨⟩

theorem present {p : α → Prop} {a : α} (holds : p a) : ∀ a' ∈ some a, p a' := by
  rintro _ ⟨⟩
  exact holds

end Scanner
