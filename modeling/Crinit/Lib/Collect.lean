import Mathlib.Data.List.Forall2
import Mathlib.Tactic.Common

/-! A fallible function on every element of a list: the results, if none of the calls fails. -/
namespace Collect

open List

variable {A B : Type} {f : A → Option B} {xs ys : List A} {as bs : List B}

theorem mapM_some_iff : xs.mapM f = some bs ↔ List.Forall₂ (fun x b => f x = some b) xs bs := by
  induction xs generalizing bs with
  | nil =>
    rw [mapM_nil, List.forall₂_nil_left_iff]
    change some [] = some bs ↔ bs = []
    rw [Option.some.injEq, eq_comm]
  | cons x xs ih =>
    rw [mapM_cons, List.forall₂_cons_left_iff]
    constructor
    · intro found
      obtain ⟨b, first, rest⟩ := Option.bind_eq_some_iff.1 found
      obtain ⟨bs, others, same⟩ := Option.bind_eq_some_iff.1 rest
      exact ⟨b, bs, first, ih.1 others, (Option.some.inj same).symm⟩
    · rintro ⟨b, bs, first, others, rfl⟩
      rw [first, ih.2 others]
      rfl

theorem mapM_append (first : xs.mapM f = some as) (second : ys.mapM f = some bs) :
    (xs ++ ys).mapM f = some (as ++ bs) := by
  rw [List.mapM_append, first, second]
  rfl

theorem mapM_none_iff : xs.mapM f = none ↔ ∃ x ∈ xs, f x = none := by
  induction xs with
  | nil => simp
  | cons x xs ih =>
    rw [mapM_cons, exists_mem_cons_iff, ← ih]
    cases f x with
    | none => simp
    | some b => cases xs.mapM f <;> simp

theorem mapM_all (all : ∀ x ∈ xs, ∃ b, f x = some b) : ∃ bs, xs.mapM f = some bs := by
  cases found : xs.mapM f with
  | some bs => exact ⟨bs, rfl⟩
  | none =>
    obtain ⟨x, mem, missing⟩ := mapM_none_iff.1 found
    obtain ⟨b, here⟩ := all x mem
    rw [missing] at here
    cases here

theorem mapM_congr {g : A → Option B} (same : ∀ x ∈ xs, f x = g x) : xs.mapM f = xs.mapM g := by
  induction xs with
  | nil => rfl
  | cons x xs ih =>
    rw [mapM_cons, mapM_cons, same x mem_cons_self, ih fun x mem => same x (mem_cons_of_mem _ mem)]

theorem forall₂_left {R : A → B → Prop} (pairs : List.Forall₂ R xs bs) {x : A} (mem : x ∈ xs) :
    ∃ b ∈ bs, R x b := by
  induction pairs with
  | nil => cases mem
  | @cons a b xs bs first _ ih =>
    rcases List.mem_cons.1 mem with rfl | mem
    · exact ⟨b, mem_cons_self, first⟩
    · obtain ⟨b', mem', related⟩ := ih mem
      exact ⟨b', mem_cons_of_mem _ mem', related⟩

theorem forall₂_right {R : A → B → Prop} (pairs : List.Forall₂ R xs bs) {b : B} (mem : b ∈ bs) :
    ∃ x ∈ xs, R x b := by
  induction pairs with
  | nil => cases mem
  | @cons a b' xs bs first _ ih =>
    rcases List.mem_cons.1 mem with rfl | mem
    · exact ⟨a, mem_cons_self, first⟩
    · obtain ⟨x, mem', related⟩ := ih mem
      exact ⟨x, mem_cons_of_mem _ mem', related⟩

section Copies

variable {E : Type} {copy : A → Except E A} {read : A → Option B}

theorem mapM_ok_cons {x : A} : (x :: xs).mapM copy = .ok ys ↔
    ∃ y rest, copy x = .ok y ∧ xs.mapM copy = .ok rest ∧ y :: rest = ys := by
  rw [mapM_cons]
  cases copy x with
  | error e =>
    constructor
    · intro failed
      cases failed
    · rintro ⟨y, rest, failed, -⟩
      cases failed
  | ok y =>
    cases xs.mapM copy with
    | error e =>
      constructor
      · intro failed
        cases failed
      · rintro ⟨y, rest, -, failed, -⟩
        cases failed
    | ok rest =>
      constructor
      · intro copied
        cases copied
        exact ⟨y, rest, rfl, rfl, rfl⟩
      · rintro ⟨_, _, ⟨⟩, ⟨⟩, rfl⟩
        rfl

theorem mapM_ok (all : ∀ x ∈ xs, ∃ y, copy x = .ok y) : ∃ ys, xs.mapM copy = .ok ys := by
  induction xs with
  | nil => exact ⟨[], rfl⟩
  | cons x xs ih =>
    obtain ⟨y, here⟩ := all x mem_cons_self
    obtain ⟨ys, rest⟩ := ih fun x mem => all x (mem_cons_of_mem _ mem)
    exact ⟨y :: ys, mapM_ok_cons.2 ⟨y, ys, here, rest, rfl⟩⟩

theorem mapM_faithful (same : ∀ x ∈ xs, ∃ y, copy x = .ok y ∧ read y = read x) :
    ∃ ys, xs.mapM copy = .ok ys ∧ ys.mapM read = xs.mapM read := by
  induction xs with
  | nil => exact ⟨[], rfl, rfl⟩
  | cons x xs ih =>
    obtain ⟨y, here, reads⟩ := same x mem_cons_self
    obtain ⟨ys, copied, rest⟩ := ih fun x mem => same x (mem_cons_of_mem _ mem)
    refine ⟨y :: ys, mapM_ok_cons.2 ⟨y, ys, here, copied, rfl⟩, ?_⟩
    rw [mapM_cons, mapM_cons, reads, rest]

theorem mapM_copied_mem (copied : xs.mapM copy = .ok ys) {x : A} (mem : x ∈ xs) :
    ∃ y ∈ ys, copy x = .ok y := by
  induction xs generalizing ys with
  | nil => cases mem
  | cons x' xs ih =>
    obtain ⟨y, rest, here, others, rfl⟩ := mapM_ok_cons.1 copied
    rcases List.mem_cons.1 mem with rfl | mem
    · exact ⟨y, mem_cons_self, here⟩
    · obtain ⟨y', mem', copied'⟩ := ih others mem
      exact ⟨y', mem_cons_of_mem _ mem', copied'⟩

end Copies

end Collect
