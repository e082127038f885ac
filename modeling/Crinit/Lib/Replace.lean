import Mathlib.Data.List.Infix

/-! The replacement of every occurrence of a pattern in a list, from the start on. -/
namespace Replace

open List

variable {α : Type} [DecidableEq α]

/-- The first `k` elements are what is left of an occurrence. -/
def replaceFrom (pat rep : List α) : Nat → List α → List α
  | _, [] => []
  | k + 1, _ :: s => replaceFrom pat rep k s
  | 0, a :: s =>
    if pat.isPrefixOf (a :: s) then rep ++ replaceFrom pat rep (pat.length - 1) s
    else a :: replaceFrom pat rep 0 s

def replace (pat rep s : List α) : List α := replaceFrom pat rep 0 s

variable {pat rep s : List α} {a : α}

theorem replaceFrom_drop (pat rep : List α) (k : Nat) (s : List α) :
    replaceFrom pat rep k s = replace pat rep (s.drop k) := by
  induction k generalizing s with
  | zero => rfl
  | succ k ih =>
    cases s with
    | nil => rfl
    | cons a s => exact ih s

theorem mem_replaceFrom {b : α} (k : Nat) (s : List α) :
    b ∈ replaceFrom pat rep k s → b ∈ rep ∨ b ∈ s := by
  fun_induction replaceFrom pat rep k s with
  | case1 => exact fun mem => absurd mem not_mem_nil
  | case2 k a s ih => exact fun mem => (ih mem).imp_right (mem_cons_of_mem a)
  | case3 a s here ih =>
    intro mem
    rcases List.mem_append.1 mem with mem | mem
    · exact .inl mem
    · exact (ih mem).imp_right (mem_cons_of_mem a)
  | case4 a s here ih =>
    intro mem
    rcases List.mem_cons.1 mem with rfl | mem
    · exact .inr mem_cons_self
    · exact (ih mem).imp_right (mem_cons_of_mem a)

theorem mem_replace {b : α} (mem : b ∈ replace pat rep s) : b ∈ rep ∨ b ∈ s :=
  mem_replaceFrom 0 s mem

theorem replace_nil (pat rep : List α) : replace pat rep [] = [] := rfl

theorem replace_here (some : pat ≠ []) (s : List α) :
    replace pat rep (pat ++ s) = rep ++ replace pat rep s := by
  obtain ⟨a, pat, rfl⟩ := exists_cons_of_ne_nil some
  have here : (a :: pat).isPrefixOf (a :: (pat ++ s)) = true :=
    List.isPrefixOf_iff_prefix.2 ⟨s, rfl⟩
  rw [cons_append, replace, replaceFrom, if_pos here, replaceFrom_drop, length_cons,
    Nat.add_sub_cancel, drop_left]

theorem replace_cons (other : ¬ pat <+: a :: s) :
    replace pat rep (a :: s) = a :: replace pat rep s :=
  if_neg fun here => other (List.isPrefixOf_iff_prefix.1 here)

omit [DecidableEq α] in
theorem not_prefix_cons (some : pat ≠ []) (other : pat.head? ≠ .some a) : ¬ pat <+: a :: s := by
  intro occurs
  obtain ⟨b, pat, rfl⟩ := exists_cons_of_ne_nil some
  exact other (congrArg Option.some (List.cons_prefix_cons.1 occurs).1)

theorem replace_skip {g : List α} (other : ∀ b ∈ g, pat.head? ≠ some b) (some : pat ≠ [])
    (s : List α) : replace pat rep (g ++ s) = g ++ replace pat rep s := by
  induction g with
  | nil => rfl
  | cons b g ih =>
    rw [cons_append, replace_cons (not_prefix_cons some (other b mem_cons_self)),
      ih fun c mem => other c (mem_cons_of_mem _ mem), cons_append]

omit [DecidableEq α] in
theorem infix_skip {g : List α} (other : ∀ b ∈ g, pat.head? ≠ some b) (some : pat ≠ [])
    (s : List α) : pat <:+: g ++ s ↔ pat <:+: s := by
  induction g with
  | nil => rfl
  | cons b g ih =>
    rw [cons_append, infix_cons_iff,
      or_iff_right (not_prefix_cons some (other b mem_cons_self)),
      ih fun c mem => other c (mem_cons_of_mem _ mem)]

theorem replace_none (none : ¬ pat <:+: s) : replace pat rep s = s := by
  induction s with
  | nil => rfl
  | cons a s ih =>
    rw [infix_cons_iff, not_or] at none
    rw [replace_cons none.1, ih none.2]

theorem replace_ne (some : pat ≠ []) (some' : rep ≠ []) (other : rep.head? ≠ pat.head?)
    (occurs : pat <:+: s) : replace pat rep s ≠ s := by
  induction s with
  | nil => exact absurd (List.infix_nil.1 occurs) some
  | cons a s ih =>
    by_cases here : pat <+: a :: s
    · obtain ⟨t, whole⟩ := here
      rw [← whole, replace_here some]
      intro same
      have heads := congrArg List.head? same
      rw [head?_append_of_ne_nil _ some', head?_append_of_ne_nil _ some] at heads
      exact other heads
    · rw [infix_cons_iff, or_iff_right here] at occurs
      rw [replace_cons here]
      exact fun same => ih occurs (List.cons.inj same).2

theorem replace_eq_self_iff (some : pat ≠ []) (some' : rep ≠ []) (other : rep.head? ≠ pat.head?) :
    replace pat rep s = s ↔ ¬ pat <:+: s :=
  ⟨fun same occurs => replace_ne some some' other occurs same, replace_none⟩

end Replace
