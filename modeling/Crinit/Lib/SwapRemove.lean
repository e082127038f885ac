import Mathlib.Data.List.Perm.Basic

/-! Removing from an array by moving its last element into the gap. -/
namespace SwapRemove

open List

variable {α : Type}

/-- The element at `i` is overwritten with the last one, unless it is the last one itself. -/
def swapRemove (l : List α) (i : Nat) (d : α) : List α :=
  if i < l.length - 1 then (l.set i (l.getLastD d)).dropLast else l.dropLast

theorem swapRemove_end (pre : List α) (x d : α) : swapRemove (pre ++ [x]) pre.length d = pre := by
  rw [swapRemove, if_neg (by simp), dropLast_concat]

theorem swapRemove_inside (pre front : List α) (x z d : α) :
    swapRemove (pre ++ x :: (front ++ [z])) pre.length d = pre ++ [z] ++ front := by
  have last : pre ++ x :: (front ++ [z]) = (pre ++ x :: front) ++ [z] := by simp
  have there : pre.length < (pre ++ x :: front).length := by simp
  have more : pre.length < ((pre ++ x :: front) ++ [z]).length - 1 := by simp
  rw [last, swapRemove, if_pos more, getLastD_concat, set_append_left _ _ there,
    dropLast_concat, set_append_right _ _ (Nat.le_refl _), Nat.sub_self,
    set_cons_zero, append_assoc, singleton_append]

theorem swapRemove_perm (pre post : List α) (x d : α) :
    (swapRemove (pre ++ x :: post) pre.length d).Perm (pre ++ post) := by
  obtain rfl | ⟨front, z, rfl⟩ := eq_nil_or_concat post
  · rw [swapRemove_end, append_nil]
  · rw [concat_eq_append, swapRemove_inside, append_assoc]
    exact (perm_append_singleton z front).symm.append_left pre

theorem split_at {l : List α} {i : Nat} {x : α} (there : l[i]? = some x) :
    ∃ pre post, l = pre ++ x :: post ∧ pre.length = i := by
  obtain ⟨inside, rfl⟩ := List.getElem?_eq_some_iff.1 there
  refine ⟨l.take i, l.drop (i + 1), ?_, length_take_of_le (Nat.le_of_lt inside)⟩
  rw [getElem_cons_drop, take_append_drop]

end SwapRemove
