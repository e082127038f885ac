import Mathlib.Data.List.Basic

/-! The past of a finite trace, oldest entry first. -/
namespace History

open List

variable {A : Type}

def Since (keep mark : A → Prop) (tr : List A) : Prop :=
  ∃ earlier e later, tr = earlier ++ e :: later ∧ mark e ∧ ∀ x ∈ later, keep x

theorem since_snoc (keep mark : A → Prop) (tr : List A) (x : A) :
    Since keep mark (tr ++ [x]) ↔ mark x ∨ (keep x ∧ Since keep mark tr) := by
  constructor
  · rintro ⟨earlier, e, later, h, hm, hk⟩
    rcases eq_nil_or_concat later with rfl | ⟨front, last, rfl⟩
    · left
      have hlast : x = e := by simpa using (append_inj' h rfl).2
      exact hlast ▸ hm
    · right
      simp only [concat_eq_append] at h hk
      rw [← cons_append, ← append_assoc] at h
      have hlast : x = last := by simpa using (append_inj' h rfl).2
      have hfront := (append_inj' h rfl).1
      subst last
      exact ⟨hk x (by simp), earlier, e, front, hfront, hm, fun y hy => hk y (by simp [hy])⟩
  · rintro (hm | ⟨hk, earlier, e, later, rfl, hm, hl⟩)
    · exact ⟨tr, x, [], rfl, hm, by simp⟩
    · refine ⟨earlier, e, later ++ [x], by simp, hm, ?_⟩
      intro y hy
      rcases List.mem_append.mp hy with hy | hy
      · exact hl y hy
      · have eq : y = x := by simpa using hy
        exact eq ▸ hk

end History
