import Crinit.Lib.SwapRemove
import Crinit.TaskDB

/-! What `crinitTaskDBRemoveDepFromTaskStruct` leaves of a list of dependencies. The entry that
fills a gap is not looked at. -/
namespace Crinit

open List SwapRemove

variable {dep : TaskDep}

theorem removeAt_perm (dep : TaskDep) (deps : List TaskDep) (j : Nat)
    (hit : deps[j]? = some dep) : (dep :: removeAt dep deps j).Perm deps := by
  have removed : removeAt dep deps j = swapRemove deps j dep := if_pos hit
  rw [removed]
  obtain ⟨pre, post, rfl, rfl⟩ := split_at hit
  exact ((swapRemove_perm pre post dep dep).cons dep).trans List.perm_middle.symm

theorem removeAt_count {x : TaskDep} (ne : x ≠ dep) (deps : List TaskDep) (j : Nat) :
    (removeAt dep deps j).count x = deps.count x := by
  by_cases hit : deps[j]? = some dep
  · rw [← (removeAt_perm dep deps j hit).count_eq, count_cons_of_ne (Ne.symm ne)]
  · rw [removeAt, if_neg hit]

theorem removeLoop_count {x : TaskDep} (ne : x ≠ dep) (turns j : Nat) (deps : List TaskDep) :
    (removeLoop dep turns j deps).count x = deps.count x := by
  induction turns generalizing j deps with
  | zero => rfl
  | succ turns ih =>
    rw [removeLoop]
    split_ifs
    · rw [ih, removeAt_count ne]
    · rfl

/-- The entries that are moved into gaps: as many from the end as there are entries to be
removed behind the first one. -/
def movedDeps (dep : TaskDep) (deps : List TaskDep) : List TaskDep :=
  deps.drop (deps.length - (deps.count dep - 1))

theorem movedDeps_miss {x : TaskDep} (ne : x ≠ dep) (rest : List TaskDep) :
    movedDeps dep (x :: rest) = movedDeps dep rest := by
  have count : (x :: rest).count dep = rest.count dep := count_cons_of_ne ne
  have bound := count_le_length (a := dep) (l := rest)
  rw [movedDeps, movedDeps, count, length_cons]
  rw [show rest.length + 1 - (rest.count dep - 1) = rest.length - (rest.count dep - 1) + 1 by omega,
    drop_succ_cons]

theorem movedDeps_last (front : List TaskDep) : dep ∈ movedDeps dep (dep :: (front ++ [dep])) := by
  have count : (dep :: (front ++ [dep])).count dep = front.count dep + 2 := by simp
  rw [movedDeps, count, length_cons, length_append, length_singleton]
  refine mem_of_getElem? (i := front.length + 1 -
    (front.length + 1 + 1 - (front.count dep + 2 - 1))) ?_
  rw [getElem?_drop]
  have index : front.length + 1 + 1 - (front.count dep + 2 - 1) +
      (front.length + 1 - (front.length + 1 + 1 - (front.count dep + 2 - 1))) = front.length +
        1 := by omega
  rw [index]
  simp

theorem movedDeps_other {z : TaskDep} (ne : z ≠ dep) (front : List TaskDep) :
    dep ∈ movedDeps dep (dep :: (front ++ [z])) ↔ dep ∈ movedDeps dep front := by
  have count : (dep :: (front ++ [z])).count dep = front.count dep + 1 := by
    simp [count_append, ne]
  have bound := count_le_length (a := dep) (l := front)
  rw [movedDeps, movedDeps, count, length_cons, length_append, length_singleton, Nat.add_sub_cancel]
  rw [show front.length + 1 + 1 - front.count dep = (front.length + 1 - front.count dep) +
    1 by omega, drop_succ_cons]
  by_cases none : front.count dep = 0
  · rw [none]
    simp
  · rw [drop_append_of_le_length (by omega), mem_append, mem_singleton,
      or_iff_left (Ne.symm ne)]
    rw [show front.length + 1 - front.count dep = front.length - (front.count dep - 1) by omega]

/-- What is left behind the entries that were passed. -/
theorem mem_removeLoop_iff (turns : Nat) (pre deps : List TaskDep) (enough : deps.length ≤ turns) :
    dep ∈ removeLoop dep turns pre.length (pre ++ deps) ↔ dep ∈ pre ∨ dep ∈ movedDeps dep deps := by
  induction turns generalizing pre deps with
  | zero =>
    have none : deps = [] := List.length_eq_zero_iff.1 (Nat.le_zero.1 enough)
    subst none
    simp [removeLoop, movedDeps]
  | succ turns ih =>
    cases deps with
    | nil => simp [removeLoop, movedDeps]
    | cons x rest =>
      have inside : pre.length < (pre ++ x :: rest).length := by simp
      have here : (pre ++ x :: rest)[pre.length]? = some x := by simp
      rw [length_cons] at enough
      rw [removeLoop, if_pos inside]
      by_cases hit : x = dep
      · subst hit
        have removed : removeAt x (pre ++ x :: rest) pre.length =
            swapRemove (pre ++ x :: rest) pre.length x := if_pos here
        rw [removed]
        obtain rfl | ⟨front, z, rfl⟩ := eq_nil_or_concat rest
        -- the removed entry was the last one
        · rw [swapRemove_end]
          have done : removeLoop x turns (pre.length + 1) pre = pre := by
            cases turns with
            | zero => rfl
            | succ turns => rw [removeLoop, if_neg (by omega)]
          rw [done]
          simp [movedDeps]
        -- the last entry is moved and passed
        · rw [concat_eq_append] at enough ⊢
          have later := ih (pre ++ [z]) front (by simp at enough; omega)
          rw [length_append, length_singleton] at later
          rw [swapRemove_inside, later, mem_append, mem_singleton, or_assoc]
          by_cases same : z = x
          · subst same
            simp [movedDeps_last]
          · rw [movedDeps_other same]
            simp [Ne.symm same]
      · have later := ih (pre ++ [x]) rest (by omega)
        rw [length_append, length_singleton, append_assoc, singleton_append] at later
        rw [removeAt, here, if_neg (by simpa using hit), later, movedDeps_miss hit,
          mem_append, mem_singleton]
        simp [Ne.symm hit]

theorem mem_removeDeps_iff (deps : List TaskDep) :
    dep ∈ removeDeps dep deps ↔ dep ∈ movedDeps dep deps := by
  have loop : dep ∈ removeLoop dep deps.length ([] : List TaskDep).length ([] ++ deps) ↔ _ :=
    mem_removeLoop_iff deps.length [] deps (Nat.le_refl _)
  simpa [removeDeps] using loop

def Removed (dep : TaskDep) (before after : List TaskDep) : Prop :=
  after.Perm (before.filter fun d => d ≠ dep)

theorem removed_iff (deps : List TaskDep) :
    Removed dep deps (removeDeps dep deps) ↔ dep ∉ movedDeps dep deps := by
  rw [← mem_removeDeps_iff]
  constructor
  · intro removed mem
    simpa using removed.subset mem
  · intro gone
    refine List.perm_iff_count.2 fun x => ?_
    by_cases same : x = dep
    · rw [same, List.count_eq_zero.2 gone, List.count_eq_zero.2 (by simp)]
    · rw [count_filter (by simpa using same)]
      exact removeLoop_count same _ _ deps

/-- The removal is complete for a list exactly if no entry of the dependency is moved into
a gap, and no task stays blocked exactly if that holds for all of them. -/
theorem fulfilled_gone_iff (dep : TaskDep) :
    (∀ t : Task, Removed dep t.deps (removeDepFromTaskStruct dep t).deps ↔
      dep ∉ movedDeps dep t.deps) ∧
      ∀ db : TaskDB, (∀ t ∈ (db.fulfillDep dep none).db.taskSet, dep ∉ t.deps) ↔
        ∀ t ∈ db.taskSet, dep ∉ movedDeps dep t.deps := by
  refine ⟨fun t => removed_iff t.deps, fun db => ?_⟩
  have after : (db.fulfillDep dep none).db.taskSet = db.taskSet.map (removeDepFromTaskStruct dep) :=
    rfl
  rw [after, forall_mem_map]
  exact forall₂_congr fun t _ => not_congr (mem_removeDeps_iff t.deps)

def netUp : TaskDep := ⟨"network", "wait"⟩

def twiceBlocked : Task where
  name := "web"
  cmds := [["/bin/web"]]
  deps := [netUp, netUp]

/-- The second entry takes the place of the first one and stays. -/
theorem duplicate_survives : ¬ Removed netUp twiceBlocked.deps
      (removeDepFromTaskStruct netUp twiceBlocked).deps ∧
    (({ taskSet := [twiceBlocked] } : TaskDB).fulfillDep netUp none).db.taskSet.map Task.deps =
    [[netUp]] := by
  refine ⟨?_, by decide⟩
  intro removed
  exact absurd removed.length_eq (by decide)

end Crinit
