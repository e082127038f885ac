import Mathlib.Data.List.Basic

/-! One thread and the default mutexes it locks. A thread that locks a mutex it
holds waits for itself: the computation has no result. -/
namespace Locks

open List

variable {L S A B : Type}

structure Holding (L S : Type) where
  held : List L
  state : S

abbrev Locked (L S : Type) := StateT (Holding L S) Option

def access : Locked L S S := fun s => some (s.state, s)

def update (f : S → S) : Locked L S Unit := fun s => some ((), ⟨s.held, f s.state⟩)

@[simp] theorem access_run (s : Holding L S) : (access : Locked L S S).run s = some (s.state, s) :=
  rfl

@[simp] theorem update_run (f : S → S) (s : Holding L S) :
    (update f : Locked L S Unit).run s = some ((), ⟨s.held, f s.state⟩) := rfl

variable {f : A → Locked L S B}

theorem mapM_run {g : A → B} {blocks : A → Bool} {s : Holding L S}
    (turn : ∀ x, (f x).run s = if blocks x then none else some (g x, s)) (xs : List A) :
    (xs.mapM f).run s = if xs.any blocks then none else some (xs.map g, s) := by
  induction xs with
  | nil => rfl
  | cons x xs ih =>
    simp only [mapM_cons, StateT.run_bind, turn, any_cons, map_cons]
    cases blocks x with
    | true => rfl
    | false =>
      simp only [Bool.false_eq_true, if_false, Option.bind_eq_bind, Option.bind_some, ih,
        Bool.false_or]
      split_ifs <;> rfl

def Ensures (prog : Locked L S A) (s : Holding L S) (post : A → Holding L S → Prop) : Prop :=
  ∃ (a : A) (s' : Holding L S), prog.run s = some (a, s') ∧ post a s'

section Rules

variable {s : Holding L S}

theorem ensures_pure {a : A} {post : A → Holding L S → Prop} (holds : post a s) :
    Ensures (pure a) s post := ⟨a, s, rfl, holds⟩

variable {m : Locked L S A}

theorem ensures_bind {post : B → Holding L S → Prop}
    (first : Ensures m s fun a s' => Ensures (f a) s' post) : Ensures (m >>= f) s post := by
  obtain ⟨a, s', ran, b, s'', rest, holds⟩ := first
  refine ⟨b, s'', ?_, holds⟩
  rw [StateT.run_bind, ran]
  exact rest

theorem ensures_mono {strong weak : A → Holding L S → Prop} (ensures : Ensures m s strong)
    (weaken : ∀ a s', strong a s' → weak a s') : Ensures m s weak := by
  obtain ⟨a, s', ran, holds⟩ := ensures
  exact ⟨a, s', ran, weaken a s' holds⟩

theorem ensures_result {post : A → Holding L S → Prop} {r : A × Holding L S}
    (ensures : Ensures m s post) (ran : m.run s = some r) : post r.1 r.2 := by
  obtain ⟨a, s', there, holds⟩ := ensures
  cases there.symm.trans ran
  exact holds

/-- The invariant of a loop speaks of the results so far and of the elements to come. -/
theorem ensures_mapM {inv : List B → List A → Holding L S → Prop}
    (turn : ∀ done x todo s, inv done (x :: todo) s →
      Ensures (f x) s fun b s' => inv (done ++ [b]) todo s') (xs : List A) (done : List B)
    (start : inv done xs s) : Ensures (xs.mapM f) s fun bs s' => inv (done ++ bs) [] s' := by
  induction xs generalizing done s with
  | nil =>
    rw [mapM_nil]
    exact ensures_pure (by rwa [append_nil])
  | cons x xs ih =>
    rw [mapM_cons]
    refine ensures_bind (ensures_mono (turn done x xs s start) fun b s' now => ?_)
    refine ensures_bind (ensures_mono (ih (done ++ [b]) now) fun bs s'' rest => ensures_pure ?_)
    rwa [append_assoc] at rest

end Rules

section Mutexes

variable [DecidableEq L]

def acquire (l : L) : Locked L S Unit := fun s =>
  if l ∈ s.held then none else some ((), ⟨l :: s.held, s.state⟩)

def release (l : L) : Locked L S Unit := fun s => some ((), ⟨s.held.erase l, s.state⟩)

def critical (l : L) (body : Locked L S A) : Locked L S A := do
  acquire l
  let r ← body
  release l
  return r

variable {l : L} {s : Holding L S}

theorem critical_held (held : l ∈ s.held) (body : Locked L S A) :
    (critical l body).run s = none := by
  have blocked : (acquire l : Locked L S Unit).run s = none := if_pos held
  simp only [critical, StateT.run_bind, blocked, Option.bind_eq_bind, Option.bind_none]

theorem critical_free (free : l ∉ s.held) (body : Locked L S A) :
    (critical l body).run s = (body.run ⟨l :: s.held, s.state⟩).map
      fun r => (r.1, ⟨r.2.held.erase l, r.2.state⟩) := by
  have acquired : (acquire l : Locked L S Unit).run s = some ((), ⟨l :: s.held, s.state⟩) :=
    if_neg free
  simp only [critical, StateT.run_bind, acquired, Option.bind_eq_bind, Option.bind_some]
  cases body.run ⟨l :: s.held, s.state⟩ <;> rfl

theorem critical_isSome (free : l ∉ s.held) (body : Locked L S A) :
    ((critical l body).run s).isSome = (body.run ⟨l :: s.held, s.state⟩).isSome := by
  rw [critical_free free, Option.isSome_map]

theorem ensures_critical {body : Locked L S A} {post : A → Holding L S → Prop} (free : l ∉ s.held)
    (inside : Ensures body ⟨l :: s.held, s.state⟩ fun a s' => post a ⟨s'.held.erase l, s'.state⟩) :
    Ensures (critical l body) s post := by
  obtain ⟨a, s', ran, holds⟩ := inside
  exact ⟨a, _, by rw [critical_free free, ran, Option.map_some], holds⟩

end Mutexes

end Locks
