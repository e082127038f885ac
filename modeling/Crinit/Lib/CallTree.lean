import Mathlib.Data.Finset.Insert
import Mathlib.Data.Finset.Union

/-! A program as the calls it makes, each with the ways to go on after its answers, and what they do
to the default mutexes its thread holds. -/
namespace CallTree

open List

variable {C L A B : Type} {Ans : C → Type}

inductive Prog (Ans : C → Type) (A : Type) where
  | done (a : A)
  | call (c : C) (next : Ans c → Prog Ans A)

def Prog.bind (p : Prog Ans A) (f : A → Prog Ans B) : Prog Ans B :=
  match p with
  | .done a => f a
  | .call c next => .call c fun a => (next a).bind f

instance : Monad (Prog Ans) where
  pure := .done
  bind := .bind

def ask (c : C) : Prog Ans (Ans c) := .call c .done

abbrev Answered (Ans : C → Type) := (c : C) × Ans c

/-- What the environment answers to a call, by the number of the calls made before. -/
abbrev World (Ans : C → Type) := (c : C) → Nat → Ans c

def Prog.run (w : World Ans) : Prog Ans A → Nat → List (Answered Ans) × A
  | .done a, _ => ([], a)
  | .call c next, n =>
    let rest := (next (w c n)).run w (n + 1)
    (⟨c, w c n⟩ :: rest.1, rest.2)

def Prog.Every (p : Prog Ans A) (prop : List (Answered Ans) → A → Prop) : Prop :=
  ∀ w n, prop (p.run w n).1 (p.run w n).2

section Runs

variable {p : Prog Ans A} {f : A → Prog Ans B}

theorem run_bind (w : World Ans) (n : Nat) :
    (p >>= f).run w n =
      ((p.run w n).1 ++ ((f (p.run w n).2).run w (n + (p.run w n).1.length)).1,
        ((f (p.run w n).2).run w (n + (p.run w n).1.length)).2) := by
  change (p.bind f).run w n = _
  induction p generalizing n with
  | done a => rfl
  | call c next ih =>
    simp only [Prog.bind, Prog.run, ih, cons_append, length_cons, Nat.add_assoc, Nat.add_comm 1]

theorem every_pure {a : A} {prop : List (Answered Ans) → A → Prop} (holds : prop [] a) :
    (pure a : Prog Ans A).Every prop := fun _ _ => holds

theorem every_ask {c : C} {prop : List (Answered Ans) → Ans c → Prop}
    (holds : ∀ a, prop [⟨c, a⟩] a) : (ask c).Every prop := fun w n => holds (w c n)

theorem every_bind {prop : List (Answered Ans) → B → Prop}
    (holds : p.Every fun t a => (f a).Every fun t' b => prop (t ++ t') b) :
    (p >>= f).Every prop := by
  intro w n
  rw [run_bind]
  exact holds w n w _

theorem every_mono {strong weak : List (Answered Ans) → A → Prop} (holds : p.Every strong)
    (weaken : ∀ t a, strong t a → weak t a) : p.Every weak :=
  fun w n => weaken _ _ (holds w n)

theorem every_if {cond : Prop} [Decidable cond] {q : Prog Ans A}
    {prop : List (Answered Ans) → A → Prop} (yes : cond → p.Every prop)
    (no : ¬cond → q.Every prop) : (if cond then p else q).Every prop := by
  split
  · exact yes ‹_›
  · exact no ‹_›

end Runs

inductive Effect (L : Type) where
  | nothing
  | locks (l : L)
  | refused (l : L)
  | unlocks (l : L)

/-- A thread that asks for a mutex it holds waits for itself. -/
def Effect.on [DecidableEq L] : Effect L → Finset L → Option (Finset L)
  | .nothing, held => some held
  | .locks l, held => if l ∈ held then none else some (insert l held)
  | .refused l, held => if l ∈ held then none else some held
  | .unlocks l, held => some (held.erase l)

def Effect.wants : Effect L → List L
  | .locks l | .refused l => [l]
  | .nothing | .unlocks _ => []

/-- What the answered calls do, and an order in which the mutexes are nested: a thread that holds
one asks for lower ones only. -/
structure Locking (Ans : C → Type) (L : Type) where
  effect : Answered Ans → Effect L
  rank : L → Nat

section Mutexes

variable [DecidableEq L] (s : Locking Ans L)

def Locking.replay : List (Answered Ans) → Finset L → Option (Finset L)
  | [], held => some held
  | a :: t, held => ((s.effect a).on held).bind (Locking.replay t)

def Locking.wanted (t : List (Answered Ans)) : List L := t.flatMap fun a => (s.effect a).wants

def Locking.Balanced (t : List (Answered Ans)) (held : Finset L) : Prop :=
  s.replay t held = some held

instance (t : List (Answered Ans)) (held : Finset L) : Decidable (s.Balanced t held) :=
  inferInstanceAs (Decidable (_ = _))

variable {s} {t t' : List (Answered Ans)} {held after : Finset L} {l : L}

theorem replay_append : s.replay (t ++ t') held = (s.replay t held).bind (s.replay t') := by
  induction t generalizing held with
  | nil => rfl
  | cons a t ih =>
    simp only [cons_append, Locking.replay]
    cases (s.effect a).on held with
    | none => rfl
    | some next => exact ih

theorem replay_append_some : s.replay (t ++ t') held = some after ↔
    ∃ mid, s.replay t held = some mid ∧ s.replay t' mid = some after := by
  rw [replay_append, Option.bind_eq_some_iff]

omit [DecidableEq L] in
theorem wanted_append : s.wanted (t ++ t') = s.wanted t ++ s.wanted t' := flatMap_append

theorem on_mem {e : Effect L} (done : e.on held = some after) (mem : l ∈ after) :
    l ∈ held ∨ l ∈ e.wants := by
  cases e with
  | nothing => cases done; exact .inl mem
  | locks m =>
    simp only [Effect.on, Option.ite_none_left_eq_some, Option.some.injEq] at done
    rw [← done.2] at mem
    rcases Finset.mem_insert.mp mem with rfl | mem
    · exact .inr (mem_singleton_self l)
    · exact .inl mem
  | refused m =>
    simp only [Effect.on, Option.ite_none_left_eq_some, Option.some.injEq] at done
    exact .inl (done.2 ▸ mem)
  | unlocks m => cases done; exact .inl (Finset.mem_of_mem_erase mem)

theorem replay_mem (ran : s.replay t held = some after) (mem : l ∈ after) :
    l ∈ held ∨ l ∈ s.wanted t := by
  induction t generalizing held with
  | nil => cases ran; exact .inl mem
  | cons a t ih =>
    obtain ⟨next, done, rest⟩ := Option.bind_eq_some_iff.mp ran
    rcases ih rest with there | wanted
    · exact (on_mem done there).imp id (mem_append_left _)
    · exact .inr (mem_append_right _ wanted)

/-- A part of a run that asks for mutexes below `k`, gives up none that was held before it and is
balanced unless the caller holds one of those mutexes or something bad happens. -/
structure Tidy (s : Locking Ans L) (k : Nat) (t : List (Answered Ans)) (bad : Prop) : Prop where
  grows : ∀ held after, s.replay t held = some after → held ⊆ after
  balanced : ∀ held, s.Balanced t held ↔ (∀ l ∈ s.wanted t, l ∉ held) ∧ ¬bad
  below : ∀ l ∈ s.wanted t, s.rank l < k

def holding (got : Bool) (l : L) (held : Finset L) : Finset L := if got then insert l held else held

structure Closes (s : Locking Ans L) (k : Nat) (l : L) (got : Bool) (t : List (Answered Ans))
    (bad : Prop) : Prop where
  grows : ∀ held after, l ∉ held → s.replay t (holding got l held) = some after → held ⊆ after
  balanced : ∀ held, l ∉ held → (s.replay t (holding got l held) = some held ↔
    (∀ x ∈ s.wanted t, x ∉ held) ∧ ¬bad)
  below : ∀ x ∈ s.wanted t, s.rank x < k

section Parts

variable {k : Nat} {bad bad' : Prop} {got : Bool} {a : Answered Ans}

theorem subset_holding : held ⊆ holding got l held := by
  cases got with
  | false => exact Finset.Subset.refl _
  | true => exact Finset.subset_insert l held

theorem tidy_iff (tidy : Tidy s k t bad) (same : bad ↔ bad') : Tidy s k t bad' :=
  ⟨tidy.grows, fun held => by rw [tidy.balanced, same], tidy.below⟩

theorem tidy_unique {k' : Nat} (tidy : Tidy s k t bad) (tidy' : Tidy s k' t bad') :
    bad ↔ bad' := by
  have here := (tidy.balanced ∅).symm.trans (tidy'.balanced ∅)
  simpa [not_iff_not] using here

theorem closes_iff (closes : Closes s k l got t bad) (same : bad ↔ bad') :
    Closes s k l got t bad' :=
  ⟨closes.grows, fun held out => by rw [closes.balanced held out, same], closes.below⟩

theorem tidy_mono {k' : Nat} (tidy : Tidy s k t bad) (le : k ≤ k') : Tidy s k' t bad :=
  ⟨tidy.grows, tidy.balanced, fun l mem => Nat.lt_of_lt_of_le (tidy.below l mem) le⟩

theorem tidy_nil : Tidy s k [] False where
  grows held after ran := by cases ran; exact Finset.Subset.refl _
  balanced held := by simp [Locking.Balanced, Locking.replay, Locking.wanted]
  below l mem := absurd mem not_mem_nil

theorem tidy_step (neutral : s.effect a = .nothing) : Tidy s k [a] False where
  grows held after ran := by
    simp only [Locking.replay, neutral, Effect.on, Option.bind_some, Option.some.injEq] at ran
    rw [ran]
  balanced held := by
    simp [Locking.Balanced, Locking.replay, Locking.wanted, neutral, Effect.on, Effect.wants]
  below l mem := by simp [Locking.wanted, neutral, Effect.wants] at mem

theorem tidy_append (first : Tidy s k t bad) (second : Tidy s k t' bad') :
    Tidy s k (t ++ t') (bad ∨ bad') where
  grows held after ran := by
    obtain ⟨mid, left, right⟩ := replay_append_some.mp ran
    exact (first.grows _ _ left).trans (second.grows _ _ right)
  balanced held := by
    rw [wanted_append, Locking.Balanced, replay_append_some, forall_mem_append, not_or]
    constructor
    · rintro ⟨mid, left, right⟩
      -- what the first part adds, the second cannot give up
      have same : mid = held :=
        Finset.Subset.antisymm (second.grows _ _ right) (first.grows _ _ left)
      subst same
      obtain ⟨free, fine⟩ := (first.balanced mid).mp left
      obtain ⟨free', fine'⟩ := (second.balanced mid).mp right
      exact ⟨⟨free, free'⟩, fine, fine'⟩
    · rintro ⟨⟨free, free'⟩, fine, fine'⟩
      exact ⟨_, (first.balanced held).mpr ⟨free, fine⟩, (second.balanced held).mpr ⟨free', fine'⟩⟩
  below l mem := by
    rw [wanted_append] at mem
    exact (List.mem_append.mp mem).elim (first.below l) (second.below l)

theorem tidy_lock (asks : s.effect a = if got then .locks l else .refused l) (lower : s.rank l < k)
    (rest : Closes s k l got t bad) : Tidy s k (a :: t) bad := by
  have run : ∀ held, s.replay (a :: t) held =
      if l ∈ held then none else s.replay t (holding got l held) := by
    intro held
    rw [Locking.replay, asks]
    cases got <;> by_cases mem : l ∈ held <;> simp [Effect.on, holding, mem]
  have wants : s.wanted (a :: t) = l :: s.wanted t := by
    rw [Locking.wanted, flatMap_cons, asks]
    cases got <;> rfl
  constructor
  case grows =>
    intro held after ran
    rw [run, Option.ite_none_left_eq_some] at ran
    exact rest.grows held after ran.1 ran.2
  case balanced =>
    intro held
    rw [Locking.Balanced, run, wants, forall_mem_cons]
    by_cases mem : l ∈ held
    · simp [mem]
    · simp [mem, rest.balanced held mem]
  case below =>
    intro x mem
    rw [wants] at mem
    rcases List.mem_cons.mp mem with rfl | mem
    · exact lower
    · exact rest.below x mem

/-- A tidy part keeps what the run has of `l`, unless it leaves that mutex locked. -/
theorem tidy_holding {mid : Finset L} (first : Tidy s k t bad)
    (leaves : got = false → ∀ held mid, l ∉ held → s.replay t held = some mid → l ∉ mid)
    (out : l ∉ held) (ran : s.replay t (holding got l held) = some mid) :
    ∃ held', l ∉ held' ∧ held ⊆ held' ∧ mid = holding got l held' := by
  refine ⟨mid.erase l, Finset.notMem_erase l mid, fun x mem => ?_, ?_⟩
  · refine Finset.mem_erase.mpr ⟨fun same => out (same ▸ mem), ?_⟩
    exact first.grows _ _ ran (subset_holding mem)
  · cases got with
    | true =>
      exact (Finset.insert_erase (first.grows _ _ ran (Finset.mem_insert_self l held))).symm
    | false => exact (Finset.erase_eq_of_notMem (leaves rfl held mid out ran)).symm

theorem free_holding {wanted : List L} (other : got = true → l ∉ wanted) :
    (∀ x ∈ wanted, x ∉ holding got l held) ↔ ∀ x ∈ wanted, x ∉ held := by
  refine ⟨fun free x mem there => free x mem (subset_holding there), fun free x mem there => ?_⟩
  cases got with
  | false => exact free x mem there
  | true =>
    rcases Finset.mem_insert.mp there with rfl | there
    · exact other rfl mem
    · exact free x mem there

/-- The first part does not ask for the mutex if the run holds it, and does not leave it locked if
the run was refused it. -/
theorem closes_behind (first : Tidy s k t bad) (second : Closes s k l got t' bad')
    (other : got = true → l ∉ s.wanted t)
    (leaves : got = false → ∀ held mid, l ∉ held → s.replay t held = some mid → l ∉ mid) :
    Closes s k l got (t ++ t') (bad ∨ bad') where
  grows held after out ran := by
    obtain ⟨mid, left, right⟩ := replay_append_some.mp ran
    obtain ⟨held', out', kept, rfl⟩ := tidy_holding first leaves out left
    exact kept.trans (second.grows held' after out' right)
  balanced held out := by
    rw [wanted_append, replay_append_some, forall_mem_append, not_or]
    have own := first.balanced (holding got l held)
    rw [free_holding other] at own
    constructor
    · rintro ⟨mid, left, right⟩
      obtain ⟨held', out', kept, rfl⟩ := tidy_holding first leaves out left
      -- what the first part adds, the second cannot give up
      have same : held' = held := Finset.Subset.antisymm (second.grows _ _ out' right) kept
      subst same
      obtain ⟨free, fine⟩ := own.mp left
      obtain ⟨free', fine'⟩ := (second.balanced held' out).mp right
      exact ⟨⟨free, free'⟩, fine, fine'⟩
    · rintro ⟨⟨free, free'⟩, fine, fine'⟩
      exact ⟨_, own.mpr ⟨free, fine⟩, (second.balanced held out).mpr ⟨free', fine'⟩⟩
  below x mem := by
    rw [wanted_append] at mem
    exact (List.mem_append.mp mem).elim (first.below x) (second.below x)

theorem closes_append (first : Tidy s (s.rank l) t bad) (second : Closes s k l got t' bad')
    (lower : s.rank l < k) : Closes s k l got (t ++ t') (bad ∨ bad') := by
  have other : l ∉ s.wanted t := fun mem => Nat.lt_irrefl _ (first.below l mem)
  refine closes_behind (tidy_mono first lower.le) second (fun _ => other) ?_
  exact fun _ held mid out ran mem => (replay_mem ran mem).elim out other

theorem closes_unlock (gives : s.effect a = .unlocks l) (rest : Tidy s k t bad) :
    Closes s k l got (a :: t) bad := by
  have run : ∀ held, l ∉ held → s.replay (a :: t) (holding got l held) = s.replay t held := by
    intro held out
    rw [Locking.replay, gives]
    cases got with
    | true => simp [Effect.on, holding, Finset.erase_insert out]
    | false => simp [Effect.on, holding, Finset.erase_eq_of_notMem out]
  have wants : s.wanted (a :: t) = s.wanted t := by
    rw [Locking.wanted, flatMap_cons, gives]
    rfl
  constructor
  case grows =>
    intro held after out ran
    rw [run held out] at ran
    exact rest.grows held after ran
  case balanced =>
    intro held out
    rw [run held out, wants]
    exact rest.balanced held
  case below =>
    rw [wants]
    exact rest.below

theorem closes_then (first : Closes s k l got t bad) (second : Tidy s k t' bad') :
    Closes s k l got (t ++ t') (bad ∨ bad') where
  grows held after out ran := by
    obtain ⟨mid, left, right⟩ := replay_append_some.mp ran
    exact (first.grows held mid out left).trans (second.grows _ _ right)
  balanced held out := by
    rw [wanted_append, replay_append_some, forall_mem_append, not_or]
    constructor
    · rintro ⟨mid, left, right⟩
      have same : mid = held :=
        Finset.Subset.antisymm (second.grows _ _ right) (first.grows held mid out left)
      subst same
      obtain ⟨free, fine⟩ := (first.balanced mid out).mp left
      obtain ⟨free', fine'⟩ := (second.balanced mid).mp right
      exact ⟨⟨free, free'⟩, fine, fine'⟩
    · rintro ⟨⟨free, free'⟩, fine, fine'⟩
      exact ⟨_, (first.balanced held out).mpr ⟨free, fine⟩,
        (second.balanced held).mpr ⟨free', fine'⟩⟩
  below x mem := by
    rw [wanted_append] at mem
    exact (List.mem_append.mp mem).elim (first.below x) (second.below x)

theorem closes_kept (rest : Tidy s k t bad) : Closes s k l true t True where
  grows held after _ ran := (Finset.subset_insert l held).trans (rest.grows _ _ ran)
  balanced held out := by
    refine ⟨fun ran => absurd (rest.grows _ _ ran (Finset.mem_insert_self l held)) out, ?_⟩
    exact fun right => absurd trivial right.2
  below := rest.below

theorem closes_blocked (first : Tidy s k t bad)
    (blocked : ∀ held, l ∈ held → s.replay t' held = none)
    (below : ∀ x ∈ s.wanted t', s.rank x < k) : Closes s k l true (t ++ t') True := by
  have stuck : ∀ held, s.replay (t ++ t') (holding true l held) = none := by
    intro held
    rw [replay_append]
    cases ran : s.replay t (holding true l held) with
    | none => rfl
    | some mid => exact blocked mid (first.grows _ _ ran (Finset.mem_insert_self l held))
  constructor
  case grows =>
    intro held after _ ran
    rw [stuck] at ran
    cases ran
  case balanced =>
    intro held _
    rw [stuck]
    exact ⟨fun same => (Option.some_ne_none _ same.symm).elim, fun right => absurd trivial right.2⟩
  case below =>
    intro x mem
    rw [wanted_append] at mem
    exact (List.mem_append.mp mem).elim (first.below x) (below x)

theorem closes_refused (rest : Tidy s k t bad) : Closes s k l false t bad where
  grows held after _ ran := rest.grows held after ran
  balanced held _ := rest.balanced held
  below := rest.below

end Parts

def Worse (bad : Answered Ans → Prop) (t : List (Answered Ans)) : Prop := ∃ a ∈ t, bad a

def Orderly (s : Locking Ans L) (bad : Answered Ans → Prop) (k : Nat) (p : Prog Ans A) : Prop :=
  p.Every fun t _ => Tidy s k t (Worse bad t)

def Closing (s : Locking Ans L) (bad : Answered Ans → Prop) (k : Nat) (l : L) (got : Bool)
    (p : Prog Ans A) : Prop :=
  p.Every fun t _ => Closes s k l got t (Worse bad t)

section Programs

variable {bad : Answered Ans → Prop} {k : Nat} {got : Bool} {p : Prog Ans A} {f : A → Prog Ans B}
  {c : C}

theorem worse_append : Worse bad (t ++ t') ↔ Worse bad t ∨ Worse bad t' := by
  simp only [Worse, mem_append, or_and_right, exists_or]

theorem worse_cons {a : Answered Ans} : Worse bad (a :: t) ↔ bad a ∨ Worse bad t := by
  simp only [Worse, mem_cons, or_and_right, exists_or, exists_eq_left]

theorem orderly_pure {a : A} : Orderly s bad k (pure a : Prog Ans A) :=
  every_pure (tidy_iff tidy_nil (by simp [Worse]))

theorem orderly_bind (first : Orderly s bad k p) (rest : ∀ a, Orderly s bad k (f a)) :
    Orderly s bad k (p >>= f) :=
  every_bind (every_mono first fun _ a tidy => every_mono (rest a) fun _ _ tidy' =>
    tidy_iff (tidy_append tidy tidy') worse_append.symm)

theorem orderly_ask (neutral : ∀ a, s.effect ⟨c, a⟩ = .nothing) (fine : ∀ a, ¬bad ⟨c, a⟩) :
    Orderly s bad k (ask c) :=
  every_ask fun a => tidy_iff (tidy_step (neutral a)) (by simp [Worse, fine a])

theorem orderly_if {cond : Prop} [Decidable cond] {q : Prog Ans A}
    (yes : cond → Orderly s bad k p) (no : ¬cond → Orderly s bad k q) :
    Orderly s bad k (if cond then p else q) := every_if yes no

theorem orderly_check {cond : A → Prop} [∀ a, Decidable (cond a)] {q r : Prog Ans B}
    (first : Orderly s bad k p) (yes : Orderly s bad k q) (no : Orderly s bad k r) :
    Orderly s bad k (p >>= fun a => if cond a then q else r) :=
  orderly_bind first fun _ => orderly_if (fun _ => yes) fun _ => no

theorem orderly_lock {f : Ans c → Prog Ans B} (got : Ans c → Bool)
    (asks : ∀ a, s.effect ⟨c, a⟩ = if got a then .locks l else .refused l)
    (fine : ∀ a, ¬bad ⟨c, a⟩) (lower : s.rank l < k)
    (rest : ∀ a, Closing s bad k l (got a) (f a)) : Orderly s bad k (ask c >>= f) :=
  every_bind (every_ask fun a => every_mono (rest a) fun _ _ closes =>
    tidy_iff (tidy_lock (asks a) lower closes) (by simp [worse_cons, fine a]))

theorem closing_bind (first : Orderly s bad (s.rank l) p) (lower : s.rank l < k)
    (rest : ∀ a, Closing s bad k l got (f a)) : Closing s bad k l got (p >>= f) :=
  every_bind (every_mono first fun _ a tidy => every_mono (rest a) fun _ _ closes =>
    closes_iff (closes_append tidy closes lower) worse_append.symm)

theorem closing_then (first : Closing s bad k l got p) (rest : ∀ a, Orderly s bad k (f a)) :
    Closing s bad k l got (p >>= f) :=
  every_bind (every_mono first fun _ a closes => every_mono (rest a) fun _ _ tidy =>
    closes_iff (closes_then closes tidy) worse_append.symm)

theorem closing_if {cond : Prop} [Decidable cond] {q : Prog Ans A}
    (yes : cond → Closing s bad k l got p) (no : ¬cond → Closing s bad k l got q) :
    Closing s bad k l got (if cond then p else q) := every_if yes no

theorem closing_check {cond : A → Prop} [∀ a, Decidable (cond a)] {q r : Prog Ans B}
    (first : Orderly s bad (s.rank l) p) (lower : s.rank l < k) (yes : Closing s bad k l got q)
    (no : Closing s bad k l got r) :
    Closing s bad k l got (p >>= fun a => if cond a then q else r) :=
  closing_bind first lower fun _ => closing_if (fun _ => yes) fun _ => no

theorem closing_unlock {f : Ans c → Prog Ans B} (gives : ∀ a, s.effect ⟨c, a⟩ = .unlocks l)
    (fine : ∀ a, ¬bad ⟨c, a⟩) (rest : ∀ a, Orderly s bad k (f a)) :
    Closing s bad k l got (ask c >>= f) :=
  every_bind (every_ask fun a => every_mono (rest a) fun _ _ tidy =>
    closes_iff (closes_unlock (gives a) tidy) (by simp [worse_cons, fine a]))

theorem closing_refused (rest : Orderly s bad k p) : Closing s bad k l false p :=
  every_mono rest fun _ _ tidy => closes_refused tidy

theorem closing_ask {f : Ans c → Prog Ans B} (neutral : ∀ a, s.effect ⟨c, a⟩ = .nothing)
    (lower : s.rank l < k)
    (ill : ∀ a, bad ⟨c, a⟩ → got = true ∧ Orderly s bad k (f a))
    (well : ∀ a, ¬bad ⟨c, a⟩ → Closing s bad k l got (f a)) :
    Closing s bad k l got (ask c >>= f) := by
  refine every_bind (every_ask fun a => ?_)
  by_cases worse : bad ⟨c, a⟩
  · obtain ⟨rfl, rest⟩ := ill a worse
    refine every_mono rest fun t _ tidy => ?_
    exact closes_iff (closes_kept (tidy_append (tidy_step (neutral a)) tidy))
      (by simp [worse_cons, worse])
  · refine every_mono (well a worse) fun t _ closes => ?_
    exact closes_iff (closes_append (tidy_step (neutral a)) closes lower)
      (by simp [worse_cons, worse])

/-- The rest of a program that never gives the mutex `l` back as it should, whatever comes
before. -/
def Loses (s : Locking Ans L) (k : Nat) (l : L) (p : Prog Ans A) : Prop :=
  p.Every fun t' _ => ∀ t worse, Tidy s k t worse → Closes s k l true (t ++ t') True

theorem loses_kept (orderly : Orderly s bad k p) : Loses s k l p :=
  every_mono orderly fun _ _ tidy _ _ first => closes_kept (tidy_append first tidy)

def Blocks (s : Locking Ans L) (l : L) (p : Prog Ans A) : Prop :=
  p.Every fun t _ => ∀ held, l ∈ held → s.replay t held = none

theorem blocks_lock {f : Ans c → Prog Ans B} (got : Ans c → Bool)
    (asks : ∀ a, s.effect ⟨c, a⟩ = if got a then .locks l else .refused l) :
    Blocks s l (ask c >>= f) := by
  refine every_bind (every_ask fun a => fun w n held mem => ?_)
  rw [singleton_append, Locking.replay, asks]
  cases got a <;> simp [Effect.on, mem]

theorem loses_relock (blocks : Blocks s l p) (orderly : Orderly s bad k p)
    (rest : ∀ a, Closing s bad k l got (f a)) : Loses s k l (p >>= f) := by
  refine every_bind fun w n => every_mono (rest _) fun t' _ closes t worse first => ?_
  refine closes_blocked first (fun held mem => ?_) fun x mem => ?_
  · rw [replay_append, blocks w n held mem]
    rfl
  · rw [wanted_append] at mem
    exact (List.mem_append.mp mem).elim ((orderly w n).below x) (closes.below x)

def Leaves (s : Locking Ans L) (l : L) (p : Prog Ans A) : Prop :=
  p.Every fun t _ => ∀ held after, s.replay t held = some after → l ∉ after

theorem leaves_bind (rest : ∀ a, Leaves s l (f a)) : Leaves s l (p >>= f) := by
  refine every_bind fun w n => every_mono (rest _) fun t' _ leaves held after ran => ?_
  obtain ⟨mid, _, right⟩ := replay_append_some.mp ran
  exact leaves mid after right

theorem leaves_unlock {b : B} (gives : ∀ a, s.effect ⟨c, a⟩ = .unlocks l) :
    Leaves s l (ask c >>= fun _ => (pure b : Prog Ans B)) := by
  refine every_bind (every_ask fun a => every_pure fun held after ran => ?_)
  simp only [append_nil, Locking.replay, gives, Effect.on, Option.bind_some,
    Option.some.injEq] at ran
  rw [← ran]
  exact Finset.notMem_erase l held

theorem closing_leaves (first : Orderly s bad k p) (leaves : Leaves s l p)
    (rest : ∀ a, Closing s bad k l false (f a)) : Closing s bad k l false (p >>= f) := by
  refine every_bind fun w n => every_mono (rest _) fun t' _ closes => ?_
  refine closes_iff (closes_behind (first w n) closes (fun same => by cases same) ?_)
    worse_append.symm
  exact fun _ held mid _ ran => leaves w n held mid ran

/-! ### Programs that tell their failures -/

/-- The result of the program tells that something bad has happened in it. In what it does to the
mutexes that it locks itself, only `base` is bad. -/
def Tells (base bad : Answered Ans → Prop) (ok : A → Bool) (p : Prog Ans A) : Prop :=
  p.Every fun t a => (ok a = true → (Worse base t ↔ Worse bad t)) ∧ (ok a = false → Worse bad t)

section Telling

variable {base : Answered Ans → Prop} {ok : A → Bool} {ok' : B → Bool}

theorem tells_pure {a : A} (well : ok a = true) : Tells base bad ok (pure a) :=
  every_pure ⟨fun _ => by simp [Worse], fun ill => absurd (ill.symm.trans well) Bool.false_ne_true⟩

theorem tells_answer {a : Answered Ans} {ok : Bool} (weaker : base a → bad a)
    (well : ok = true → ¬bad a) (ill : ok = false → bad a) :
    (ok = true → (Worse base [a] ↔ Worse bad [a])) ∧ (ok = false → Worse bad [a]) := by
  refine ⟨fun fine => ?_, fun failed => ⟨a, mem_singleton_self a, ill failed⟩⟩
  have good := well fine
  have good' : ¬base a := fun worse => good (weaker worse)
  simp [Worse, good, good']

theorem tells_bind {k' : Nat} (first : Orderly s base k p) (first' : Orderly s bad k' p)
    (rest : ∀ a, Tells base bad ok' (f a)) : Tells base bad ok' (p >>= f) := by
  refine every_bind fun w n => every_mono (rest _) fun t' b tells => ?_
  have same := tidy_unique (first w n) (first' w n)
  refine ⟨fun well => ?_, fun ill => worse_append.mpr (.inr (tells.2 ill))⟩
  rw [worse_append, worse_append, same, tells.1 well]

theorem tells_check (first : Tells base bad ok p)
    (well : ∀ a, ok a = true → Tells base bad ok' (f a))
    (ill : ∀ a, ok a = false → (f a).Every fun _ b => ok' b = false) :
    Tells base bad ok' (p >>= f) := by
  refine every_bind fun w n => ?_
  have told := first w n
  revert told
  generalize (p.run w n).1 = t
  generalize (p.run w n).2 = a
  intro told
  cases fine : ok a with
  | true =>
    refine every_mono (well a fine) fun t' b tells => ?_
    refine ⟨fun well => ?_, fun ill => worse_append.mpr (.inr (tells.2 ill))⟩
    rw [worse_append, worse_append, told.1 fine, tells.1 well]
  | false =>
    refine every_mono (ill a fine) fun t' b failed => ?_
    refine ⟨fun well => absurd (failed.symm.trans well) Bool.false_ne_true, fun _ => ?_⟩
    exact worse_append.mpr (.inl (told.2 fine))

theorem closing_told (inside : Orderly s base (s.rank l) p) (lower : s.rank l < k)
    (told : Tells base bad ok p) (ill : ∀ a, ok a = false → Loses s k l (f a))
    (well : ∀ a, ok a = true → Closing s bad k l true (f a)) :
    Closing s bad k l true (p >>= f) := by
  refine every_bind fun w n => ?_
  have tidy := inside w n
  have tells := told w n
  revert tidy tells
  generalize (p.run w n).1 = t
  generalize (p.run w n).2 = a
  intro tidy tells
  cases fine : ok a with
  | true =>
    refine every_mono (well a fine) fun t' _ closes => ?_
    exact closes_iff (closes_append tidy closes lower) (by rw [tells.1 fine, worse_append])
  | false =>
    refine every_mono (ill a fine) fun t' _ loses => ?_
    exact closes_iff (loses t _ (tidy_mono tidy lower.le)) (by simp [worse_append, tells.2 fine])

theorem tells_if {p : Prog Ans Bool} {q r : Prog Ans B} (first : Tells base bad id p)
    (well : Tells base bad ok' q) (ill : r.Every fun _ b => ok' b = false) :
    Tells base bad ok' (p >>= fun b => if b = true then q else r) := by
  refine tells_check first (fun b fine => ?_) fun b failed => ?_
  · cases fine
    exact well
  · cases failed
    exact ill

theorem closing_told_if {p : Prog Ans Bool} {q r : Prog Ans B}
    (inside : Orderly s base (s.rank l) p) (lower : s.rank l < k) (told : Tells base bad id p)
    (well : Closing s bad k l true q) (ill : Loses s k l r) :
    Closing s bad k l true (p >>= fun b => if b = true then q else r) := by
  refine closing_told inside lower told (fun b failed => ?_) fun b fine => ?_
  · cases failed
    exact ill
  · cases fine
    exact well

end Telling

end Programs

end Mutexes

end CallTree
