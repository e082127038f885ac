import Mathlib.Data.List.Induction

/-! Threads that take atomic steps on one shared state. The scheduler picks a thread and the answers
it gets from outside. Started threads join at the end of the pool, so the index of a thread never
changes and a later index means a later start. -/
namespace Interleave

open List

variable {S T O E : Type}

structure Move (S T E : Type) where
  event : E
  shared : S
  thread : T
  started : List T := []

/-- The program of the threads. `none` is a thread that cannot step: it is
blocked, has ended, or has no defined continuation. -/
abbrev Program (S T O E : Type) := S → T → O → Option (Move S T E)

structure Conf (S T : Type) where
  shared : S
  threads : List T

def Conf.after (c : Conf S T) (i : Nat) (m : Move S T E) : Conf S T :=
  ⟨m.shared, c.threads.set i m.thread ++ m.started⟩

structure Taken (S T O E : Type) where
  before : Conf S T
  index : Nat
  answers : O
  thread : T
  move : Move S T E

def Conf.step (prog : Program S T O E) (c : Conf S T) (i : Nat) (o : O) : Option (Taken S T O E) :=
  c.threads[i]?.bind fun t => (prog c.shared t o).map fun m => ⟨c, i, o, t, m⟩

def Taken.result (e : Taken S T O E) : Conf S T := e.before.after e.index e.move

inductive Run (prog : Program S T O E) (guard : Taken S T O E → Prop) (c₀ : Conf S T) :
    List (Taken S T O E) → Conf S T → Prop where
  | start : Run prog guard c₀ [] c₀
  | next {tr : List (Taken S T O E)} {c : Conf S T} (i : Nat) (o : O) {e : Taken S T O E} :
      Run prog guard c₀ tr c → c.step prog i o = some e → guard e →
        Run prog guard c₀ (tr ++ [e]) e.result

def steps (prog : Program S T O E) (c : Conf S T) : List (Nat × O) → List (Taken S T O E)
  | [] => []
  | a :: rest =>
    match c.step prog a.1 a.2 with
    | none => []
    | some e => e :: steps prog e.result rest

def final (c : Conf S T) : List (Taken S T O E) → Conf S T
  | [] => c
  | e :: rest => final e.result rest

variable {prog : Program S T O E} {c : Conf S T} {i : Nat} {e : Taken S T O E}

theorem step_iff {o : O} :
    c.step prog i o = some e ↔
      ∃ t m, c.threads[i]? = some t ∧ prog c.shared t o = some m ∧ e = ⟨c, i, o, t, m⟩ := by
  simp only [Conf.step, Option.bind_eq_some_iff, Option.map_eq_some_iff]
  constructor
  · rintro ⟨t, ht, m, hm, rfl⟩
    exact ⟨t, m, ht, hm, rfl⟩
  · rintro ⟨t, m, ht, hm, rfl⟩
    exact ⟨t, ht, m, hm, rfl⟩

variable {guard : Taken S T O E → Prop} {c₀ : Conf S T}

theorem Run.append {c₁ c₂ : Conf S T} {xs ys : List (Taken S T O E)}
    (first : Run prog guard c₀ xs c₁) (second : Run prog guard c₁ ys c₂) :
    Run prog guard c₀ (xs ++ ys) c₂ := by
  induction second with
  | start => simpa using first
  | @next ys c i o e _ hs hg ih =>
    rw [← append_assoc]
    exact .next i o ih hs hg

theorem run_of_move {t : T} {o : O} {m : Move S T E} {c' : Conf S T} (here : c.threads[i]? = some t)
    (moves : prog c.shared t o = some m) (met : guard ⟨c, i, o, t, m⟩) (ends : c.after i m = c') :
    Run prog guard c [⟨c, i, o, t, m⟩] c' := by
  subst ends
  exact .next i o .start (step_iff.2 ⟨t, m, here, moves, rfl⟩) met

theorem run_of_schedule (prog : Program S T O E) (check : Taken S T O E → Bool)
    (sched : List (Nat × O)) (c : Conf S T) (ok : (steps prog c sched).all check = true) :
    Run prog (fun e => check e = true) c (steps prog c sched) (final c (steps prog c sched)) := by
  induction sched generalizing c with
  | nil => exact .start
  | cons a rest ih =>
    unfold steps at ok ⊢
    split
    · exact .start
    · rename_i e he
      simp only [he, all_cons, Bool.and_eq_true] at ok
      have head : Run prog (fun e => check e = true) c [e] e.result :=
        .next a.1 a.2 .start he ok.1
      exact head.append (ih e.result ok.2)

variable {tr : List (Taken S T O E)}

theorem Run.weaken {weaker : Taken S T O E → Prop} (implies : ∀ e, guard e → weaker e)
    (run : Run prog guard c₀ tr c) : Run prog weaker c₀ tr c := by
  induction run with
  | start => exact .start
  | next i o _ hs hg ih => exact .next i o ih hs (implies _ hg)

theorem run_of_any_schedule (prog : Program S T O E) (sched : List (Nat × O)) (c : Conf S T) :
    Run prog (fun _ => True) c (steps prog c sched) (final c (steps prog c sched)) :=
  (run_of_schedule prog (fun _ => true) sched c (by simp)).weaken fun _ _ => trivial

/-- The induction every result about runs goes through: a property of the steps
taken so far and of the state they lead to. -/
theorem Run.history (inv : List (Taken S T O E) → Conf S T → Prop) (initial : inv [] c₀)
    (preserved : ∀ tr c i t m o, inv tr c → c.threads[i]? = some t → prog c.shared t o = some m →
      guard ⟨c, i, o, t, m⟩ → inv (tr ++ [⟨c, i, o, t, m⟩]) (c.after i m))
    (run : Run prog guard c₀ tr c) : inv tr c := by
  induction run with
  | start => exact initial
  | next i o _ hs hg ih =>
    obtain ⟨t, m, ht, hm, rfl⟩ := step_iff.mp hs
    exact preserved _ _ i t m o ih ht hm hg

theorem Run.invariant (inv : Conf S T → Prop) (initial : inv c₀)
    (preserved : ∀ c i t m o, inv c → c.threads[i]? = some t → prog c.shared t o = some m →
      guard ⟨c, i, o, t, m⟩ → inv (c.after i m)) (run : Run prog guard c₀ tr c) : inv c :=
  run.history (fun _ => inv) initial fun _ => preserved

theorem Run.taken (run : Run prog guard c₀ tr c) :
    ∀ e ∈ tr, (∃ pre, Run prog guard c₀ pre e.before) ∧ guard e ∧
      e.before.threads[e.index]? = some e.thread ∧
      prog e.before.shared e.thread e.answers = some e.move := by
  induction run with
  | start => intro e he; cases he
  | @next tr c i o e hr hs hg ih =>
    intro x hx
    rcases List.mem_append.mp hx with hx | hx
    · exact ih x hx
    · have eq : x = e := by simpa using hx
      subst x
      obtain ⟨t, m, ht, hm, rfl⟩ := step_iff.mp hs
      exact ⟨⟨tr, hr⟩, hg, ht, hm⟩

theorem Run.strengthen {further : Taken S T O E → Prop} (run : Run prog guard c₀ tr c)
    (met : ∀ e ∈ tr, further e) : Run prog (fun e => guard e ∧ further e) c₀ tr c := by
  induction run with
  | start => exact .start
  | @next tr c i o e _ hs hg ih =>
    have before := ih fun x hx => met x (mem_append_left _ hx)
    exact .next i o before hs ⟨hg, met e (mem_append_right _ (List.mem_singleton.mpr rfl))⟩

theorem Run.split {xs ys : List (Taken S T O E)} (run : Run prog guard c₀ (xs ++ ys) c) :
    ∃ c₁, Run prog guard c₀ xs c₁ ∧ Run prog guard c₁ ys c := by
  induction ys using List.reverseRec generalizing c with
  | nil => exact ⟨c, by simpa using run, .start⟩
  | append_singleton ys e ih =>
    generalize htr : xs ++ (ys ++ [e]) = tr at run
    cases run with
    | start => simp at htr
    | next i o run hs hg =>
      rw [← append_assoc] at htr
      obtain ⟨rfl, same⟩ := append_inj' htr rfl
      cases same
      obtain ⟨c₁, first, second⟩ := ih run
      exact ⟨c₁, first, .next i o second hs hg⟩

/-- What a run comes to hold, one of its steps has brought about. -/
theorem Run.onset (P : Conf S T → Prop) (run : Run prog guard c₀ tr c) (initially : ¬ P c₀)
    (reached : P c) : ∃ e ∈ tr, ¬ P e.before ∧ P e.result := by
  induction run with
  | start => exact absurd reached initially
  | @next tr c i o e _ hs _ ih =>
    by_cases earlier : P c
    · obtain ⟨x, hx, found⟩ := ih earlier
      exact ⟨x, mem_append_left _ hx, found⟩
    · obtain ⟨t, m, _, _, rfl⟩ := step_iff.mp hs
      exact ⟨_, mem_append_right _ (List.mem_singleton.mpr rfl), earlier, reached⟩

/-- No state of a run has a property exactly if no step of it is one that brings it about. -/
theorem Run.avoids_iff (P : Conf S T → Prop) (brings : Taken S T O E → Prop) (initially : ¬ P c₀)
    (run : Run prog guard c₀ tr c) (onsets : ∀ e ∈ tr, ¬ P e.before → (P e.result ↔ brings e)) :
    (∀ e ∈ tr, ¬ P e.result) ↔ ∀ e ∈ tr, ¬ brings e := by
  induction run with
  | start => simp
  | @next tr c i o e before taken _ ih =>
    obtain ⟨t, m, _, _, rfl⟩ := step_iff.mp taken
    have earlier := ih fun x hx => onsets x (mem_append_left _ hx)
    have here : (∀ x ∈ tr, ¬ P x.result) → ¬ P c := by
      intro avoided holds
      obtain ⟨x, hx, _, found⟩ := before.onset P initially holds
      exact avoided x hx found
    have last := onsets _ (mem_append_right _ (List.mem_singleton.mpr rfl))
    simp only [forall_mem_append, forall_mem_singleton]
    constructor
    · rintro ⟨avoided, behind⟩
      exact ⟨earlier.mp avoided, fun now => behind ((last (here avoided)).mpr now)⟩
    · rintro ⟨quiet, now⟩
      have avoided := earlier.mpr quiet
      exact ⟨avoided, fun behind => now ((last (here avoided)).mp behind)⟩

theorem Run.of_nil (run : Run prog guard c₀ [] c) : c = c₀ := by
  generalize htr : ([] : List (Taken S T O E)) = tr at run
  cases run with
  | start => rfl
  | next => simp at htr

theorem Run.around {pre post : List (Taken S T O E)}
    (run : Run prog guard c₀ (pre ++ e :: post) c) :
    Run prog guard c₀ pre e.before ∧ Run prog guard e.result post c := by
  obtain ⟨c₁, before, rest⟩ := run.split
  rw [← singleton_append] at rest
  obtain ⟨c₂, first, behind⟩ := rest.split
  generalize htr : [e] = tr at first
  cases first with
  | start => cases htr
  | next i o none hs =>
    rcases List.singleton_eq_append_iff.mp htr with ⟨rfl, same⟩ | ⟨_, same⟩ <;> cases same
    obtain rfl := none.of_nil
    obtain ⟨t, m, _, _, rfl⟩ := step_iff.mp hs
    exact ⟨before, behind⟩

theorem Run.later {pre post : List (Taken S T O E)} (run : Run prog guard c₀ (pre ++ e :: post) c) :
    (∀ e' ∈ post, ∃ mid, Run prog guard e.result mid e'.before) ∧ Run prog guard e.result post c :=
  ⟨fun e' he' => (run.around.2.taken e' he').1, run.around.2⟩

variable {t : T}

theorem lookup_lt (ht : c.threads[i]? = some t) :
    i < c.threads.length := (List.getElem?_eq_some_iff.mp ht).1

theorem Run.index_lt (run : Run prog guard c₀ tr c) : ∀ e ∈ tr, e.index < c.threads.length := by
  refine run.history (fun tr c => ∀ e ∈ tr, e.index < c.threads.length) (by simp) ?_
  intro tr c i t m o early ht _ _ e mem
  have grows : c.threads.length ≤ (c.after i m).threads.length := by simp [Conf.after]
  rcases List.mem_append.mp mem with mem | mem
  · exact Nat.lt_of_lt_of_le (early e mem) grows
  · cases List.mem_singleton.mp mem
    exact Nat.lt_of_lt_of_le (lookup_lt ht) grows

variable {j : Nat} {u : T}

theorem after_lookup (ht : c.threads[i]? = some t) {m : Move S T E}
    (hu : (c.after i m).threads[j]? = some u) :
    (j = i ∧ u = m.thread) ∨ (j ≠ i ∧ c.threads[j]? = some u) ∨
      (c.threads.length ≤ j ∧ m.started[j - c.threads.length]? = some u) := by
  simp only [Conf.after] at hu
  by_cases hj : j < c.threads.length
  · rw [getElem?_append_left (by simpa using hj)] at hu
    by_cases he : j = i
    · subst he
      left
      rw [getElem?_set_self hj] at hu
      exact ⟨rfl, (Option.some.inj hu).symm⟩
    · rw [getElem?_set_ne (fun h => he h.symm)] at hu
      exact .inr (.inl ⟨he, hu⟩)
  · rw [getElem?_append_right (by simpa using hj)] at hu
    exact .inr (.inr ⟨by omega, by simpa using hu⟩)

theorem after_self (ht : c.threads[i]? = some t) (m : Move S T E) :
    (c.after i m).threads[i]? = some m.thread := by
  have hi := lookup_lt ht
  simp only [Conf.after]
  rw [getElem?_append_left (by simpa using hi), getElem?_set_self hi]

theorem after_other (hu : c.threads[j]? = some u) (ne : j ≠ i) (m : Move S T E) :
    (c.after i m).threads[j]? = some u := by
  have hj := lookup_lt hu
  simp only [Conf.after]
  rw [getElem?_append_left (by simpa using hj), getElem?_set_ne (fun h => ne h.symm), hu]

theorem others_all {p : T → Bool} (checked : (c.threads.eraseIdx i).all p = true) (ne : j ≠ i)
    (hu : c.threads[j]? = some u) : p u = true :=
  List.all_eq_true.mp checked u (mem_eraseIdx_iff_getElem?.mpr ⟨j, ne, hu⟩)

theorem count_after (ht : c.threads[i]? = some t) (p : T → Bool) (m : Move S T E) :
    (c.after i m).threads.countP p + (p t).toNat =
      c.threads.countP p + (p m.thread).toNat + m.started.countP p := by
  obtain ⟨hi, rfl⟩ := List.getElem?_eq_some_iff.mp ht
  have listed : (p c.threads[i]).toNat ≤ c.threads.countP p := by
    cases hp : p c.threads[i] with
    | false => exact Nat.zero_le _
    | true => exact List.countP_pos_iff.mpr ⟨_, getElem_mem hi, hp⟩
  have indicator : ∀ b : Bool, (if b = true then 1 else 0) = b.toNat := by decide
  simp only [Conf.after, countP_append, countP_set hi, indicator]
  omega

/-! ### A flag that one thread at a time holds -/

/-- What a step does to a lock: `held` reads it, `holds` says who has it. -/
inductive LockEffect (held : S → Bool) (holds : T → Bool) (s : S) (t : T) (m : Move S T E) :
    Prop where
  | keeps (flag : held m.shared = held s) (thread : holds m.thread = holds t)
  | takes (free : held s = false) (flag : held m.shared = true) (before : holds t = false)
      (behind : holds m.thread = true)
  | frees (flag : held m.shared = false) (before : holds t = true) (behind : holds m.thread = false)

theorem LockEffect.count {held : S → Bool} {holds : T → Bool} {m : Move S T E}
    (effect : LockEffect held holds c.shared t m) (started : m.started.countP holds = 0)
    (ht : c.threads[i]? = some t) (once : c.threads.countP holds = (held c.shared).toNat) :
    (c.after i m).threads.countP holds = (held (c.after i m).shared).toNat := by
  have count := count_after ht holds m
  change _ = (held m.shared).toNat
  cases effect with
  | keeps flag thread =>
    rw [thread, started] at count
    rw [flag]
    omega
  | takes free flag before behind =>
    rw [before, behind, started, once, free] at count
    rw [flag]
    simpa using count
  | frees flag before behind =>
    rw [before, behind, started, once] at count
    have most := Bool.toNat_le (held c.shared)
    rw [flag]
    simp only [Bool.toNat_true, Bool.toNat_false] at count ⊢
    omega

theorem Run.mutual_exclusion (held : S → Bool) (holds : T → Bool)
    (effect : ∀ s t o m, prog s t o = some m →
      LockEffect held holds s t m ∧ m.started.countP holds = 0) (run : Run prog guard c₀ tr c)
    (initially : c₀.threads.countP holds = (held c₀.shared).toNat) :
    c.threads.countP holds = (held c.shared).toNat := by
  refine run.invariant (fun c => c.threads.countP holds = (held c.shared).toNat) initially ?_
  intro c i t m o once ht taken _
  obtain ⟨step, started⟩ := effect c.shared t o m taken
  exact step.count started ht once

theorem held_of_holder {held : S → Bool} {holds : T → Bool}
    (once : c.threads.countP holds = (held c.shared).toNat) (ht : c.threads[i]? = some t)
    (holder : holds t = true) : held c.shared = true := by
  have some := List.countP_pos_iff.mpr ⟨t, mem_of_getElem? ht, holder⟩
  cases free : held c.shared with
  | true => rfl
  | false => rw [once, free] at some; cases some

end Interleave
