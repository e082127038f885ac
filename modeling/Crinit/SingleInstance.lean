import Crinit.System

/-! At most one START-mode dispatch thread of a task executes its COMMAND chain: a task is not
started while its state word has the STARTING or the RUNNING bit. -/
namespace Crinit

open Interleave List

def Event.idles : Event → Option String
  | .db (.setTaskState s n _) => if busy s then none else some n
  | .db (.rearmTrigger n) => some n
  | .db (.insert t overwrite _) => if overwrite then some t.task.name else none
  | _ => none

def Thread.executes (n : String) : Thread → Bool
  | .dispatch d => d.executing && d.task.name = n
  | _ => false

/-- The step takes the STARTING and RUNNING bits from a task only when no
START-mode thread of it is in its COMMAND chain. -/
def idlesAfterChain (e : Step) : Bool :=
  match e.move.event.idles with
  | none => true
  | some n => e.before.threads.all fun t => !t.executes n

theorem idlesAfterChain_apart {e : Step} (h : idlesAfterChain e = true) {n : String}
    (idles : e.move.event.idles = some n) {j : Nat} {d : Dispatch}
    (hd : DispatchAt e.before j d) (executing : d.executing = true) : d.task.name ≠ n := by
  intro same
  simp only [idlesAfterChain, idles, all_eq_true] at h
  simpa [Thread.executes, executing, same] using h _ (mem_of_getElem? hd)

theorem busy_kept {op : DbOp} {n : String} {t t' : Task} (change : op.Changes n t t')
    (kept : Event.idles (.db op) ≠ some n) (before : busy t.state = true) :
    busy t'.state = true := by
  rcases changes_state change with same | ⟨s, ts, rfl, stored⟩ | ⟨rfl, _⟩ | ⟨ready, _⟩
  · rwa [same]
  · rw [stored]
    cases idle : busy s with
    | true => rfl
    | false => exact absurd (by simp [Event.idles, idle]) kept
  · exact absurd rfl kept
  · rw [ready_not_busy ready] at before
    cases before

theorem busy_after {w : World} {e : Event} {n : String} (kept : e.idles ≠ some n)
    (before : ∃ t, w.db.findTask n = some t ∧ busy t.state = true) :
    ∃ t, (w.after e).db.findTask n = some t ∧ busy t.state = true := by
  obtain ⟨t, found, isBusy⟩ := before
  rcases after_db w e with same | ⟨op, rfl, same⟩
  · exact ⟨t, same ▸ found, isBusy⟩
  · obtain ⟨t', found', ⟨overwrites, inserts⟩ | change⟩ := find_apply op found
    · obtain ⟨nt, overwrite, env, rfl, rfl⟩ := inserts
      simp only [DbOp.overwrites, Bool.and_eq_true, beq_iff_eq] at overwrites
      exact absurd (by simp [Event.idles, overwrites]) kept
    · exact ⟨t', same ▸ found', busy_kept change kept isBusy⟩

theorem executing_before {w : World} {d d' : Dispatch} {e : Event}
    (moves : DispatchMoves w d e d') (executing : d'.executing = true) : d.executing = true := by
  simp only [Dispatch.executing, Bool.and_eq_true, decide_eq_true_eq] at executing ⊢
  obtain ⟨mode, inside⟩ := executing
  refine ⟨(dispatchMoves_name moves).2.symm.trans mode, ?_⟩
  cases moves with
  | copied t here => rw [here]; rfl
  | forked i pid here => rw [here]; rfl
  | goes edge =>
    simp only [Dispatch.goto] at inside
    generalize d.pc = pc at edge
    cases edge with
    | stored g now => cases g <;> first | rfl | cases inside
    | provided g rest e pc feature target =>
      cases g <;> rcases target with rfl | ⟨_, rfl⟩ <;> first | rfl | cases inside
    | fulfilled g => exact inside
    | failCleared => split_ifs at inside <;> cases inside
    | _ => first | rfl | cases inside

structure OneInstance (c : Config) : Prop where
  distinct : c.shared.db.names.Nodup
  isBusy : ∀ j d, DispatchAt c j d → d.executing = true →
    ∃ t, c.shared.db.findTask d.task.name = some t ∧ busy t.state = true
  unique : ∀ j k d d', DispatchAt c j d → DispatchAt c k d' → d.executing = true →
    d'.executing = true → d.task.name = d'.task.name → j = k

theorem executing_origin {c : Config} {i : Nat} {t : Thread} {a : Answers}
    {m : Move World Thread Event} (ht : c.threads[i]? = some t)
    (moves : Moves c.shared a t m.event m.thread m.started) {j : Nat} {d : Dispatch}
    (hd : DispatchAt (c.after i m) j d) (executing : d.executing = true) :
    (∃ d₀, DispatchAt c j d₀ ∧ d₀.executing = true ∧ d.task.name = d₀.task.name) ∨
    (c.threads.length ≤ j ∧ m.event = .db (.spawnReady .start (some a.startOk)) ∧
      (c.shared.db.spawnReady .start (some a.startOk)).started[j - c.threads.length]? =
        some d.task) := by
  have starts (d : Dispatch) (executing : d.executing = true) : d.mode = .start := by
    simp only [Dispatch.executing, Bool.and_eq_true, decide_eq_true_eq] at executing
    exact executing.1
  rcases start_origin starts (fun _ _ _ _ => executing_before) ht moves hd executing with
    ⟨d₀, old, was, name, _⟩ | new
  · exact .inl ⟨d₀, old, was, name⟩
  · exact .inr new

theorem oneInstance_step {c : Config} {i : Nat} {t : Thread} {a : Answers}
    {m : Move World Thread Event} (before : OneInstance c) (ht : c.threads[i]? = some t)
    (step : system c.shared t a = some m) (guard : idlesAfterChain ⟨c, i, a, t, m⟩ = true) :
    OneInstance (c.after i m) := by
  obtain ⟨shared, moves⟩ := system_moves step
  have origin {j : Nat} {d : Dispatch} := executing_origin (j := j) (d := d) ht moves
  -- a task that the scan starts has no executing thread: it was not busy
  have fresh {j : Nat} {s : Task} {d : Dispatch} (hd : DispatchAt c j d)
      (executing : d.executing = true)
      (started : s ∈ (c.shared.db.spawnReady .start (some a.startOk)).started) :
      d.task.name ≠ s.name := by
    intro same
    obtain ⟨_, t, found, ready, _⟩ := started_found before.distinct started
    obtain ⟨t', found', isBusy⟩ := before.isBusy j d hd executing
    rw [same, found] at found'
    rw [← Option.some.inj found', ready_not_busy ready] at isBusy
    cases isBusy
  refine ⟨?_, ?_, ?_⟩
  · simp only [Conf.after, shared]
    exact distinct_after before.distinct m.event
  · intro j d hd executing
    simp only [Conf.after, shared]
    rcases origin hd executing with ⟨d₀, old, was, name⟩ | ⟨_, scan, started⟩
    · rw [name]
      refine busy_after ?_ (before.isBusy j d₀ old was)
      intro idles
      exact idlesAfterChain_apart guard idles old was rfl
    · obtain ⟨found, t, _, _, starting⟩ :=
        started_found before.distinct (mem_of_getElem? started)
      rw [scan]
      exact ⟨d.task, found, by rw [starting, setState_state]; decide⟩
  · intro j k d d' hd hd' executing executing' same
    rcases origin hd executing with ⟨d₀, old, was, name⟩ | ⟨late, _, started⟩
    · rcases origin hd' executing' with ⟨d₁, old', was', name'⟩ | ⟨_, _, started'⟩
      · exact before.unique j k d₀ d₁ old old' was was' (by rw [← name, ← name', same])
      · exact absurd (name.symm.trans same) (fresh old was (mem_of_getElem? started'))
    · rcases origin hd' executing' with ⟨d₁, old', was', name'⟩ | ⟨late', _, started'⟩
      · exact absurd (name'.symm.trans same.symm) (fresh old' was' (mem_of_getElem? started))
      · have positions := started_distinct before.distinct started started' same
        omega

/-- In every run whose steps idle a task only after its chain, no task has two
START-mode threads in their COMMAND chain. -/
theorem single_instance {b : Boot} {tr : List Step} {c : Config}
    (run : Run system (fun e => idlesAfterChain e = true) b.conf tr c) {j k : Nat} {d d' : Dispatch}
    (hd : DispatchAt c j d) (hd' : DispatchAt c k d') (executing : d.executing = true)
    (executing' : d'.executing = true) (same : d.task.name = d'.task.name) : j = k := by
  have initial : OneInstance b.conf :=
    ⟨b.distinct, fun j d hd => absurd hd (boot_no_dispatch b),
      fun j _ d _ hd => absurd hd (boot_no_dispatch b)⟩
  have reached : OneInstance c := run.invariant OneInstance initial
    fun c i t m a before ht step guard => oneInstance_step before ht step guard
  exact reached.unique j k d d' hd hd' executing executing' same

def rearmingTask : Task where
  name := "net"
  cmds := [["/bin/net"]]
  opts := optRespawn ||| optTriggerRearm

def rearmingBoot : Boot where
  db := { taskSet := [rearmingTask] }
  distinct := by decide
  others := [.children]
  fresh := fresh_children

def firstInstance : List (Nat × Answers) :=
  turns 0 1 ++ turns 2 2 ++ [(2, { pid := 5 })] ++ turns 2 4 ++ [(1, { pid := 5 })] ++ turns 2 5

theorem single_instance_in_turn :
    ∃ tr c d, Run system (fun e => idlesAfterChain e = true) rearmingBoot.conf tr c ∧
      DispatchAt c 3 d ∧ d.executing = true ∧ d.task.name = "net" ∧
      ∀ j d', DispatchAt c j d' → d'.executing = true → d'.task.name = "net" → j = 3 := by
  have run := run_of_schedule system idlesAfterChain
    (firstInstance ++ turns 2 3 ++ turns 0 3) rearmingBoot.conf (by decide)
  refine ⟨_, _, _, run, rfl, by decide, by decide, ?_⟩
  intro j d' hd' executing name
  exact single_instance run hd' rfl executing (by decide) name

/-- The task respawns as thread 3. Thread 2 re-arms the trigger and so stores LOADED; the next scan
starts the task once more. -/
def rearmRace : List (Nat × Answers) := firstInstance ++ turns 0 3 ++ turns 2 3 ++ turns 0 3

theorem rearm_starts_second_instance :
    ∃ tr c d d', Run system (fun e => noOverwrite e = true) rearmingBoot.conf tr c ∧
      DispatchAt c 3 d ∧ DispatchAt c 4 d' ∧ d.executing = true ∧ d'.executing = true ∧
      d.task.name = d'.task.name := by
  have run := run_of_schedule system noOverwrite rearmRace rearmingBoot.conf (by decide)
  exact ⟨_, _, _, _, run, rfl, rfl, by decide⟩

end Crinit
