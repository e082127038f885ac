import Crinit.System

/-! Dispatch threads for STOP_COMMAND. They run the same code as those for COMMAND. -/
namespace Crinit

open Interleave List

def Event.announces : Event → Bool
  | .db (.setTaskState _ _ _) | .db (.rearmTrigger _) => true
  | .db (.fulfillDep dep _) =>
    dep.name ≠ provideDepName && [eventRunning, eventDone, eventFailed].contains dep.event
  | _ => false

def stopAnnounces (e : Step) : Bool := e.thread.runs .stop && e.move.event.announces

def Thread.stopping : Thread → Bool
  | .dispatch d => d.mode = .stop && d.pc ≠ .finished
  | _ => false

def DispatchPc.announced : DispatchPc → Bool
  | .fulfil _ | .provide _ _ | .failClearPid | .failBlock | .failReap | .exit | .finished => true
  | _ => false

theorem announced_before {w : World} {d d' : Dispatch} {e : Event} (moves : DispatchMoves w d e d')
    (announced : d'.pc.announced = true) : d.pc.announced = true ∨ e.announces = true := by
  cases moves with
  | copied | forked => cases announced
  | goes edge =>
    simp only [Dispatch.goto] at announced
    generalize d.pc = pc at edge
    cases edge with
    | setup | reaped =>
      simp only [Dispatch.chainAt] at announced; split_ifs at announced <;> cases announced
    | registered => split_ifs at announced <;> cases announced
    | stored | runningFailed => exact .inr rfl
    | fulfilled | provided | failCleared | failPassed | failReaped | rearmed | left =>
      exact .inl rfl
    | _ => cases announced

def StopAnnounced (c : Config) : Prop :=
  ∃ j d, DispatchAt c j d ∧ d.mode = .stop ∧ d.pc.announced = true

theorem stopAnnounced_onset {c : Config} {i : Nat} {t : Thread} {a : Answers}
    {m : Move World Thread Event} (ht : c.threads[i]? = some t)
    (step : system c.shared t a = some m)
    (before : ¬ StopAnnounced c) (after : StopAnnounced (c.after i m)) :
    stopAnnounces ⟨c, i, a, t, m⟩ = true := by
  obtain ⟨_, moves⟩ := system_moves step
  obtain ⟨j, d, hd, mode, announced⟩ := after
  rcases dispatch_origin ht moves hd with ⟨d₀, old, ⟨_, rfl⟩ | ⟨rfl, steps⟩⟩ | ⟨_, new⟩
  · exact absurd ⟨j, d, old, mode, announced⟩ before
  · have mode₀ : d₀.mode = .stop := (dispatchMoves_name steps).2 ▸ mode
    cases Option.some.inj (ht.symm.trans old)
    rcases announced_before steps announced with earlier | now
    · exact absurd ⟨j, d₀, old, mode₀, earlier⟩ before
    · simp [stopAnnounces, Thread.runs, mode₀, now]
  · rw [(moves_started moves new).1] at announced
    cases announced

theorem runs_stays {c : Config} {i j : Nat} {t u : Thread} {a : Answers} {mode : Mode}
    {m : Move World Thread Event} (hu : c.threads[j]? = some u) (runs : u.runs mode = true)
    (ht : c.threads[i]? = some t) (step : system c.shared t a = some m) :
    ∃ u', (c.after i m).threads[j]? = some u' ∧ u'.runs mode = true := by
  by_cases eq : j = i
  · subst eq
    cases Option.some.inj (hu.symm.trans ht)
    refine ⟨m.thread, after_self ht m, ?_⟩
    obtain ⟨d, rfl, rfl⟩ := runs_dispatch runs
    obtain ⟨d', thread, steps⟩ := moves_dispatch (system_moves step).2
    simp [thread, Thread.runs, (dispatchMoves_name steps).2]
  · exact ⟨u, after_other hu eq m, runs⟩

/-- When all STOP-mode threads of a run have finished, none of them has stored a
state or fulfilled an event of a task only if there was none. -/
theorem stop_mode_silent_iff {guard : Step → Prop} {b : Boot} {tr : List Step} {c : Config}
    (run : Run system guard b.conf tr c) (ended : c.threads.any Thread.stopping = false) :
    (∀ e ∈ tr, stopAnnounces e = false) ↔ c.threads.any (Thread.runs .stop) = false := by
  constructor
  · intro silent
    rw [any_eq_false]
    intro t mem stop
    obtain ⟨d, rfl, mode⟩ := runs_dispatch stop
    obtain ⟨j, hd⟩ := mem_iff_getElem?.mp mem
    have finished : d.pc = .finished := by
      have := List.any_eq_false.mp ended _ mem
      simpa [Thread.stopping, mode] using this
    have initially : ¬ StopAnnounced b.conf := fun ⟨_, _, hd, _⟩ => boot_no_dispatch b hd
    -- a finished thread has stored a state, and some step has brought that about
    obtain ⟨e, he, before, after⟩ :=
      run.onset StopAnnounced initially ⟨j, d, hd, mode, by rw [finished]; rfl⟩
    obtain ⟨_, _, ht, step⟩ := run.taken e he
    have announces := stopAnnounced_onset ht step before after
    rw [silent e he] at announces
    cases announces
  · intro none e he
    cases announces : stopAnnounces e with
    | false => rfl
    | true =>
      obtain ⟨pre, post, rfl⟩ := append_of_mem he
      obtain ⟨_, _, ht, step⟩ := run.taken e he
      have stop : e.thread.runs .stop = true := by
        simp only [stopAnnounces, Bool.and_eq_true] at announces
        exact announces.1
      have kept := run.later.2.invariant
        (fun c => ∃ u, c.threads[e.index]? = some u ∧ u.runs .stop = true)
        (runs_stays ht stop ht step)
        fun c i t m a ⟨u, hu, runs⟩ ht step _ => runs_stays hu runs ht step
      obtain ⟨u, hu, runs⟩ := kept
      exact absurd runs (List.any_eq_false.mp none u (mem_of_getElem? hu))

def stopBoot : Boot where
  db := { taskSet := [{ name := "net", cmds := [["/bin/net"]], stopCmds := [["/bin/down"]] },
    { name := "web", cmds := [["/bin/web"]], deps := [⟨"net", "wait"⟩] }] }
  distinct := by decide
  others := [.children, .handler { script := execRtimCmdStop {} ⟨.c .stop, ["net"]⟩ }]
  fresh := by
    intro t mem
    simp only [mem_cons, not_mem_nil, or_false] at mem
    rcases mem with rfl | rfl
    · exact .children
    · exact .command (.stop _ _)

def launches (j : Nat) (pid : Int) : List (Nat × Answers) :=
  turns j 2 ++ [(j, { pid := pid })] ++ turns j 4

def finishes (j : Nat) (pid : Int) : List (Nat × Answers) := [(1, { pid := pid })] ++ turns j 8

theorem stop_mode_silent_unstopped :
    ∃ tr c, Run system (fun _ => True) stopBoot.conf tr c ∧
      (c.shared.db.findTask "web").map Task.deps = some [] ∧
      ∀ e ∈ tr, stopAnnounces e = false := by
  have run := run_of_any_schedule system (turns 0 1 ++ launches 3 5 ++ finishes 3 5) stopBoot.conf
  exact ⟨_, _, run, by decide, (stop_mode_silent_iff run (by decide)).mpr (by decide)⟩

/-- The STOP_COMMAND of a running task returns: the task counts as done, and what
waits for its end may start, while its own process still runs. -/
theorem stop_command_fulfils_wait :
    ∃ tr c, Run system (fun _ => True) stopBoot.conf tr c ∧ 5 ∈ c.shared.running ∧
      (c.shared.db.findTask "net").map Task.state = some stateDone ∧
      (c.shared.db.findTask "web").map Task.deps = some [] ∧
      ¬ ∀ e ∈ tr, stopAnnounces e = false := by
  have run := run_of_any_schedule system
    (turns 0 1 ++ launches 3 5 ++ turns 2 5 ++ launches 4 6 ++ finishes 4 6) stopBoot.conf
  exact ⟨_, _, run, by decide, by decide, by decide, by decide⟩

end Crinit
