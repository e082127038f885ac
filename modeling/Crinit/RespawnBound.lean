import Crinit.TaskCopies

/-! How often a task with RESPAWN is started again. The counter of failures is kept by the state
setter and tested by the readiness check. -/
namespace Crinit

open Interleave List

/-- Only the main loop and START-mode threads move the state of the task. -/
def undisturbed (n : String) (e : Step) : Bool :=
  match e.move.event with
  | .db (.insert t overwrite _) => !(overwrite && t.task.name == n)
  | .db (.setTaskState _ m _) | .db (.rearmTrigger m) => m != n || e.thread.runs .start
  | .db (.setTaskRespawnInhibit _ m) => m != n
  | _ => true

/-- The FAILED results of the task since its last DONE result or its insertion. -/
def failsAfter (n : String) (k : Nat) (e : Step) : Nat :=
  match e.move.event with
  | .db (.setTaskState s m _) =>
    if m = n then if s = stateFailed then k + 1 else if s = stateDone then 0 else k else k
  | .db (.insert t _ _) =>
    if t.task.name = n ∧ e.before.shared.db.findTask n = none then 0 else k
  | _ => k

def fails (n : String) (tr : List Step) : Nat := tr.foldl (failsAfter n) 0

theorem fails_next (n : String) (tr : List Step) (e : Step) :
    fails n (tr ++ [e]) = failsAfter n (fails n tr) e := by
  simp [fails, foldl_append]

def DispatchPc.unsettled (pc : DispatchPc) : Bool :=
  pc.inChain || match pc with
    | .setState _ => true
    | _ => false

def Dispatch.unsettled (d : Dispatch) : Bool := d.mode = .start && d.pc.unsettled

theorem unsettled_start (d : Dispatch) (unsettled : d.unsettled = true) : d.mode = .start := by
  simp only [Dispatch.unsettled, Bool.and_eq_true, decide_eq_true_eq] at unsettled
  exact unsettled.1

variable {d : Dispatch}

theorem unsettled_before {w : World} {d' : Dispatch} {e : Event} (moves : DispatchMoves w d e d')
    (unsettled : d'.unsettled = true) : d.unsettled = true := by
  simp only [Dispatch.unsettled, Bool.and_eq_true, decide_eq_true_eq] at unsettled ⊢
  obtain ⟨mode, inside⟩ := unsettled
  refine ⟨(dispatchMoves_name moves).2.symm.trans mode, ?_⟩
  cases moves with
  | copied t here => rw [here]; rfl
  | forked i pid here => rw [here]; rfl
  | goes edge =>
    simp only [Dispatch.goto] at inside
    generalize d.pc = pc at edge
    cases edge with
    | stored g => cases g <;> rfl
    | provided g rest e pc feature target =>
      cases g <;> rcases target with rfl | ⟨_, rfl⟩ <;> first | rfl | cases inside
    | fulfilled g => exact inside
    | failCleared => split_ifs at inside <;> cases inside
    | _ => first | rfl | cases inside

theorem storing_unsettled {g : Stage} (mode : d.mode = .start) (here : d.pc = .setState g) :
    d.unsettled = true := by
  unfold Dispatch.unsettled
  rw [mode, here]
  cases g <;> rfl

theorem stored_settled {w : World} {d' : Dispatch} {e : Event} {g : Stage}
    (moves : DispatchMoves w d e d') (here : d.pc = .setState g) (ends : g ≠ .running) :
    d'.unsettled = false := by
  cases moves with
  | copied t lock => simp [here] at lock
  | forked i pid spawn => simp [here] at spawn
  | goes edge =>
    rw [here] at edge
    cases edge with
    | stored =>
      cases g with
      | running => exact absurd rfl ends
      | done | failed =>
        simp [Dispatch.unsettled, Dispatch.goto, Stage.stored, DispatchPc.unsettled,
          DispatchPc.inChain]
    | runningFailed => exact absurd rfl ends

def retriesLeft (t : Task) : Prop := t.maxRetries = -1 ∨ t.failCount ≤ t.maxRetries

inductive Phase (t : Task) : Prop where
  | loaded (word : t.state = stateLoaded) (left : retriesLeft t)
  | active (word : t.state = stateStarting ∨ t.state = stateRunning)
    (triggered : t.triggered = true) (left : retriesLeft t)
  | done (word : t.state = stateDone) (triggered : t.triggered = true) (reset : t.failCount = 0)
  | failed (word : t.state = stateFailed) (triggered : t.triggered = true)
      (bound : t.maxRetries = -1 ∨ t.failCount ≤ t.maxRetries + 1)

variable {t : Task}

theorem phase_busy (phase : Phase t) (isBusy : busy t.state = true) :
    t.triggered = true ∧ retriesLeft t := by
  cases phase with
  | active word triggered left => exact ⟨triggered, left⟩
  | loaded word | done word | failed word =>
    rw [word] at isBusy
    exact absurd isBusy (by decide)

theorem phase_ready (phase : Phase t) (bound : -1 ≤ t.maxRetries) (ready : taskIsReady t = true) :
    retriesLeft t := by
  cases phase with
  | loaded word left | active word triggered left => exact left
  | done word triggered reset =>
    unfold retriesLeft
    omega
  | failed word =>
    refine (((ready_iff t).mp ready).2.2.2.2 ?_).2
    rw [word]
    decide

inductive Advance (e : Step) (n : String) (t : Task) : Task → Prop where
  | started (ready : taskIsReady t = true)
      (scan : ∃ mode f, e.move.event = .db (.spawnReady mode f)) :
      Advance e n t (t.setState stateStarting)
  | unstarted (ready : taskIsReady t = true)
      (scan : ∃ mode f, e.move.event = .db (.spawnReady mode f)) :
      Advance e n t (t.setState (stateStarting &&& ~~~stateStarting))
  | stored {d : Dispatch} (g : Stage) (now : Timespec) (own : e.thread = .dispatch d)
      (mode : d.mode = .start) (name : d.task.name = n) (here : d.pc = .setState g)
      (event : e.move.event = .db (.setTaskState g.state n now)) :
      Advance e n t (t.withState g.state now)
  | aside {t' : Task} (quiet : ∀ s now, e.move.event ≠ .db (.setTaskState s n now))
      (state : t'.state = t.state) (count : t'.failCount = t.failCount)
      (triggered : t.triggered = true → t'.triggered = true) : Advance e n t t'

variable {n : String} {e : Step}

theorem undisturbed_kept (guard : undisturbed n e = true) : e.move.event.overwrites n = false := by
  unfold undisturbed at guard
  generalize e.move.event = event at guard ⊢
  cases event with
  | db op =>
    cases op with
    | insert t overwrite env => exact (Bool.not_eq_true' _).mp guard
    | _ => rfl
  | _ => rfl

theorem undisturbed_stores (guard : undisturbed n e = true)
    (moves : Moves e.before.shared e.answers e.thread e.move.event e.move.thread e.move.started)
    {s : TaskState} {now : Timespec} (event : e.move.event = .db (.setTaskState s n now)) :
    ∃ d g, e.thread = .dispatch d ∧ d.mode = .start ∧ d.task.name = n ∧ d.pc = .setState g ∧
      s = g.state := by
  have runs : e.thread.runs .start = true := by simpa [undisturbed, event] using guard
  obtain ⟨d, own, mode⟩ := runs_dispatch runs
  rw [own, event] at moves
  obtain ⟨_, _, steps⟩ := moves_dispatch moves
  rcases dispatchMoves_db steps with ⟨_, call⟩ | ⟨g, now', here, call⟩ | ⟨_, call⟩ | ⟨_, call⟩ <;>
    cases call
  exact ⟨d, g, own, mode, rfl, here, rfl⟩

theorem undisturbed_advance (copies : Copies n e.before)
    (ht : e.before.threads[e.index]? = some e.thread) (guard : undisturbed n e = true)
    (moves : Moves e.before.shared e.answers e.thread e.move.event e.move.thread e.move.started)
    (found : e.before.shared.db.findTask n = some t) :
    ∃ t', (e.before.shared.after e.move.event).db.findTask n = some t' ∧ t'.opts = t.opts ∧
      t'.maxRetries = t.maxRetries ∧ t'.inhibitRespawn = t.inhibitRespawn ∧
      (t.triggerRearm = false → Advance e n t t') := by
  obtain ⟨t', found', ⟨rfl, other⟩ | ⟨op, event, change⟩⟩ :=
    find_after found (undisturbed_kept guard)
  · exact ⟨t', found', rfl, rfl, rfl, fun _ => .aside (fun s now => other _) rfl rfl id⟩
  · have fixed := changes_fixed change
    have free : t'.inhibitRespawn = t.inhibitRespawn := by
      rcases changes_inhibit change with same | ⟨inh, rfl, _⟩
      · exact same
      · simp [undisturbed, event] at guard
    refine ⟨t', found', fixed.1, fixed.2.2, free, fun once => ?_⟩
    by_cases stores : ∃ s now, op = .setTaskState s n now
    · obtain ⟨s, now, rfl⟩ := stores
      obtain ⟨d, g, own, mode, name, here, rfl⟩ := undisturbed_stores guard moves event
      cases change
      rw [if_pos rfl]
      exact .stored g now own mode name here event
    · have quiet (s : TaskState) (now : Timespec) : e.move.event ≠ .db (.setTaskState s n now) := by
        intro eq
        cases event.symm.trans eq
        exact stores ⟨s, now, rfl⟩
      cases changes_effect change with
      | started mode f scan ready => exact .started ready ⟨mode, f, scan ▸ event⟩
      | unstarted mode f scan ready => exact .unstarted ready ⟨mode, f, scan ▸ event⟩
      | rearmed call =>
        subst call
        have runs : e.thread.runs .start = true := by simpa [undisturbed, event] using guard
        obtain ⟨d, own, _⟩ := runs_dispatch runs
        rw [own] at ht moves
        rw [event] at moves
        rw [rearms_of_copies copies ht moves found] at once
        cases once
      | stored s ts call => exact absurd ⟨s, ts, call⟩ stores
      | matched dep =>
        exact .aside quiet rfl rfl fun triggered => by simp [removeDepFromTaskStruct, triggered]
      | none | pid | inhibited | depAdded => exact .aside quiet rfl rfl id

theorem toInt_succ (v : Int) : toInt (toInt v + 1) = toInt (v + 1) := Int.bmod_add_bmod

theorem toInt_zero : toInt (0 : Nat) = 0 := by simp [toInt]

theorem toInt_range (v : Int) : -0x80000000 ≤ toInt v ∧ toInt v ≤ 0x7fffffff := by
  have low := @Int.le_bmod v 0x100000000 (by decide)
  have high := @Int.bmod_lt v 0x100000000 (by decide)
  unfold toInt
  omega

theorem toInt_le {v : Int} (low : -0x80000000 ≤ v) : toInt v ≤ v := by
  rw [toInt, Int.bmod_def]
  omega

theorem toInt_eq_iff (k : Nat) : toInt k = k ↔ k ≤ 0x7fffffff := by
  rw [toInt, Int.bmod_def]
  omega

theorem fails_quiet {k : Nat} (found : e.before.shared.db.findTask n = some t)
    (quiet : ∀ s now, e.move.event ≠ .db (.setTaskState s n now)) : failsAfter n k e = k := by
  unfold failsAfter
  split
  · rename_i s m now event
    refine if_neg ?_
    rintro rfl
    exact quiet s now event
  · simp [found]
  · rfl

theorem fails_scan {k : Nat} (found : e.before.shared.db.findTask n = some t)
    (scan : ∃ mode f, e.move.event = .db (.spawnReady mode f)) : failsAfter n k e = k := by
  obtain ⟨mode, f, scan⟩ := scan
  exact fails_quiet found fun s now eq => by cases scan.symm.trans eq

theorem fails_stored {k : Nat} {g : Stage} {now : Timespec}
    (event : e.move.event = .db (.setTaskState g.state n now)) :
    failsAfter n k e =
      match g with
      | .running => k
      | .done => 0
      | .failed => k + 1 := by
  cases g <;> simp [failsAfter, event, Stage.state, stateRunning, stateDone, stateFailed]

theorem fails_advance {t' : Task} {k : Nat} (found : e.before.shared.db.findTask n = some t)
    (count : t.failCount = toInt k) (advance : Advance e n t t') :
    t'.failCount = toInt (failsAfter n k e) := by
  cases advance with
  | started _ scan | unstarted _ scan =>
    rw [fails_scan found scan]
    exact count
  | stored g now _ _ _ _ event =>
    rw [fails_stored event]
    cases g with
    | running => exact count
    | done => exact toInt_zero.symm
    | failed =>
      change toInt (t.failCount + 1) = toInt ((k : Int) + 1)
      rw [count, toInt_succ]
  | aside quiet state same => rw [fails_quiet found quiet, same, count]

theorem phase_advance {t' : Task} (phase : Phase t) (bound : -1 ≤ t.maxRetries)
    (low : -0x80000000 ≤ t.failCount)
    (retries : t'.maxRetries = t.maxRetries) (advance : Advance e n t t')
    (working : ∀ d, e.thread = .dispatch d → d.task.name = n → d.unsettled = true →
      busy t.state = true) : Phase t' := by
  cases advance with
  | started ready =>
    have left := phase_ready phase bound ready
    have triggered := ready_triggered ready
    exact .active (.inl (setState_state _ _)) triggered left
  | unstarted ready =>
    have left := phase_ready phase bound ready
    exact .loaded (by rw [setState_state]; decide) left
  | @stored d g now own mode name here =>
    have isBusy := working d own name (storing_unsettled mode here)
    obtain ⟨triggered, left⟩ := phase_busy phase isBusy
    cases g with
    | running => exact .active (.inr (withState_state _ _ _)) triggered left
    | done => exact .done rfl triggered rfl
    | failed =>
      refine .failed rfl triggered (left.imp id fun le => ?_)
      have next : toInt (t.failCount + 1) ≤ t.failCount + 1 := toInt_le (by omega)
      show toInt (t.failCount + 1) ≤ t.maxRetries + 1
      omega
  | aside _ state count triggered =>
    have left : retriesLeft t → retriesLeft t' := by
      unfold retriesLeft
      rw [retries, count]
      exact id
    cases phase with
    | loaded word rest => exact .loaded (state.trans word) (left rest)
    | active word before rest => exact .active (state ▸ word) (triggered before) (left rest)
    | done word before reset =>
      exact .done (state.trans word) (triggered before) (count.trans reset)
    | failed word before le =>
      exact .failed (state.trans word) (triggered before) (by rwa [retries, count])

/-- The task `t` of the name, and the threads that work for it. -/
structure RespawnsTask (n : String) (tr : List Step) (c : Config) (t : Task) : Prop where
  free : t.inhibitRespawn = false
  failures : t.failCount = toInt (fails n tr)
  bound : ∀ N : Nat, t.maxRetries = N → N < 0x7fffffff → fails n tr ≤ N + 1
  phase : -1 ≤ t.maxRetries → Phase t
  working : ∀ j d, DispatchAt c j d → d.unsettled = true → d.task.name = n → busy t.state = true
  unique : ∀ j k d d', DispatchAt c j d → DispatchAt c k d' → d.unsettled = true →
    d'.unsettled = true → d.task.name = n → d'.task.name = n → j = k

structure Respawning (n : String) (tr : List Step) (c : Config) : Prop where
  copies : Copies n c
  task : ∀ t, c.shared.db.findTask n = some t → t.triggerRearm = false → RespawnsTask n tr c t

variable {c : Config} {tr : List Step}

theorem newTask_respawns (nt : NewTask) (none : fails n tr = 0)
    (idle : ∀ {j d}, DispatchAt c j d → d.unsettled = true → d.task.name ≠ n) :
    RespawnsTask n tr c nt.task where
  free := nt.notInhibited
  failures := by rw [none, nt.noFailures, toInt_zero]
  bound N _ _ := by omega
  phase bound := by
    refine .loaded nt.loaded ?_
    unfold retriesLeft
    rw [nt.noFailures]
    omega
  working _ _ hd unsettled name := absurd name (idle hd unsettled)
  unique _ _ _ _ hd _ unsettled _ name _ := absurd name (idle hd unsettled)

theorem added_idle {i : Nat} {t : Thread} {a : Answers} {m : Move World Thread Event}
    (copies : Copies n c) (ht : c.threads[i]? = some t)
    (moves : Moves c.shared a t m.event m.thread m.started)
    (absent : c.shared.db.findTask n = none) {j : Nat} (hd : DispatchAt (c.after i m) j d)
    (unsettled : d.unsettled = true) : d.task.name ≠ n := by
  rintro rfl
  rcases start_origin unsettled_start (fun _ _ _ _ => unsettled_before) ht moves hd unsettled with
    ⟨d₀, old, _, name, _⟩ | ⟨_, _, started⟩
  · obtain ⟨_, found, _⟩ := copies.threads j d₀ old name.symm
    rw [absent] at found
    cases found
  · obtain ⟨_, _, found, _⟩ := started_found copies.distinct (mem_of_getElem? started)
    rw [absent] at found
    cases found

theorem respawning_added (copies : Copies n e.before)
    (ht : e.before.threads[e.index]? = some e.thread)
    (step : system e.before.shared e.thread e.answers = some e.move)
    (guard : undisturbed n e = true) (absent : e.before.shared.db.findTask n = none) :
    Respawning n (tr ++ [e]) e.result := by
  obtain ⟨shared, moves⟩ := system_moves step
  have added (t : Task) (found : e.result.shared.db.findTask n = some t) :
      ∃ nt overwrite env, e.move.event = .db (.insert nt overwrite env) ∧ t = nt.task := by
    simp only [Taken.result, Conf.after, shared] at found
    rcases after_db e.before.shared e.move.event with same | ⟨op, event, same⟩
    · rw [same, absent] at found
      cases found
    · rw [same] at found
      rcases find_before op found with ⟨nt, overwrite, env, rfl, new⟩ | ⟨_, old, _⟩
      · exact ⟨nt, overwrite, env, event, new⟩
      · rw [absent] at old
        cases old
  refine ⟨copies_step copies ht step (undisturbed_kept guard), fun t found _ => ?_⟩
  obtain ⟨nt, overwrite, env, event, rfl⟩ := added t found
  refine newTask_respawns nt ?_ fun hd => added_idle copies ht moves absent hd
  rw [fails_next, failsAfter, event]
  simp [absent, findTask_name found]

/-- A task that fails had a retry left, and below the maximum of an `int` its counter is exact. -/
theorem bound_advance {t' : Task} {k N : Nat} (found : e.before.shared.db.findTask n = some t)
    (count : t.failCount = toInt k) (before : k ≤ N + 1) (retries : t.maxRetries = N)
    (small : N < 0x7fffffff) (phase : Phase t) (advance : Advance e n t t')
    (working : ∀ d, e.thread = .dispatch d → d.task.name = n → d.unsettled = true →
      busy t.state = true) : failsAfter n k e ≤ N + 1 := by
  cases advance with
  | started _ scan | unstarted _ scan => rwa [fails_scan found scan]
  | @stored d g now own mode name here event =>
    rw [fails_stored event]
    cases g with
    | running => exact before
    | done => exact Nat.zero_le _
    | failed =>
      obtain ⟨-, left⟩ := phase_busy phase (working d own name (storing_unsettled mode here))
      have exact := (toInt_eq_iff k).2 (by omega)
      unfold retriesLeft at left
      dsimp only
      omega
  | aside quiet => rwa [fails_quiet found quiet]

/-- The step keeps the task busy while one of its threads is unsettled: only that
thread stores a result, and settles with it. -/
theorem busy_advance (before : RespawnsTask n tr e.before t)
    (ht : e.before.threads[e.index]? = some e.thread) {u : Task}
    (advance : Advance e n t u) {j : Nat} {d₀ : Dispatch} (old : DispatchAt e.before j d₀)
    (was : d₀.unsettled = true) (name : d₀.task.name = n)
    (steps : j = e.index → DispatchMoves e.before.shared d₀ e.move.event d)
    (unsettled : d.unsettled = true) : busy u.state = true := by
  have isBusy := before.working j d₀ old was name
  cases advance with
  | started ready | unstarted ready =>
    rw [ready_not_busy ready] at isBusy
    cases isBusy
  | @stored d₁ g now own mode name' here event =>
    rw [own] at ht
    have same := before.unique j e.index d₀ d₁ old ht was (storing_unsettled mode here) name name'
    subst same
    cases Option.some.inj (ht.symm.trans old)
    by_cases ends : g = .running
    · subst ends
      rw [withState_state]
      decide
    · rw [stored_settled (steps rfl) here ends] at unsettled
      cases unsettled
  | aside quiet state => rwa [state]

section Step

variable (before : Respawning n tr e.before) (ht : e.before.threads[e.index]? = some e.thread)
    (step : system e.before.shared e.thread e.answers = some e.move)
    (guard : undisturbed n e = true)
include before ht step guard

theorem respawning_kept (found : e.before.shared.db.findTask n = some t) :
    Respawning n (tr ++ [e]) e.result := by
  obtain ⟨shared, moves⟩ := system_moves step
  obtain ⟨u, found', opts, retries, inhibit, advance⟩ :=
    undisturbed_advance before.copies ht guard moves found
  have later : e.result.shared.db.findTask n = some u := by
    simpa only [Taken.result, Conf.after, shared] using found'
  refine ⟨copies_step before.copies ht step (undisturbed_kept guard), fun t' now once => ?_⟩
  cases Option.some.inj (later.symm.trans now)
  replace once : t.triggerRearm = false := by
    unfold Task.triggerRearm at once ⊢
    rwa [← opts]
  have old := before.task t found once
  have advance := advance once
  have origin {j : Nat} {d : Dispatch} (hd : DispatchAt e.result j d) :=
    start_origin unsettled_start (fun _ _ _ _ => unsettled_before) ht moves hd
  -- a task that the scan starts has no unsettled thread: it was not busy
  have fresh {j : Nat} {s : Task} {d : Dispatch} (hd : DispatchAt e.before j d)
      (unsettled : d.unsettled = true) (name : d.task.name = n)
      (started : s ∈ (e.before.shared.db.spawnReady .start (some e.answers.startOk)).started) :
      s.name ≠ n := by
    rintro rfl
    obtain ⟨_, v, same, ready, _⟩ := started_found before.copies.distinct started
    have isBusy := old.working j d hd unsettled name
    rw [Option.some.inj (found.symm.trans same), ready_not_busy ready] at isBusy
    cases isBusy
  have working (d : Dispatch) (own : e.thread = .dispatch d) (name : d.task.name = n)
      (unsettled : d.unsettled = true) : busy t.state = true :=
    old.working e.index d (ht.trans (congrArg some own)) unsettled name
  constructor
  · exact inhibit.trans old.free
  · rw [fails_next]
    exact fails_advance found old.failures advance
  · intro N same small
    rw [retries] at same
    rw [fails_next]
    exact bound_advance found old.failures (old.bound N same small) same small
      (old.phase (by omega)) advance working
  · intro bound
    rw [retries] at bound
    have low : -0x80000000 ≤ t.failCount := by
      rw [old.failures]
      exact (toInt_range _).1
    exact phase_advance (old.phase bound) bound low retries advance working
  · intro j d hd unsettled name
    rcases origin hd unsettled with ⟨d₀, there, was, same, steps⟩ | ⟨_, scan, started⟩
    · exact busy_advance old ht advance there was (same.symm.trans name) steps unsettled
    · obtain ⟨after, _, _, _, starting⟩ :=
        started_found before.copies.distinct (mem_of_getElem? started)
      rw [name] at after
      rw [scan] at found'
      rw [Option.some.inj (found'.symm.trans after), starting, setState_state]
      decide
  · intro j k d d' hd hd' unsettled unsettled' name name'
    rcases origin hd unsettled with ⟨d₀, there, was, same, _⟩ | ⟨late, _, started⟩ <;>
      rcases origin hd' unsettled' with ⟨d₁, there', was', same', _⟩ | ⟨late', _, started'⟩
    · exact old.unique j k d₀ d₁ there there' was was' (same.symm.trans name)
        (same'.symm.trans name')
    · exact absurd name' (fresh there was (same.symm.trans name) (mem_of_getElem? started'))
    · exact absurd name (fresh there' was' (same'.symm.trans name') (mem_of_getElem? started))
    · have positions :=
        started_distinct before.copies.distinct started started' (name.trans name'.symm)
      omega

theorem respawning_step : Respawning n (tr ++ [e]) e.result := by
  cases found : e.before.shared.db.findTask n with
  | none => exact respawning_added before.copies ht step guard found
  | some t => exact respawning_kept before ht step guard found

end Step

def Boot.Loaded (b : Boot) : Prop := ∀ t ∈ b.db.taskSet, ∃ nt : NewTask, t = nt.task

theorem respawning_run {b : Boot} (loaded : b.Loaded)
    (run : Run system (fun e => undisturbed n e = true) b.conf tr c) : Respawning n tr c := by
  refine run.history (Respawning n) ⟨boot_copies b n, fun t found _ => ?_⟩ ?_
  · obtain ⟨nt, rfl⟩ := loaded t (mem_of_find?_eq_some found)
    exact newTask_respawns nt rfl fun hd => absurd hd (boot_no_dispatch b)
  · intro tr c i t m a before ht step guard
    exact respawning_step (e := ⟨c, i, a, t, m⟩) before ht step guard

structure Exhausted (n : String) (N : Nat) (tr : List Step) (c : Config) : Prop where
  small : N < 0x7fffffff
  respawning : Respawning n tr c
  failed : fails n tr = N + 1
  task : ∃ t, c.shared.db.findTask n = some t ∧ t.triggerRearm = false ∧ t.maxRetries = N

theorem exhausted_step {N : Nat} (before : Exhausted n N tr e.before)
    (ht : e.before.threads[e.index]? = some e.thread)
    (step : system e.before.shared e.thread e.answers = some e.move)
    (guard : undisturbed n e = true) :
    Exhausted n N (tr ++ [e]) e.result ∧ startsFor n e = false := by
  obtain ⟨small, respawning, failed, t, found, once, retries⟩ := before
  obtain ⟨shared, moves⟩ := system_moves step
  have kept := respawning.task t found once
  have count := kept.failures
  have exact := (toInt_eq_iff (fails n tr)).2 (by omega)
  have phase := kept.phase (by omega)
  have spent : ¬ retriesLeft t := by
    unfold retriesLeft
    omega
  have notReady : taskIsReady t ≠ true := fun ready => spent (phase_ready phase (by omega) ready)
  have notBusy : busy t.state ≠ true := fun isBusy => spent (phase_busy phase isBusy).2
  obtain ⟨u, found', opts, retries', _, advance⟩ :=
    undisturbed_advance respawning.copies ht guard moves found
  have same : failsAfter n (fails n tr) e = fails n tr := by
    cases advance once with
    | started ready | unstarted ready => exact absurd ready notReady
    | @stored d g now own mode name here =>
      rw [own] at ht
      exact absurd (kept.working e.index d ht (storing_unsettled mode here) name) notBusy
    | aside quiet => exact fails_quiet found quiet
  refine ⟨⟨small, respawning_step respawning ht step guard, ?_, u, ?_, ?_,
    retries'.trans retries⟩, ?_⟩
  · rw [fails_next, same, failed]
  · simpa only [Taken.result, Conf.after, shared] using found'
  · unfold Task.triggerRearm at once ⊢
    rw [opts]
    exact once
  · cases starts : startsFor n e with
    | false => rfl
    | true =>
      obtain ⟨_, v, same, ready, _⟩ := startsFor_ready respawning.copies.distinct moves starts
      rw [← Option.some.inj (found.symm.trans same)] at ready
      exact absurd ready notReady

theorem exhausted_run {N : Nat} {tr' : List Step} {c' : Config} (start : Exhausted n N tr c)
    (run : Run system (fun e => undisturbed n e = true) c tr' c') :
    ∀ e ∈ tr', startsFor n e = false := by
  have all := run.history (fun mid c => Exhausted n N (tr ++ mid) c ∧
    ∀ e ∈ mid, startsFor n e = false) ⟨by simpa using start, by simp⟩ ?_
  · exact all.2
  · rintro mid c i t m a ⟨before, none⟩ ht step guard
    obtain ⟨after, quiet⟩ := exhausted_step (e := ⟨c, i, a, t, m⟩) before ht step guard
    refine ⟨by rw [← append_assoc]; exact after, ?_⟩
    intro e mem
    rcases List.mem_append.mp mem with mem | mem
    · exact none e mem
    · cases List.mem_singleton.mp mem
      exact quiet

/-- The counter is the number of failures in a row for as long as an `int` holds it. Below the
largest `int` a task with N retries fails at most N + 1 times in a row and is never started again
behind that. With that many retries, or without a bound, a task is ready again as soon as its
dependencies are met. -/
theorem respawn_bound {b : Boot} (loaded : b.Loaded) {n : String} {tr : List Step} {c : Config}
    (run : Run system (fun e => undisturbed n e = true) b.conf tr c) {t : Task}
    (found : c.shared.db.findTask n = some t) (respawn : t.respawn = true)
    (once : t.triggerRearm = false) :
    (t.failCount = fails n tr ↔ fails n tr ≤ 0x7fffffff) ∧
    (∀ N : Nat, t.maxRetries = N → N < 0x7fffffff → fails n tr ≤ N + 1 ∧
      (fails n tr = N + 1 → ∀ tr' c', Run system (fun e => undisturbed n e = true) c tr' c' →
        ∀ e ∈ tr', startsFor n e = false)) ∧
    (t.maxRetries = -1 ∨ t.maxRetries = 0x7fffffff → anyBit t.state stateFailed = true →
      t.deps = [] → taskIsReady t = true) := by
  have reached := respawning_run loaded run
  obtain ⟨free, count, bound, phase, -, -⟩ := reached.task t found once
  refine ⟨?_, ?_, ?_⟩
  · rw [count, toInt_eq_iff]
  · intro N retries small
    exact ⟨bound N retries small, fun failed tr' c' later =>
      exhausted_run ⟨small, reached, failed, t, found, once, retries⟩ later⟩
  · intro unbounded isFailed met
    have range := (toInt_range (fails n tr)).2
    have left : t.maxRetries = -1 ∨ t.failCount ≤ t.maxRetries := by omega
    rw [ready_iff]
    cases phase (by omega) with
    | failed word triggered =>
      exact ⟨met, triggered, by rw [word]; decide, fun _ => free, fun _ => ⟨respawn, left⟩⟩
    | loaded word | done word =>
      rw [word] at isFailed
      exact absurd isFailed (by decide)
    | active word =>
      rcases word with word | word <;> rw [word] at isFailed <;> exact absurd isFailed (by decide)

def udevBoot : Boot where
  db := { taskSet :=
    [{ name := "udev", cmds := [["/sbin/udevd"]], opts := optRespawn, maxRetries := 0 }] }
  distinct := by decide
  others := [.children]
  fresh := fresh_children

def udevFails : List (Nat × Answers) :=
  turns 0 1 ++ turns 2 1 ++ [(2, { ok := false })] ++ turns 2 1

theorem respawn_bound_reached :
    ∃ tr c, Run system (fun e => undisturbed "udev" e = true) udevBoot.conf tr c ∧
      fails "udev" tr = 1 ∧ ∀ tr' c', Run system (fun e => undisturbed "udev" e = true) c tr' c' →
        ∀ e ∈ tr', startsFor "udev" e = false := by
  have run := run_of_schedule system (undisturbed "udev") udevFails udevBoot.conf (by decide)
  have loaded : udevBoot.Loaded := by
    intro t mem
    cases List.mem_singleton.mp mem
    exact ⟨⟨_, rfl, rfl, rfl, rfl, rfl⟩, rfl⟩
  have failed : fails "udev" (steps system udevBoot.conf udevFails) = 1 := by decide
  obtain ⟨_, bound, _⟩ := respawn_bound loaded run rfl (by decide) (by decide)
  exact ⟨_, _, run, failed, (bound 0 (by decide) (by decide)).2 failed⟩

/-! ### The largest number of retries -/

def flakyUdev (k : Nat) : Task :=
  { name := "udev", cmds := [["/sbin/udevd"]], opts := optRespawn, maxRetries := 0x7fffffff,
    failCount := toInt k, state := if k = 0 then stateLoaded else stateFailed }

def flakyBoot : Boot where
  db := { taskSet := [flakyUdev 0] }
  distinct := by decide
  others := []
  fresh := fun _ mem => absurd mem not_mem_nil

theorem flakyUdev_ready (k : Nat) : taskIsReady (flakyUdev k) = true := by
  have range := (toInt_range k).2
  rw [ready_iff]
  have respawn : (flakyUdev k).respawn = true := by
    change anyBit optRespawn optRespawn = true
    decide
  refine ⟨rfl, rfl, ?_, fun _ => rfl, fun _ => ⟨respawn, .inr ?_⟩⟩
  · unfold flakyUdev
    dsimp only
    split_ifs <;> decide
  · simpa [flakyUdev] using range

def flakyWorld (t : Task) (waiter : Waiter) : World :=
  { db := { taskSet := [t] }, waiter := waiter }

def flakyThread (k : Nat) (pc : DispatchPc) : Thread :=
  .dispatch { mode := .start, slot := some 256, task := (flakyUdev k).setState stateStarting,
              pc := pc }

theorem flaky_scan (k : Nat) : system (flakyWorld (flakyUdev k) .away) (.main .scan) {} =
    some ⟨.db (.spawnReady .start (some fun _ _ => true)),
      flakyWorld ((flakyUdev k).setState stateStarting) .away, .main .gap,
      [flakyThread k .lock]⟩ := by
  have loop : spawnLoop (fun _ => true) [flakyUdev k] = (0, [(flakyUdev k).setState stateStarting],
      [(flakyUdev k).setState stateStarting]) := by
    rw [spawnLoop_start _ _ _ (flakyUdev_ready k) rfl]
    rfl
  simp [system, Thread.next, startedBy, flakyWorld, World.after, DbOp.apply, TaskDB.spawnReady,
    loop, flakyThread, dispatchFor]

theorem flaky_failed (k : Nat) :
    ((flakyUdev k).setState stateStarting).withState stateFailed {} = flakyUdev (k + 1) := by
  simp [Task.withState, Task.setState, flakyUdev, toInt_succ, stateFailed, stateNotified]

abbrev FlakyRun : Config → List Step → Config → Prop :=
  Run system fun e => undisturbed "udev" e = true

theorem flaky_step {w w' : World} {rest : List Thread} {t t' : Thread} {a : Answers} {e : Event}
    (moves : system w t a = some ⟨e, w', t', []⟩)
    (met : ∀ c i, undisturbed "udev" ⟨c, i, a, t, ⟨e, w', t', []⟩⟩ = true) :
    ∃ x : Step, FlakyRun ⟨w, .main .gap :: (rest ++ [t])⟩ [x]
        ⟨w', .main .gap :: (rest ++ [t'])⟩ ∧ x.move.event = e :=
  ⟨_, run_of_move (i := rest.length + 1) (by simp) moves (met _ _) (by simp [Conf.after]), rfl⟩

/-- The scan starts the task, its command cannot be spawned, and the main loop comes round. -/
theorem flaky_turn (k : Nat) (rest : List Thread) :
    ∃ tr rest', FlakyRun ⟨flakyWorld (flakyUdev k) .away, .main .scan :: rest⟩ tr
        ⟨flakyWorld (flakyUdev (k + 1)) .away, .main .scan :: rest'⟩ ∧
      ∀ j, tr.foldl (failsAfter "udev") j = j + 1 := by
  let starting := (flakyUdev k).setState stateStarting
  have scan : FlakyRun ⟨flakyWorld (flakyUdev k) .away, .main .scan :: rest⟩ _
      ⟨flakyWorld starting .away, .main .gap :: (rest ++ [flakyThread k .lock])⟩ :=
    run_of_move (i := 0) rfl (flaky_scan k) rfl rfl
  obtain ⟨x₁, copy, h₁⟩ := @flaky_step (flakyWorld starting .away) (flakyWorld starting .away) rest
    (flakyThread k .lock) (flakyThread k .setup) {} .silent rfl (fun _ _ => rfl)
  obtain ⟨x₂, setup, h₂⟩ := @flaky_step (flakyWorld starting .away) (flakyWorld starting .away) rest
    (flakyThread k .setup) (flakyThread k (.spawn 0)) {} .silent rfl (fun _ _ => rfl)
  obtain ⟨x₃, spawn, h₃⟩ := @flaky_step (flakyWorld starting .away) (flakyWorld starting .away) rest
    (flakyThread k (.spawn 0)) (flakyThread k (.setState .failed)) { ok := false } .silent rfl
    (fun _ _ => rfl)
  obtain ⟨x₄, store, h₄⟩ := @flaky_step (flakyWorld starting .away)
    (flakyWorld (starting.withState stateFailed {}) .away) rest
    (flakyThread k (.setState .failed)) (flakyThread k .failClearPid) {}
    (.db (.setTaskState stateFailed "udev" {})) rfl (fun _ _ => rfl)
  rw [flaky_failed] at store
  have sleep : FlakyRun ⟨flakyWorld (flakyUdev (k + 1)) .away,
        .main .gap :: (rest ++ [flakyThread k .failClearPid])⟩ _
      ⟨flakyWorld (flakyUdev (k + 1)) .waiting,
        .main .waiting :: (rest ++ [flakyThread k .failClearPid])⟩ :=
    run_of_move (i := 0) (o := {}) rfl rfl rfl (by simp [Conf.after]; rfl)
  have wake : FlakyRun ⟨flakyWorld (flakyUdev (k + 1)) .waiting,
        .main .waiting :: (rest ++ [flakyThread k .failClearPid])⟩ _
      ⟨flakyWorld (flakyUdev (k + 1)) .away,
        .main .scan :: (rest ++ [flakyThread k .failClearPid])⟩ :=
    run_of_move (i := 0) (o := {}) rfl rfl rfl (by simp [Conf.after]; rfl)
  refine ⟨_, _, (((((scan.append copy).append setup).append spawn).append store).append
    sleep).append wake, fun j => ?_⟩
  simp [failsAfter, h₁, h₂, h₃, h₄, stateFailed]

theorem flaky_run (k : Nat) : ∃ tr rest, FlakyRun flakyBoot.conf tr
    ⟨flakyWorld (flakyUdev k) .away, .main .scan :: rest⟩ ∧ fails "udev" tr = k := by
  induction k with
  | zero => exact ⟨[], [], .start, rfl⟩
  | succ k ih =>
    obtain ⟨tr, rest, run, failed⟩ := ih
    obtain ⟨tr', rest', turn, count⟩ := flaky_turn k rest
    refine ⟨_, rest', run.append turn, ?_⟩
    rw [fails, foldl_append, count]
    exact congrArg (· + 1) failed

/-- RESPAWN_RETRIES is the largest `int` N: the task fails N + 2 times in a row, its counter has
become negative, and it is ready again. -/
theorem largest_bound_passed :
    ∃ tr c, Run system (fun e => undisturbed "udev" e = true) flakyBoot.conf tr c ∧
      fails "udev" tr = 0x7fffffff + 2 ∧
      ∃ t, c.shared.db.findTask "udev" = some t ∧ t.maxRetries = 0x7fffffff ∧
        t.failCount = -0x7fffffff ∧ taskIsReady t = true := by
  obtain ⟨tr, rest, run, failed⟩ := flaky_run (0x7fffffff + 2)
  exact ⟨tr, _, run, failed, _, rfl, rfl, by simp [flakyUdev, toInt], flakyUdev_ready _⟩

end Crinit
