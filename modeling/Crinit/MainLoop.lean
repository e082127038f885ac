import Crinit.System

/-! The main loop and its condition variable. The scan for ready tasks and the wait are two critical
sections. -/
namespace Crinit

open Interleave List

/-- There is a task that a scan would start. No scan is defined on a corrupt TaskDB. -/
def TaskDB.hasReady (db : TaskDB) : Bool :=
  !db.corrupt && !db.spawnInhibit && db.taskSet.any taskIsReady

def LostWakeup (w : World) : Prop := w.waiter = .waiting ∧ w.db.hasReady = true

instance (w : World) : Decidable (LostWakeup w) := inferInstanceAs (Decidable (_ ∧ _))

theorem busy_not_ready {t : Task} (h : busy t.state = true) : taskIsReady t = false := by
  cases ready : taskIsReady t with
  | false => rfl
  | true =>
    rw [ready_not_busy ready] at h
    cases h

theorem spawnLoop_none_ready (f : Task → Bool) (ts : List Task) (through : (spawnLoop f ts).1 = 0) :
    (spawnLoop f ts).2.1.any taskIsReady = false := by
  induction ts with
  | nil => rfl
  | cons t ts ih =>
    cases ready : taskIsReady t with
    | false =>
      rw [spawnLoop_skip f t ts ready] at through ⊢
      simpa [ready] using ih through
    | true =>
      cases ok : f (t.setState stateStarting) with
      | false => simp [spawnLoop_fail f t ts ready ok] at through
      | true =>
        rw [spawnLoop_start f t ts ready ok] at through ⊢
        have starting : taskIsReady (t.setState stateStarting) = false :=
          busy_not_ready (by rw [setState_state]; decide)
        simpa [starting] using ih through

theorem spawnLoop_idle (f : Task → Bool) (ts : List Task) (none : ts.any taskIsReady = false) :
    (spawnLoop f ts).2.1 = ts := by
  induction ts with
  | nil => rfl
  | cons t ts ih =>
    simp only [any_cons, Bool.or_eq_false_iff] at none
    rw [spawnLoop_skip f t ts none.1]
    simp [ih none.2]

variable {db : TaskDB}

theorem scan_leaves_none {mode : Mode} {f : Task → Mode → Bool}
    (through : (db.spawnReady mode (some f)).ret = 0) :
    (db.spawnReady mode (some f)).db.hasReady = false := by
  unfold TaskDB.spawnReady at through ⊢
  cases inhibited : db.spawnInhibit with
  | true => simp [TaskDB.hasReady, inhibited]
  | false =>
    simp only [inhibited, Bool.false_eq_true, if_false] at through ⊢
    simp [TaskDB.hasReady, spawnLoop_none_ready _ _ through]

theorem update_any {n : String} {f : Task → Task}
    (kept : ∀ t, taskIsReady (f t) = true → taskIsReady t = true) (ts : List Task)
    (ready : (updateFirst n f ts).any taskIsReady = true) : ts.any taskIsReady = true := by
  induction ts with
  | nil => exact ready
  | cons t ts ih =>
    unfold updateFirst at ready
    simp only [any_cons, Bool.or_eq_true]
    split_ifs at ready
    · simp only [any_cons, Bool.or_eq_true] at ready
      exact ready.imp (kept t) id
    · simp only [any_cons, Bool.or_eq_true] at ready
      exact ready.imp id ih

theorem update_hasReady {n : String} {f : Task → Task}
    (kept : ∀ t, taskIsReady (f t) = true → taskIsReady t = true) (noWork : db.hasReady = false) :
    (db.update n f).hasReady = false := by
  cases after : (db.update n f).hasReady with
  | false => rfl
  | true =>
    simp only [TaskDB.hasReady, TaskDB.update, Bool.and_eq_true] at after
    have before : db.hasReady = true := by
      simp only [TaskDB.hasReady, Bool.and_eq_true]
      exact ⟨after.1, update_any kept db.taskSet after.2⟩
    rw [before] at noWork
    cases noWork

def DbOp.quietlyEnables : DbOp → Bool
  | .setTaskRespawnInhibit inh _ => !inh
  | .insert _ _ env => !env.hookOk
  | _ => false

/-- Every other call that makes a task ready wakes the main thread. -/
theorem enabling_broadcasts (op : DbOp) (loud : op.quietlyEnables = false)
    (noWork : db.hasReady = false) (quiet : (op.apply db).broadcast = false) :
    (op.apply db).db.hasReady = false := by
  cases op with
  | insert nt overwrite env =>
    have hook : env.hookOk = true := by simpa [DbOp.quietlyEnables] using loud
    change (db.insert nt.task overwrite env).broadcast = false at quiet
    change (db.insert nt.task overwrite env).db.hasReady = false
    rcases insert_cases db nt.task overwrite env with same | ⟨db₁, -, result⟩
    · rw [same]
      exact noWork
    · rw [result, TaskDB.copied] at quiet
      rw [result, TaskDB.copied]
      cases made : env.copies nt.task with
      | false => rfl
      | true => simp [made, hook] at quiet
  | spawnReady mode f =>
    simp only [DbOp.apply, TaskDB.spawnReady]
    cases inhibited : db.spawnInhibit with
    | true => simp [noWork]
    | false =>
      cases f with
      | none => simp [noWork]
      | some f =>
        cases corrupt : db.corrupt with
        | true => simp [TaskDB.hasReady]
        | false =>
          have idle : db.taskSet.any taskIsReady = false := by
            simpa [TaskDB.hasReady, inhibited, corrupt] using noWork
          simp [TaskDB.hasReady, spawnLoop_idle _ _ idle, idle]
  | setSpawnInhibit inh =>
    simp only [DbOp.apply, TaskDB.setSpawnInhibit] at quiet ⊢
    split_ifs at quiet ⊢
    · have on : inh = true := by simpa using quiet
      simp [TaskDB.hasReady, on]
    · exact noWork
  | rearmTrigger n =>
    simp only [DbOp.apply, TaskDB.rearmTrigger] at quiet
    cases found : db.findTask n <;> simp [found] at quiet
  | setTaskState s n ts =>
    simp only [DbOp.apply, TaskDB.setTaskState] at quiet ⊢
    cases found : db.findTask n with
    | some u => simp [found] at quiet
    | none => exact noWork
  | setTaskPID pid n =>
    simp only [DbOp.apply, TaskDB.setTaskPID]
    cases found : db.findTask n with
    | some u => exact update_hasReady (fun t ready => ready) noWork
    | none => exact noWork
  | setTaskRespawnInhibit inh n =>
    have on : inh = true := by simpa [DbOp.quietlyEnables] using loud
    simp only [DbOp.apply, TaskDB.setTaskRespawnInhibit]
    cases found : db.findTask n with
    | some u =>
      refine update_hasReady (fun t ready => ?_) noWork
      rw [on] at ready
      obtain ⟨deps, triggered, idle, inhibit, ended⟩ := (ready_iff _).mp ready
      refine (ready_iff t).mpr ⟨deps, triggered, idle, fun respawn => ?_, ended⟩
      cases inhibit respawn
    | none => exact noWork
  | addDepToTask dep n ok =>
    simp only [DbOp.apply, TaskDB.addDepToTask]
    cases found : db.findTask n with
    | some u =>
      dsimp only
      split_ifs
      · exact noWork
      · exact noWork
      · refine update_hasReady (fun t ready => ?_) noWork
        have empty := ready_deps ready
        simp [Task.addDep] at empty
    | none => exact noWork
  | removeDepFromTask dep n =>
    simp only [DbOp.apply, TaskDB.removeDepFromTask] at quiet ⊢
    cases found : db.findTask n with
    | some u => simp [found] at quiet
    | none => exact noWork
  | fulfillDep dep target => cases target <;> simp [DbOp.apply, TaskDB.fulfillDep] at quiet

def quietInGap (e : Step) : Bool :=
  match e.before.threads[0]? with
  | some (Thread.main MainPc.gap) =>
    e.index = 0 || e.before.shared.db.hasReady || !e.move.shared.db.hasReady
  | _ => true

def loudWhileWaiting (e : Step) : Bool :=
  match e.before.shared.waiter, e.move.event with
  | .waiting, .db op => !op.quietlyEnables
  | _, _ => true

def scansThrough (e : Step) : Bool :=
  match e.move.event with
  | .db (.spawnReady mode f) => (e.before.shared.db.spawnReady mode f).ret = 0
  | _ => true

structure Attentive (c : Config) : Prop where
  main : ∃ pc, c.threads[0]? = some (Thread.main pc) ∧
    (pc = .gap → c.shared.db.hasReady = false) ∧ (pc ≠ .waiting → c.shared.waiter = .away)
  single : ∀ j pc, c.threads[j]? = some (Thread.main pc) → j = 0
  asleep : c.shared.waiter = .waiting → c.shared.db.hasReady = false

variable {a : Answers} {t : Thread}

theorem others_waiter {w : World} {t' : Thread} {e : Event} {started : List Thread}
    (moves : Moves w a t e t' started) (other : ∀ pc, t ≠ .main pc) :
    (w.after e).waiter = w.waiter ∧ (w.after e).db = w.db ∨
      ∃ op, e = .db op ∧ (w.after e).waiter =
        if (op.apply w.db).broadcast then w.waiter.broadcast else w.waiter := by
  cases moves with
  | scan | sleep | wake => exact absurd rfl (other _)
  | dispatch next =>
    rcases dispatchMoves_event (next_dispatchMoves next) with ⟨op, rfl⟩ | rfl | ⟨_, rfl⟩ | ⟨_, rfl⟩
    · exact .inr ⟨op, rfl, rfl⟩
    all_goals exact .inl ⟨rfl, rfl⟩
  | call h q k script =>
    rcases call_event q with ⟨op, eq⟩ | eq | ⟨_, _, eq⟩ | ⟨_, _, _, _, eq⟩ <;> rw [eq]
    · exact .inr ⟨op, rfl, rfl⟩
    all_goals exact .inl ⟨rfl, rfl⟩
  | stopCommands | exited => exact .inl ⟨rfl, rfl⟩
  | inhibit => exact .inr ⟨_, rfl, rfl⟩
  | client => exact .inr ⟨_, rfl, rfl⟩

variable {c : Config} {m : Move World Thread Event}

theorem main_step {pc : MainPc} (before : Attentive c)
    (ht : c.threads[0]? = some (Thread.main pc)) (step : system c.shared (.main pc) a = some m)
    (through : scansThrough ⟨c, 0, a, .main pc, m⟩ = true) :
    ∃ pc', m.thread = .main pc' ∧ (pc' = .gap → m.shared.db.hasReady = false) ∧
      (pc' ≠ .waiting → m.shared.waiter = .away) ∧
      (m.shared.waiter = .waiting → m.shared.db.hasReady = false) := by
  obtain ⟨pc₀, ht₀, gap, awake⟩ := before.main
  cases Option.some.inj (ht.symm.trans ht₀)
  obtain ⟨e, w', t', started⟩ := m
  obtain ⟨shared, moves⟩ := system_moves step
  simp only at shared moves
  subst shared
  cases moves with
  | scan =>
    have none : (c.shared.db.spawnReady .start (some a.startOk)).db.hasReady = false :=
      scan_leaves_none (by simpa [scansThrough] using through)
    have away : c.shared.waiter = .away := awake (by decide)
    have quiet : (c.shared.db.spawnReady .start (some a.startOk)).broadcast = false := by
      unfold TaskDB.spawnReady
      split_ifs <;> rfl
    refine ⟨.gap, rfl, fun _ => none, fun _ => ?_, fun _ => none⟩
    simp [World.after, DbOp.apply, quiet, away]
  | sleep =>
    exact ⟨.waiting, rfl, fun at_gap => (by cases at_gap), fun h => absurd rfl h, fun _ => gap rfl⟩
  | wake =>
    exact ⟨.scan, rfl, fun at_gap => (by cases at_gap), fun _ => rfl, fun asleep =>
      (by cases asleep)⟩

theorem others_stay {w : World} {t' : Thread} {e : Event} {started : List Thread}
    (moves : Moves w a t e t' started) (other : ∀ pc, t ≠ .main pc) (pc : MainPc) :
    t' ≠ .main pc := by
  cases moves with
  | scan | sleep | wake => exact absurd rfl (other _)
  | _ => intro eq; cases eq

variable {i : Nat}

theorem single_step (before : Attentive c) (ht : c.threads[i]? = some t)
    (moves : Moves c.shared a t m.event m.thread m.started) {j : Nat} {pc : MainPc}
    (hj : (c.after i m).threads[j]? = some (Thread.main pc)) : j = 0 := by
  rcases after_lookup ht hj with ⟨rfl, eq⟩ | ⟨_, old⟩ | ⟨_, new⟩
  · by_contra ne
    refine others_stay moves (fun pc₀ main => ?_) pc eq.symm
    subst main
    exact ne (before.single j pc₀ ht)
  · exact before.single j pc old
  · obtain ⟨d, eq⟩ := started_dispatch moves (mem_of_getElem? new)
    cases eq

theorem other_step (before : Attentive c) (shared : m.shared = c.shared.after m.event)
    (moves : Moves c.shared a t m.event m.thread m.started) (other : ∀ pc, t ≠ .main pc)
    (loud : loudWhileWaiting ⟨c, i, a, t, m⟩ = true) :
    (c.shared.waiter = .away → m.shared.waiter = .away) ∧
      (m.shared.waiter = .waiting → m.shared.db.hasReady = false) := by
  rw [shared]
  rcases others_waiter moves other with ⟨waiter, db⟩ | ⟨op, event, waiter⟩
  · rw [waiter, db]
    exact ⟨id, before.asleep⟩
  · rw [waiter]
    refine ⟨fun away => by simp [away, Waiter.broadcast], fun asleep => ?_⟩
    cases quiet : (op.apply c.shared.db).broadcast with
    -- a broadcast takes the main thread out of its sleep
    | true => cases was : c.shared.waiter <;> simp [quiet, was, Waiter.broadcast] at asleep
    | false =>
      have was : c.shared.waiter = .waiting := by simpa [quiet] using asleep
      have noisy : op.quietlyEnables = false := by simpa [loudWhileWaiting, was, event] using loud
      rw [event]
      exact enabling_broadcasts op noisy (before.asleep was) quiet

theorem attentive_step (before : Attentive c) (ht : c.threads[i]? = some t)
    (step : system c.shared t a = some m) (quiet : quietInGap ⟨c, i, a, t, m⟩ = true)
    (loud : loudWhileWaiting ⟨c, i, a, t, m⟩ = true)
    (through : scansThrough ⟨c, i, a, t, m⟩ = true) : Attentive (c.after i m) := by
  obtain ⟨shared, moves⟩ := system_moves step
  obtain ⟨pc, main, gap, awake⟩ := before.main
  by_cases hi : i = 0
  · subst hi
    cases Option.some.inj (main.symm.trans ht)
    obtain ⟨pc', thread, gap', awake', asleep⟩ := main_step before main step through
    exact ⟨⟨pc', by rw [after_self ht, thread], gap', awake'⟩,
      fun _ _ => single_step before ht moves, asleep⟩
  · have other : ∀ pc, t ≠ .main pc := by
      rintro pc₀ rfl
      exact hi (before.single i pc₀ ht)
    -- in the gap nobody is woken, so the readiness itself must not change
    obtain ⟨away, asleep⟩ := other_step (i := i) before shared moves other loud
    refine ⟨⟨pc, after_other main (Ne.symm hi) m, ?_, fun ne => away (awake ne)⟩,
      fun _ _ => single_step before ht moves, asleep⟩
    rintro rfl
    simpa [quietInGap, main, hi, gap rfl, Conf.after] using quiet

def chainedBoot : Boot where
  db := { taskSet := [{ name := "net", cmds := [["/bin/net"]] },
    { name := "web", cmds := [["/bin/web"]], deps := [⟨"net", "wait"⟩] }] }
  distinct := by decide
  others := [.children]
  fresh := fresh_children

def netFinishes : List (Nat × Answers) :=
  turns 2 2 ++ [(2, { pid := 5 })] ++ turns 2 4 ++ [(1, { pid := 5 })] ++ turns 2 6

end Crinit
