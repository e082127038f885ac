import Crinit.Lib.Locks
import Crinit.TaskDB

/-! The timer thread of `timerdb.c`, which holds `crinitTimerPool.lock` from `poll` to the end of an
iteration. -/
namespace Crinit

open List Locks

inductive Mutex where
  | timerPool | taskDB
  deriving DecidableEq, Repr

structure Timer where
  name : String
  refs : Nat
  next : Timespec := {}
  deriving DecidableEq, Repr

structure TimerSlot where
  timer : Timer
  fd : Int
  revents : BitVec 16 := 0#16
  deriving DecidableEq, Repr

def pollIn : BitVec 16 := 1#16

structure TimerDB where
  event : TimerSlot := { timer := { name := "", refs := 0 }, fd := 0 }
  timers : List TimerSlot := []
  updates : Nat := 0
  deriving DecidableEq, Repr

def TimerDB.slots (p : TimerDB) : List TimerSlot := p.event :: p.timers

structure TimerWorld where
  pool : TimerDB
  db : TaskDB
  deriving DecidableEq, Repr

/-- One turn of the loop of `crinitTimerDBRemoveTimer`. The last slot takes the
place of one without references, and the loop goes on behind it. -/
def removeTimerAt (timerStr : String) (p : TimerDB) (i : Nat) : TimerDB :=
  match p.timers[i]? with
  | none => p
  | some s =>
    if s.timer.name = timerStr then
      let s := { s with timer := { s.timer with refs := s.timer.refs - 1 } }
      let timers :=
        if s.timer.refs = 0 then
          if i < p.timers.length - 1 then (p.timers.set i (p.timers.getLastD s)).dropLast
          else p.timers.dropLast
        else p.timers.set i s
      { p with timers := timers, updates := p.updates + 1 }
    else p

def removeTimerLoop (timerStr : String) : Nat → Nat → TimerDB → TimerDB
  | 0, _, p => p
  | turns + 1, i, p =>
    if i < p.timers.length then removeTimerLoop timerStr turns (i + 1) (removeTimerAt timerStr p i)
    else p

def removeTimer (timerStr : String) : Locked Mutex TimerWorld Unit :=
  critical .timerPool (update fun w =>
    { w with pool := removeTimerLoop timerStr w.pool.timers.length 0 w.pool })

def removeLoopCalls (dep : TaskDep) : Nat → Nat → List TaskDep →
    Locked Mutex TimerWorld (List TaskDep)
  | 0, _, deps => pure deps
  | turns + 1, j, deps => do
    if j < deps.length then
      if deps[j]? = some dep ∧ dep.name = timerDepName then removeTimer dep.event
      removeLoopCalls dep turns (j + 1) (removeAt dep deps j)
    else pure deps

def removeDepFromTaskStructCalls (dep : TaskDep) (t : Task) : Locked Mutex TimerWorld Task := do
  let deps ← removeLoopCalls dep t.deps.length 0 t.deps
  return { t with deps := deps, triggered := t.triggered || t.trig.contains dep }

def fulfillDepCalls (dep : TaskDep) : Locked Mutex TimerWorld Unit :=
  critical .taskDB do
    let w ← access
    let taskSet ← w.db.taskSet.mapM (removeDepFromTaskStructCalls dep)
    update fun w => { w with db := { w.db with taskSet := taskSet } }

def TimerDB.reset (nextTime : Timer → Timespec) (p : TimerDB) (i : Nat) : TimerDB :=
  let reset (s : TimerSlot) := { s with timer := { s.timer with next := nextTime s.timer } }
  match i with
  | 0 => { p with event := reset p.event }
  | i + 1 => { p with timers := p.timers.modify i reset }

def timerDep (s : TimerSlot) : TaskDep := ⟨timerDepName, s.timer.name⟩

/-- The loop over the slots. It starts at slot 0, which is no timer. -/
def runSlots (nextTime : Timer → Timespec) : Nat → Nat → Locked Mutex TimerWorld Unit
  | 0, _ => pure ()
  | turns + 1, i => do
    let w ← access
    match w.pool.slots[i]? with
    | none => pure ()
    | some s =>
      if s.revents = pollIn then
        fulfillDepCalls (timerDep s)
        update fun w => { w with pool := w.pool.reset nextTime i }
      runSlots nextTime turns (i + 1)

def serveSlots (nextTime : Timer → Timespec) : Locked Mutex TimerWorld Unit := do
  let w ← access
  if w.pool.event.revents &&& pollIn ≠ 0#16 then
    update fun w => { w with pool := { w.pool with updates := 0 } }
  else runSlots nextTime w.pool.slots.length 0

/-- One turn of `crinitTimerDBRunPool`, from the answer of `poll` on. The result is
whether the thread goes on. -/
def runPool (ready : Int) (nextTime : Timer → Timespec) : Locked Mutex TimerWorld Bool := do
  if ready = -1 then return false
  else
    critical .timerPool (serveSlots nextTime)
    return true

theorem removeAt_miss {dep : TaskDep} {deps : List TaskDep} {j : Nat} (miss : deps[j]? ≠ some dep) :
    removeAt dep deps j = deps := if_neg miss

theorem removeDeps_miss {dep : TaskDep} {deps : List TaskDep} (absent : dep ∉ deps) :
    removeDeps dep deps = deps := by
  have loop (turns j : Nat) : removeLoop dep turns j deps = deps := by
    induction turns generalizing j with
    | zero => rfl
    | succ turns ih =>
      unfold removeLoop
      split_ifs
      · rw [removeAt_miss (fun hit => absent (mem_of_getElem? hit)), ih]
      · rfl
  exact loop _ _

section
variable {dep : TaskDep} {s : Holding Mutex TimerWorld}

theorem removeLoopCalls_run (timer : dep.name = timerDepName) (locked : .timerPool ∈ s.held)
    (turns j : Nat) (deps : List TaskDep) (enough : deps.length ≤ j + turns) :
    (removeLoopCalls dep turns j deps).run s =
      if dep ∈ deps.drop j then none else some (removeLoop dep turns j deps, s) := by
  induction turns generalizing j with
  | zero =>
    rw [drop_eq_nil_of_le (by simpa using enough)]
    rfl
  | succ turns ih =>
    unfold removeLoopCalls removeLoop
    by_cases hj : j < deps.length
    · simp only [if_pos hj, drop_eq_getElem_cons hj, mem_cons]
      by_cases hit : deps[j]? = some dep
      -- the first match is met before any entry has moved
      · have here : dep = deps[j] := by
          rw [getElem?_eq_getElem hj] at hit
          exact (Option.some.inj hit).symm
        simp only [hit, timer, and_self, if_true, StateT.run_bind, removeTimer,
          critical_held locked,
          if_pos (Or.inl here : dep = deps[j] ∨ dep ∈ deps.drop (j + 1))]
        rfl
      · have other : dep ≠ deps[j] := fun eq => hit (by rw [getElem?_eq_getElem hj, ← eq])
        simp only [hit, false_and, if_false, removeAt_miss hit, other, false_or]
        exact ih (j + 1) (by omega)
    · rw [if_neg hj, if_neg hj, drop_eq_nil_of_le (by omega)]
      rfl

theorem removeDepFromTaskStructCalls_run (timer : dep.name = timerDepName)
    (locked : .timerPool ∈ s.held) (t : Task) :
    (removeDepFromTaskStructCalls dep t).run s =
      if t.deps.contains dep then none else some (removeDepFromTaskStruct dep t, s) := by
  have loop := removeLoopCalls_run timer locked t.deps.length 0 t.deps (by omega)
  rw [drop_zero] at loop
  simp only [removeDepFromTaskStructCalls, StateT.run_bind, loop, contains_eq_mem,
    decide_eq_true_eq]
  split_ifs
  · rfl
  · simp [removeDepFromTaskStruct, removeDeps]

def TaskDB.dependsOn (db : TaskDB) (dep : TaskDep) : Bool :=
  db.taskSet.any fun t => t.deps.contains dep

theorem fulfillDepCalls_run (timer : dep.name = timerDepName) (locked : .timerPool ∈ s.held)
    (free : .taskDB ∉ s.held) :
    (fulfillDepCalls dep).run s =
      if s.state.db.dependsOn dep then none
      else some ((), ⟨s.held, { s.state with db := (s.state.db.fulfillDep dep none).db }⟩) := by
  have inside : Mutex.timerPool ∈ Mutex.taskDB :: s.held := mem_cons_of_mem _ locked
  rw [fulfillDepCalls, critical_free free]
  simp only [StateT.run_bind, access_run, Option.bind_eq_bind, Option.bind_some,
    mapM_run (removeDepFromTaskStructCalls_run timer
      (s := ⟨.taskDB :: s.held, s.state⟩) inside) s.state.db.taskSet]
  unfold TaskDB.dependsOn
  split_ifs
  · rfl
  · simp [TaskDB.fulfillDep]

end

theorem fulfillDep_dependsOn {db : TaskDB} {dep : TaskDep} (absent : db.dependsOn dep = false)
    (x : TaskDep) : (db.fulfillDep dep none).db.dependsOn x = db.dependsOn x := by
  simp only [TaskDB.dependsOn, any_eq_false, contains_eq_mem, decide_eq_true_eq] at absent
  have kept : db.taskSet.map ((fun t => t.deps) ∘ removeDepFromTaskStruct dep) =
      db.taskSet.map fun t => t.deps :=
    map_congr_left fun t mem => removeDeps_miss (absent t mem)
  have any (ts : List Task) : (ts.any fun t => t.deps.contains x) =
      (ts.map fun t => t.deps).any fun deps => deps.contains x := by
    rw [any_map]
    rfl
  simp only [TaskDB.dependsOn, TaskDB.fulfillDep, any, map_map, kept]

def TimerWorld.outstanding (w : TimerWorld) (s : TimerSlot) : Bool :=
  s.revents = pollIn && w.db.dependsOn (timerDep s)

theorem reset_drop (nextTime : Timer → Timespec) (p : TimerDB) (i : Nat) :
    (p.reset nextTime i).slots.drop (i + 1) = p.slots.drop (i + 1) := by
  cases i with
  | zero => rfl
  | succ i =>
    refine ext_getElem? fun k => ?_
    have ne : i ≠ i + 1 + k := by omega
    simp [TimerDB.reset, TimerDB.slots, ne]

theorem reset_length (nextTime : Timer → Timespec) (p : TimerDB) (i : Nat) :
    (p.reset nextTime i).slots.length = p.slots.length := by
  cases i <;> simp [TimerDB.reset, TimerDB.slots]

/-- The loop gets through when no fired slot is outstanding: one that is not leaves the
dependencies of all tasks as they are. -/
theorem runSlots_isSome (nextTime : Timer → Timespec) (turns i : Nat) {held : List Mutex}
    (locked : .timerPool ∈ held) (free : .taskDB ∉ held) (w : TimerWorld)
    (enough : w.pool.slots.length ≤ i + turns) :
    ((runSlots nextTime turns i).run ⟨held, w⟩).isSome =
      !(w.pool.slots.drop i).any w.outstanding := by
  induction turns generalizing i w with
  | zero =>
    rw [drop_eq_nil_of_le (by simpa using enough)]
    rfl
  | succ turns ih =>
    unfold runSlots
    simp only [StateT.run_bind, access_run, Option.bind_eq_bind, Option.bind_some]
    by_cases hi : i < w.pool.slots.length
    · rw [getElem?_eq_getElem hi, drop_eq_getElem_cons hi]
      generalize w.pool.slots[i] = slot
      dsimp only
      by_cases fired : slot.revents = pollIn
      · have fulfil := fulfillDepCalls_run (s := ⟨held, w⟩)
          (show (timerDep slot).name = timerDepName from rfl) locked free
        simp only [fired, if_true, StateT.run_bind, fulfil, any_cons]
        cases waits : w.db.dependsOn (timerDep slot) with
        | true => simp [TimerWorld.outstanding, fired, waits]
        | false =>
          let w' : TimerWorld := ⟨w.pool.reset nextTime i,
            (w.db.fulfillDep (timerDep slot) none).db⟩
          have rest := ih (i + 1) w' (by
            simp only [w', reset_length]
            omega)
          have same : w'.outstanding = w.outstanding := by
            funext s
            simp only [w', TimerWorld.outstanding, fulfillDep_dependsOn waits]
          rw [same, reset_drop] at rest
          simpa [TimerWorld.outstanding, fired, waits] using rest
      · have rest := ih (i + 1) w (by omega)
        simpa [fired, TimerWorld.outstanding] using rest
    · rw [getElem?_eq_none (by omega), drop_eq_nil_of_le (by omega)]
      rfl

theorem serveSlots_isSome (nextTime : Timer → Timespec) (w : TimerWorld) :
    ((serveSlots nextTime).run ⟨[.timerPool], w⟩).isSome =
      (w.pool.event.revents &&& pollIn ≠ 0#16 || !w.pool.timers.any w.outstanding) := by
  simp only [serveSlots, StateT.run_bind, access_run, Option.bind_eq_bind, Option.bind_some]
  by_cases update : w.pool.event.revents &&& pollIn = 0#16
  · -- slot 0 cannot fire in the loop
    have quiet : w.pool.event.revents ≠ pollIn := by
      intro eq
      rw [eq] at update
      exact absurd update (by decide)
    have slots := runSlots_isSome nextTime w.pool.slots.length 0 (List.mem_singleton.mpr rfl)
      (by decide) w (by omega)
    simpa [update, TimerDB.slots, TimerWorld.outstanding, quiet] using slots
  · simp [update]

/-- An iteration of the timer thread gets through exactly when `poll` fails, the eventfd is
readable, or no task still has the dependency of a fired timer. -/
theorem runPool_completes_iff (ready : Int) (nextTime : Timer → Timespec) (w : TimerWorld) :
    ((runPool ready nextTime).run ⟨[], w⟩).isSome = true ↔
      ready = -1 ∨ w.pool.event.revents &&& pollIn ≠ 0#16 ∨
        ∀ s ∈ w.pool.timers, s.revents = pollIn → ∀ t ∈ w.db.taskSet, timerDep s ∉ t.deps := by
  unfold runPool
  by_cases failed : ready = -1
  · simp [failed]
  · have free : Mutex.timerPool ∉ (⟨[], w⟩ : Holding Mutex TimerWorld).held := not_mem_nil
    simp only [failed, if_false, bind_pure_comp, StateT.run_map, Option.map_eq_map,
      Option.isSome_map, critical_isSome free, serveSlots_isSome, Bool.or_eq_true,
      decide_eq_true_eq, Bool.not_eq_true', any_eq_false, TimerWorld.outstanding,
      TaskDB.dependsOn, Bool.and_eq_true, not_and, any_eq_true, contains_eq_mem,
      not_exists, false_or]

def dailyFired : TimerWorld where
  pool := { timers := [{ timer := { name := "daily", refs := 1 }, fd := 4, revents := pollIn }] }
  db := { taskSet :=
    [{ name := "backup", cmds := [["/bin/backup"]], deps := [⟨"@timer", "daily"⟩] }] }

/-- The timer thread fulfils the dependency and with it removes the timer, whose
pool it has locked. -/
theorem fired_timer_relocks_pool :
    ((runPool 1 Timer.next).run ⟨[], dailyFired⟩).isSome = false := by
  decide

end Crinit
