import Crinit.World

/-! The dispatch thread of `procdip.c`: `crinitDispatchThreadFunc` with `crinitHandleCommands`
inlined, cut where it reads or writes something other threads can see. -/
namespace Crinit

inductive Stage where
  | running | done | failed
  deriving DecidableEq, Repr

def Stage.state : Stage → TaskState
  | .running => stateRunning
  | .done => stateDone
  | .failed => stateFailed

def Stage.event : Stage → String
  | .running => eventRunning
  | .done => eventDone
  | .failed => eventFailed

inductive DispatchPc where
  /-- `pthread_mutex_lock` and `crinitTaskDup`. -/
  | lock
  /-- Environment, mode, launcher command and cgroup. -/
  | setup
  | spawn (i : Nat)
  | registerPid (i : Nat)
  | waitExit (i : Nat)
  | clearPid (i : Nat)
  | block (i : Nat)
  | reap (i : Nat)
  | setState (g : Stage)
  | fulfil (g : Stage)
  | provide (g : Stage) (rest : List TaskPrv)
  | failClearPid
  | failBlock
  | failReap
  | exit
  | finished
  deriving DecidableEq, Repr

structure Dispatch where
  mode : Mode
  /-- `crinitDispThrArgs_t::t` points into the task set of this size, or (`none`)
  to a copy of its own. -/
  slot : Option Nat
  task : Task
  pid : Int := -1
  pc : DispatchPc := .lock
  deriving DecidableEq, Repr

structure Answers where
  ok : Bool := true
  pid : Int := 0
  now : Timespec := {}
  startOk : Task → Mode → Bool := fun _ _ => true
  op : DbOp := .setSpawnInhibit false

def Dispatch.cmds (d : Dispatch) : List (List String) :=
  match d.mode with
  | .start => d.task.cmds
  | .stop => d.task.stopCmds

def Dispatch.goto (d : Dispatch) (pc : DispatchPc) : Dispatch := { d with pc := pc }

def Dispatch.chainAt (d : Dispatch) (i : Nat) : DispatchPc :=
  if i < d.cmds.length then .spawn i else .setState .done

def Stage.provided : Stage → DispatchPc
  | .running => .waitExit 0
  | .done | .failed => .exit

/-- When the set was reallocated since the thread was created, or the copy fails, the code goes on
with an invalid pointer: there is no step. -/
def Dispatch.dup (w : World) (d : Dispatch) (ok : Bool) : Option Task :=
  if !ok then none
  else match d.slot with
    | none => some d.task
    | some size => if size = w.db.taskSetSize then w.db.findTask d.task.name else none

def Dispatch.next (w : World) (d : Dispatch) (a : Answers) : Option (Event × Dispatch) :=
  match d.pc with
  | .lock => (d.dup w a.ok).map fun t => (.silent, { d with task := t, pc := .setup })
  | .setup => some (.silent, d.goto (if a.ok then d.chainAt 0 else .setState .failed))
  | .spawn i =>
    if !a.ok then some (.silent, d.goto (.setState .failed))
    else if 0 < a.pid ∧ ¬ w.unreaped a.pid then
      some (.fork a.pid, { d with pid := a.pid, pc := .registerPid i })
    else none
  | .registerPid i =>
    let op := DbOp.setTaskPID d.pid d.task.name
    -- RUNNING is announced behind the first command only
    some (.db op, d.goto (
      if (op.apply w.db).ret = -1 then .setState .failed
      else if i = 0 then .setState .running else .waitExit i))
  | .waitExit i =>
    -- waitid with WNOWAIT: blocks on a running child and fails without one
    if d.pid ∈ w.running then none
    else some (.silent, d.goto (
      if d.pid ∈ w.zombies ∧ a.ok then .clearPid i else .setState .failed))
  | .clearPid i => some (.db (.setTaskPID (-1) d.task.name), d.goto (.block i))
  | .block i => if w.waitInhibit then none else some (.silent, d.goto (.reap i))
  | .reap i =>
    if d.pid ∈ w.running then none
    else some (.reaped d.pid, d.goto (d.chainAt (i + 1)))
  | .setState g =>
    let op := DbOp.setTaskState g.state d.task.name a.now
    some (.db op, d.goto (match g with
      | .running => if (op.apply w.db).ret = -1 then .setState .failed else .fulfil .running
      | .done => .fulfil .done
      | .failed => .failClearPid))
  | .fulfil g =>
    some (.db (.fulfillDep ⟨d.task.name, g.event⟩ none), d.goto (.provide g d.task.prv))
  | .provide g [] => some (.silent, d.goto g.provided)
  | .provide g (p :: rest) =>
    -- a failing feature hook ends the loop
    let pc := if a.ok then .provide g rest else g.provided
    if p.stateReq = g.state then
      some (.db (.fulfillDep ⟨provideDepName, p.name⟩ none), d.goto pc)
    else some (.silent, d.goto pc)
  | .failClearPid =>
    -- FAILED is stored by now, so the task may already be respawning
    some (.db (.setTaskPID (-1) d.task.name),
      d.goto (if 0 < d.pid then .failBlock else .fulfil .failed))
  | .failBlock => if w.waitInhibit then none else some (.silent, d.goto .failReap)
  | .failReap =>
    if d.pid ∈ w.running then none else some (.reaped d.pid, d.goto (.fulfil .failed))
  | .exit =>
    -- by name: nothing tells whether the task has been started again
    if d.task.triggerRearm then some (.db (.rearmTrigger d.task.name), d.goto .finished)
    else some (.silent, d.goto .finished)
  | .finished => none

def DispatchPc.inChain : DispatchPc → Bool
  | .lock | .setup | .spawn _ | .registerPid _ | .waitExit _ | .clearPid _ | .block _ | .reap _ =>
    true
  | .setState g | .fulfil g | .provide g _ => g = .running
  | _ => false

def Dispatch.executing (d : Dispatch) : Bool := d.mode = .start && d.pc.inChain

variable {w : World} {d : Dispatch}

theorem dup_name {ok : Bool} {t : Task} (h : d.dup w ok = some t) : t.name = d.task.name := by
  unfold Dispatch.dup at h
  split_ifs at h
  split at h
  · rw [← Option.some.inj h]
  · split_ifs at h
    exact findTask_name h

theorem dup_source {ok : Bool} {t : Task} (h : d.dup w ok = some t) :
    t = d.task ∨ w.db.findTask d.task.name = some t := by
  unfold Dispatch.dup at h
  split_ifs at h
  split at h
  · exact .inl (Option.some.inj h).symm
  · split_ifs at h
    exact .inr h

def Stage.stored : Stage → DispatchPc
  | .running => .fulfil .running
  | .done => .fulfil .done
  | .failed => .failClearPid

/-- The edges of the thread on which it keeps its task and its PID variable. -/
inductive Goes (w : World) (d : Dispatch) : DispatchPc → Event → DispatchPc → Prop where
  | setup : Goes w d .setup .silent (d.chainAt 0)
  | setupFailed : Goes w d .setup .silent (.setState .failed)
  | spawnFailed (i : Nat) : Goes w d (.spawn i) .silent (.setState .failed)
  | registered (i : Nat)
      (known : ((DbOp.setTaskPID d.pid d.task.name).apply w.db).ret ≠ -1) :
      Goes w d (.registerPid i) (.db (.setTaskPID d.pid d.task.name))
        (if i = 0 then .setState .running else .waitExit i)
  | registerFailed (i : Nat) :
      Goes w d (.registerPid i) (.db (.setTaskPID d.pid d.task.name)) (.setState .failed)
  | exited (i : Nat) (ended : d.pid ∉ w.running) : Goes w d (.waitExit i) .silent (.clearPid i)
  | waitFailed (i : Nat) (ended : d.pid ∉ w.running) :
      Goes w d (.waitExit i) .silent (.setState .failed)
  | cleared (i : Nat) : Goes w d (.clearPid i) (.db (.setTaskPID (-1) d.task.name)) (.block i)
  | passed (i : Nat) (free : w.waitInhibit = false) : Goes w d (.block i) .silent (.reap i)
  | reaped (i : Nat) : Goes w d (.reap i) (.reaped d.pid) (d.chainAt (i + 1))
  | stored (g : Stage) (now : Timespec) :
      Goes w d (.setState g) (.db (.setTaskState g.state d.task.name now)) g.stored
  | runningFailed (now : Timespec) :
      Goes w d (.setState .running) (.db (.setTaskState stateRunning d.task.name now))
        (.setState .failed)
  | fulfilled (g : Stage) :
      Goes w d (.fulfil g) (.db (.fulfillDep ⟨d.task.name, g.event⟩ none)) (.provide g d.task.prv)
  | provided (g : Stage) (rest : List TaskPrv) (e : Event) (pc : DispatchPc)
      (feature : e = .silent ∨ ∃ p, e = .db (.fulfillDep ⟨provideDepName, p⟩ none))
      (target : pc = g.provided ∨ ∃ rest, pc = .provide g rest) : Goes w d (.provide g rest) e pc
  | failCleared :
      Goes w d .failClearPid (.db (.setTaskPID (-1) d.task.name))
        (if 0 < d.pid then .failBlock else .fulfil .failed)
  | failPassed (free : w.waitInhibit = false) : Goes w d .failBlock .silent .failReap
  | failReaped : Goes w d .failReap (.reaped d.pid) (.fulfil .failed)
  | rearmed : Goes w d .exit (.db (.rearmTrigger d.task.name)) .finished
  | left : Goes w d .exit .silent .finished

inductive DispatchMoves (w : World) (d : Dispatch) : Event → Dispatch → Prop where
  | copied (t : Task) (here : d.pc = .lock) (same : t.name = d.task.name) :
      DispatchMoves w d .silent { d with task := t, pc := .setup }
  | forked (i : Nat) (pid : Int) (here : d.pc = .spawn i) (pos : 0 < pid)
      (new : ¬ w.unreaped pid) :
      DispatchMoves w d (.fork pid) { d with pid := pid, pc := .registerPid i }
  | goes {e : Event} {pc : DispatchPc} (edge : Goes w d d.pc e pc) : DispatchMoves w d e (d.goto pc)

variable {d' : Dispatch} {a : Answers} {e : Event}

theorem next_dispatchMoves (h : d.next w a = some (e, d')) : DispatchMoves w d e d' := by
  unfold Dispatch.next at h
  have goes {e' : Event} {pc pc' : DispatchPc} (here : d.pc = pc') (edge : Goes w d pc' e' pc)
      (out : some (e', d.goto pc) = some (e, d')) : DispatchMoves w d e d' := by
    cases out
    exact .goes (here ▸ edge)
  split at h
  · rename_i here
    obtain ⟨t, dup, out⟩ := Option.map_eq_some_iff.mp h
    cases out
    exact .copied t here (dup_name dup)
  · rename_i here
    split_ifs at h
    · exact goes here .setup h
    · exact goes here .setupFailed h
  · rename_i i here
    split_ifs at h with failed new
    · exact goes here (.spawnFailed i) h
    · cases h
      exact .forked i a.pid here new.1 new.2
  · rename_i i here
    by_cases known : ((DbOp.setTaskPID d.pid d.task.name).apply w.db).ret = -1
    · simp only [known, if_true] at h
      exact goes here (.registerFailed i) h
    · simp only [known, if_false] at h
      exact goes here (.registered i known) h
  · rename_i i here
    split_ifs at h with running ended
    · exact goes here (.exited i running) h
    · exact goes here (.waitFailed i running) h
  · rename_i i here
    exact goes here (.cleared i) h
  · rename_i i here
    split_ifs at h with free
    exact goes here (.passed i (by simpa using free)) h
  · rename_i i here
    split_ifs at h
    exact goes here (.reaped i) h
  · rename_i g here
    cases g with
    | running =>
      by_cases known : ((DbOp.setTaskState stateRunning d.task.name a.now).apply w.db).ret = -1
      · simp only [Stage.state, known, if_true] at h
        exact goes here (.runningFailed a.now) h
      · simp only [Stage.state, known, if_false] at h
        exact goes here (.stored .running a.now) h
    | done => exact goes here (.stored .done a.now) h
    | failed => exact goes here (.stored .failed a.now) h
  · rename_i g here
    exact goes here (.fulfilled g) h
  · rename_i g here
    exact goes here (.provided g [] _ _ (.inl rfl) (.inl rfl)) h
  · rename_i g p rest here
    split_ifs at h
    · exact goes here (.provided g (p :: rest) _ _ (.inr ⟨p.name, rfl⟩) (.inr ⟨rest, rfl⟩)) h
    · exact goes here (.provided g (p :: rest) _ _ (.inl rfl) (.inr ⟨rest, rfl⟩)) h
    · exact goes here (.provided g (p :: rest) _ _ (.inr ⟨p.name, rfl⟩) (.inl rfl)) h
    · exact goes here (.provided g (p :: rest) _ _ (.inl rfl) (.inl rfl)) h
  · rename_i here
    exact goes here .failCleared h
  · rename_i here
    split_ifs at h with free
    exact goes here (.failPassed (by simpa using free)) h
  · rename_i here
    split_ifs at h
    exact goes here .failReaped h
  · rename_i here
    split_ifs at h
    · exact goes here .rearmed h
    · exact goes here .left h
  · cases h

theorem dispatchMoves_name (moves : DispatchMoves w d e d') :
    d'.task.name = d.task.name ∧ d'.mode = d.mode := by
  cases moves with
  | copied t here same => exact ⟨same, rfl⟩
  | forked => exact ⟨rfl, rfl⟩
  | goes => exact ⟨rfl, rfl⟩

theorem dispatchMoves_event (moves : DispatchMoves w d e d') :
    (∃ op, e = .db op) ∨ e = .silent ∨ (∃ pid, e = .fork pid) ∨ ∃ pid, e = .reaped pid := by
  cases moves with
  | copied => exact .inr (.inl rfl)
  | forked i pid => exact .inr (.inr (.inl ⟨pid, rfl⟩))
  | goes edge =>
    generalize d.pc = pc at edge
    cases edge with
    | reaped | failReaped => exact .inr (.inr (.inr ⟨_, rfl⟩))
    | provided g rest e pc feature target =>
      rcases feature with rfl | ⟨_, rfl⟩
      · exact .inr (.inl rfl)
      · exact .inl ⟨_, rfl⟩
    | _ => first | exact .inl ⟨_, rfl⟩ | exact .inr (.inl rfl)

theorem dispatchMoves_db {op : DbOp} (moves : DispatchMoves w d (.db op) d') :
    (∃ pid, op = .setTaskPID pid d.task.name) ∨
    (∃ g now, d.pc = .setState g ∧ op = .setTaskState g.state d.task.name now) ∨
    (∃ dep, op = .fulfillDep dep none) ∨ (d.pc = .exit ∧ op = .rearmTrigger d.task.name) := by
  generalize event : Event.db op = e at moves
  cases moves with
  | copied | forked => cases event
  | goes edge =>
    generalize d.pc = pc at edge
    cases edge with
    | registered | registerFailed | cleared | failCleared =>
      cases event
      exact .inl ⟨_, rfl⟩
    | stored g now =>
      cases event
      exact .inr (.inl ⟨g, now, rfl, rfl⟩)
    | runningFailed now =>
      cases event
      exact .inr (.inl ⟨.running, now, rfl, rfl⟩)
    | fulfilled g =>
      cases event
      exact .inr (.inr (.inl ⟨_, rfl⟩))
    | provided g rest e pc feature =>
      rcases feature with rfl | ⟨p, rfl⟩ <;> cases event
      exact .inr (.inr (.inl ⟨_, rfl⟩))
    | rearmed =>
      cases event
      exact .inr (.inr (.inr ⟨rfl, rfl⟩))
    | _ => cases event

theorem next_task (next : d.next w a = some (e, d')) :
    d'.task = d.task ∨ w.db.findTask d.task.name = some d'.task := by
  cases next_dispatchMoves next with
  | copied t here same =>
    simp only [Dispatch.next, here, Option.map_eq_some_iff] at next
    obtain ⟨u, dup, out⟩ := next
    cases out
    exact dup_source dup
  | forked | goes => exact .inl rfl

/-- A thread re-arms its own task, and only when its copy says TRIGGER_REARM. -/
theorem next_rearms {n : String} (next : d.next w a = some (.db (.rearmTrigger n), d')) :
    d.task.name = n ∧ d.task.triggerRearm = true := by
  rcases dispatchMoves_db (next_dispatchMoves next) with ⟨_, call⟩ | ⟨_, _, _, call⟩ | ⟨_, call⟩ |
    ⟨here, call⟩ <;> cases call
  refine ⟨rfl, ?_⟩
  simp only [Dispatch.next, here] at next
  split_ifs at next with rearm
  · exact rearm
  · cases next

end Crinit
