import Crinit.World
import Crinit.Lib.Script

/-! The runtime commands of `rtimcmd.c` that act on the TaskDB. A handler is a script of calls;
outcomes of fallible steps outside the TaskDB are its arguments. -/
namespace Crinit

inductive Command where
  | addTask | addSeries | enable | disable | stop | kill | restart | notify | status | taskList
  | shutdown | getVer
  deriving DecidableEq, Repr

inductive RtimOp where
  | c (x : Command)
  | r (x : Command)
  deriving DecidableEq, Repr

structure RtimCmd where
  op : RtimOp
  args : List String
  deriving DecidableEq, Repr

def resOk : String := "RES_OK"
def resErr : String := "RES_ERR"

def okAnswer (x : Command) : RtimCmd := ⟨.r x, [resOk]⟩
def errAnswer (x : Command) (msg : String) : RtimCmd := ⟨.r x, [resErr, msg]⟩

inductive Call where
  | setInhibitWait (inh ok : Bool)
  | db (op : DbOp)
  /-- The getters of the TaskDB, which copy from a task they find by name. -/
  | look (n : String) (ok : Bool)
  | spawnStop (t : Task) (ok : Bool)
  | kill (pid : Int) (sig : Signal) (ok : Bool)
  | work

structure Reply where
  ret : Int := 0
  task : Option Task := none

def code (ok : Bool) : Int := if ok then 0 else -1

def Call.reply (w : World) : Call → Reply
  | .setInhibitWait _ ok => ⟨code ok, none⟩
  | .db op => ⟨(op.apply w.db).ret, none⟩
  | .look n ok => if ok then ⟨0, w.db.findTask n⟩ else ⟨-1, none⟩
  | .spawnStop _ ok => ⟨code ok, none⟩
  | .kill _ _ ok => ⟨code ok, none⟩
  | .work => {}

def Call.event : Call → Event
  | .setInhibitWait inh ok => if ok then .inhibitWait inh else .silent
  | .db op => .db op
  | .kill pid sig _ => .kill pid sig
  | .look _ _ | .spawnStop _ _ | .work => .silent

theorem call_event (q : Call) :
    (∃ op, q.event = .db op) ∨ q.event = .silent ∨
      (∃ inh, q = .setInhibitWait inh true ∧ q.event = .inhibitWait inh) ∨
      ∃ pid sig ok, q = .kill pid sig ok ∧ q.event = .kill pid sig := by
  cases q with
  | db op => exact .inl ⟨op, rfl⟩
  | setInhibitWait inh ok =>
    cases ok with
    | true => exact .inr (.inr (.inl ⟨inh, rfl, rfl⟩))
    | false => exact .inr (.inl rfl)
  | kill pid sig ok => exact .inr (.inr (.inr ⟨pid, sig, ok, rfl, rfl⟩))
  | look | spawnStop | work => exact .inr (.inl rfl)

abbrev Handling (A : Type) := Script Call Reply A

def setInhibitWait (inh ok : Bool) : Handling Int := do
  return (← Script.request (.setInhibitWait inh ok)).ret
def dbCall (op : DbOp) : Handling Int := do return (← Script.request (.db op)).ret
def look (n : String) (ok : Bool) : Handling (Option Task) := do
  return (← Script.request (.look n ok)).task
def spawnStop (t : Task) (ok : Bool) : Handling Int := do
  return (← Script.request (.spawnStop t ok)).ret
def sendSignal (pid : Int) (sig : Signal) (ok : Bool) : Handling Int := do
  return (← Script.request (.kill pid sig ok)).ret

def work : Handling Unit := do let _ ← Script.request .work

def machine : Script.Machine Call Reply World where
  reply c w := c.reply w
  after c w := w.after c.event

section
variable {A : Type} (w : World)

@[simp] theorem run_setInhibitWait (inh ok : Bool) (k : Int → Handling A) :
    (setInhibitWait inh ok >>= k).run machine w =
      (k (code ok)).run machine (if ok then { w with waitInhibit := inh } else w) := by
  cases ok <;> rfl

@[simp] theorem run_dbCall (op : DbOp) (k : Int → Handling A) :
    (dbCall op >>= k).run machine w = (k (op.apply w.db).ret).run machine (w.after (.db op)) := rfl

@[simp] theorem run_look (n : String) (ok : Bool) (k : Option Task → Handling A) :
    (look n ok >>= k).run machine w = (k (if ok then w.db.findTask n else none)).run machine w := by
  cases ok <;> rfl

@[simp] theorem run_spawnStop (t : Task) (ok : Bool) (k : Int → Handling A) :
    (spawnStop t ok >>= k).run machine w = (k (code ok)).run machine w := rfl

@[simp] theorem run_sendSignal (pid : Int) (sig : Signal) (ok : Bool) (k : Int → Handling A) :
    (sendSignal pid sig ok >>= k).run machine w = (k (code ok)).run machine w := rfl

@[simp] theorem run_work (k : Unit → Handling A) :
    (work >>= k).run machine w = (k ()).run machine w := rfl

@[simp] theorem code_failed (ok : Bool) : code ok = -1 ↔ ok = false := by cases ok <;> decide

end

section
variable {A G : Type} {d : Script.Discipline Call Reply G} {g : G}

@[simp] theorem follows_setInhibitWait (inh ok : Bool) (k : Int → Handling A) :
    (setInhibitWait inh ok >>= k).Follows d g ↔ d.ok g (.setInhibitWait inh ok) ∧
      ∀ r, (k r.ret).Follows d (d.next g (.setInhibitWait inh ok) r) := Iff.rfl

@[simp] theorem follows_dbCall (op : DbOp) (k : Int → Handling A) :
    (dbCall op >>= k).Follows d g ↔
      d.ok g (.db op) ∧ ∀ r, (k r.ret).Follows d (d.next g (.db op) r) := Iff.rfl

@[simp] theorem follows_look (n : String) (ok : Bool) (k : Option Task → Handling A) :
    (look n ok >>= k).Follows d g ↔
      d.ok g (.look n ok) ∧ ∀ r, (k r.task).Follows d (d.next g (.look n ok) r) := Iff.rfl

@[simp] theorem follows_spawnStop (t : Task) (ok : Bool) (k : Int → Handling A) :
    (spawnStop t ok >>= k).Follows d g ↔
      d.ok g (.spawnStop t ok) ∧ ∀ r, (k r.ret).Follows d (d.next g (.spawnStop t ok) r) := Iff.rfl

@[simp] theorem follows_sendSignal (pid : Int) (sig : Signal) (ok : Bool) (k : Int → Handling A) :
    (sendSignal pid sig ok >>= k).Follows d g ↔
      d.ok g (.kill pid sig ok) ∧ ∀ r, (k r.ret).Follows d (d.next g (.kill pid sig ok) r) :=
        Iff.rfl

@[simp] theorem follows_work (k : Unit → Handling A) :
    (work >>= k).Follows d g ↔ d.ok g .work ∧ ∀ r, (k ()).Follows d (d.next g .work r) := Iff.rfl

end

structure StopEnv where
  inhibitOk : Bool := true
  dupOk : Bool := true
  lockOk : Bool := true
  startOk : Bool := true
  killOk : Bool := true
  releaseOk : Bool := true
  deriving DecidableEq, Repr

def reactivateWait (x : Command) (ok : Bool) : Handling RtimCmd := do
  if (← setInhibitWait false ok) = -1 then
    return errAnswer .stop "Could not reactivate waiting for processes."
  else return okAnswer x

def stopTask (env : StopEnv) (pTask : Task) : Handling RtimCmd := do
  if 0 < pTask.stopCmds.length then
    if !env.lockOk then return errAnswer .stop "Could not prepare to spawn STOP_COMMAND(s)."
    else if (← spawnStop pTask env.startOk) = -1 then
      return errAnswer .stop "Could not spawn STOP_COMMAND(s)."
    else reactivateWait .stop env.releaseOk
  else if pTask.pid ≤ 0 then return errAnswer .stop "No PID registered for task."
  else if (← sendSignal pTask.pid .term env.killOk) = -1 then
    return errAnswer .stop "Could not send SIGTERM to process."
  else reactivateWait .stop env.releaseOk

def execRtimCmdStop (env : StopEnv) (cmd : RtimCmd) : Handling RtimCmd := do
  match cmd.args with
  | [name] =>
    if (← setInhibitWait true env.inhibitOk) = -1 then
      return errAnswer .stop "Could not inhibit waiting for processes."
    else if (← dbCall (.setTaskRespawnInhibit true name)) ≠ 0 then
      return errAnswer .stop "Could not access task to set respawnInhibit."
    else match ← look name env.dupOk with
      | none => return errAnswer .stop "Could not access task."
      | some pTask => stopTask env pTask
  | _ => return errAnswer .stop "Wrong number of arguments."

def killTask (env : StopEnv) (taskPid : Int) : Handling RtimCmd := do
  if taskPid ≤ 0 then return errAnswer .kill "No PID registered for task."
  else if (← sendSignal taskPid .kill env.killOk) = -1 then
    return errAnswer .kill "Could not send SIGKILL to Process."
  else reactivateWait .kill env.releaseOk

/-- The failure to inhibit waiting is answered with R_STOP. -/
def execRtimCmdKill (env : StopEnv) (cmd : RtimCmd) : Handling RtimCmd := do
  match cmd.args with
  | [name] =>
    if (← setInhibitWait true env.inhibitOk) = -1 then
      return errAnswer .stop "Could not inhibit waiting for processes."
    else match ← look name true with
      | none => return errAnswer .kill "Could not access task."
      | some pTask => killTask env pTask.pid
  | _ => return errAnswer .kill "Wrong number of arguments."

def execRtimCmdRestart (now : Timespec) (cmd : RtimCmd) : Handling RtimCmd := do
  match cmd.args with
  | [name] =>
    match ← look name true with
    | none => return errAnswer .restart "Could not get task state from TaskDB."
    | some t =>
      if !anyBit t.state (stateDone ||| stateFailed) then
        return errAnswer .restart "Task is not either DONE or FAILED."
      else if (← dbCall (.setTaskRespawnInhibit false name)) = -1 then
        return errAnswer .restart "Failed to reset the task respawn inhibit flag."
      else if (← dbCall (.setTaskState 0#64 name now)) = -1 then
        return errAnswer .restart "Could not reset task state."
      else return okAnswer .restart
  | _ => return errAnswer .restart "Wrong number of arguments."

def ctlEnable : TaskDep := ⟨"@ctl", "enable"⟩

def execRtimCmdEnable (allocOk : Bool) (cmd : RtimCmd) : Handling RtimCmd := do
  match cmd.args with
  | [name] =>
    if !allocOk then return errAnswer .enable "Memory allocation error."
    else if (← dbCall (.removeDepFromTask ctlEnable name)) = -1 then
      return errAnswer .enable "Could not remove 'enable' dependency from task."
    else return okAnswer .enable
  | _ => return errAnswer .enable "Wrong number of arguments."

def execRtimCmdDisable (allocOk depAllocOk : Bool) (cmd : RtimCmd) : Handling RtimCmd := do
  match cmd.args with
  | [name] =>
    if !allocOk then return errAnswer .disable "Memory allocation error."
    else if (← dbCall (.addDepToTask ctlEnable name depAllocOk)) = -1 then
      return errAnswer .disable "Could not add dependency to task."
    else return okAnswer .disable
  | _ => return errAnswer .disable "Wrong number of arguments."

def isSpace (c : Char) : Bool :=
  c = ' ' || c = '\t' || c = '\n' || c = '\x0b' || c = '\x0c' || c = '\r'

def digitsValue (cs : List Char) : Int :=
  (cs.takeWhile Char.isDigit).foldl (fun v c => v * 10 + (c.toNat - '0'.toNat : Nat)) 0

/-- `strtol(s, NULL, 10)` with a 64 bit `long`. -/
def strtol (cs : List Char) : Int :=
  let clamp (v : Int) : Int :=
    if v < -0x8000000000000000 then -0x8000000000000000
    else if 0x7fffffffffffffff < v then 0x7fffffffffffffff else v
  match cs.dropWhile isSpace with
  | '-' :: rest => clamp (-digitsValue rest)
  | '+' :: rest => clamp (digitsValue rest)
  | rest => clamp (digitsValue rest)

structure NotifyArgs where
  pid : Int := -1
  ready : Int := -1
  stopping : Int := -1
  deriving DecidableEq, Repr

/-- The comparison with a key looks only at as many characters as the argument has before its `=`.
-/
def notifyArg (n : NotifyArgs) (arg : String) : NotifyArgs :=
  let cs := arg.toList
  if '=' ∈ cs then
    let key := cs.takeWhile (· ≠ '=')
    let value := toInt (strtol (cs.drop (key.length + 1)))
    let n := if key.isPrefixOf "MAINPID".toList then { n with pid := value } else n
    let n := if key.isPrefixOf "READY".toList then { n with ready := value } else n
    if key.isPrefixOf "STOPPING".toList then { n with stopping := value } else n
  else n

/-- `crinitTaskDBProvideFeature`: `hookOk` is the outcome of the feature hook for
each entry. -/
def provideFeature (state : TaskState) (hookOk : TaskPrv → Bool) : List TaskPrv → Handling Int
  | [] => return 0
  | p :: rest => do
    if p.stateReq = state then
      if (← dbCall (.fulfillDep ⟨provideDepName, p.name⟩ none)) = -1 then return -1
      else if hookOk p then provideFeature state hookOk rest
      else return -1
    else if hookOk p then provideFeature state hookOk rest
    else return -1

def provideFeatureByTaskName (n : String) (state : TaskState) (hookOk : TaskPrv → Bool) :
    Handling Int := do
  match ← look n true with
  | none => return -1
  | some provider => provideFeature state hookOk provider.prv

def notifyState (base : TaskState) (event stateMsg : String) (now : Timespec)
    (hookOk : TaskPrv → Bool) (name : String) : Handling (Option String) := do
  if (← dbCall (.setTaskState (base ||| stateNotified) name now)) = -1 then return some stateMsg
  else if (← dbCall (.fulfillDep ⟨name, event ++ eventNotifySuffix⟩ none)) = -1 then
    return some "Could not fulfill dependency '%s:%s'."
  else if (← provideFeatureByTaskName name (base ||| stateNotified) hookOk) = -1 then
    return some "Could not set features of spawned task '%s' as provided."
  else return none

structure NotifyEnv where
  readyNow : Timespec := {}
  stoppingNow : Timespec := {}
  hookOk : TaskPrv → Bool := fun _ => true

def notifyStopping (env : NotifyEnv) (n : NotifyArgs) (name : String) : Handling RtimCmd := do
  if 0 < n.stopping then
    match ← notifyState stateDone eventDone "Could not set task state to DONE." env.stoppingNow
        env.hookOk name with
    | some msg => return errAnswer .notify msg
    | none => return okAnswer .notify
  else return okAnswer .notify

def notifyReady (env : NotifyEnv) (n : NotifyArgs) (name : String) : Handling RtimCmd := do
  if 0 < n.ready then
    match ← notifyState stateRunning eventRunning "Could not set task state to RUNNING."
        env.readyNow env.hookOk name with
    | some msg => return errAnswer .notify msg
    | none => notifyStopping env n name
  else notifyStopping env n name

def execRtimCmdNotify (env : NotifyEnv) (cmd : RtimCmd) : Handling RtimCmd := do
  match cmd.args with
  | name :: arg :: rest =>
    let n := (arg :: rest).foldl notifyArg {}
    if 0 < n.pid then
      if (← dbCall (.setTaskPID n.pid name)) = -1 then
        return errAnswer .notify "Could not set main PID of task."
      else notifyReady env n name
    else notifyReady env n name
  | _ => return errAnswer .notify "Wrong number of arguments."

def isAbsPath (path : String) : Bool := path.toList.head? = some '/'

structure SeriesFile where
  fname : String
  allocOk : Bool := true
  parseOk : Bool := true
  create : Option NewTask
  insert : InsertEnv := {}

structure SeriesEnv where
  borrowOk : Bool := true
  remitOk : Bool := true
  loadSeriesOk : Bool := true
  tasks : Option (List SeriesFile)

def abortSeries (msg : String) : Handling RtimCmd := do
  let _ ← dbCall (.setSpawnInhibit false)
  return errAnswer .addSeries msg

def SeriesFile.load (f : SeriesFile) : Except String NewTask :=
  if !isAbsPath f.fname && !f.allocOk then .error "Memory allocation error."
  else if !f.parseOk then .error "Could not parse config file."
  else match f.create with
    | none => .error "Could not create task from config file."
    | some t => .ok t

/-- A refused insertion is answered with R_ADDTASK and leaves the inhibition in place. -/
def addSeriesLoop (overwriteTasks : Bool) : List SeriesFile → Handling RtimCmd
  | [] => do
    if (← dbCall (.setSpawnInhibit false)) = -1 then
      return errAnswer .addSeries "Could not re-enable spawning of processes."
    else return okAnswer .addSeries
  | f :: rest => do
    work
    match f.load with
    | .error msg => abortSeries msg
    | .ok t =>
      -- unlike the exits above, this one does not call crinitTaskDBSetSpawnInhibit
      if (← dbCall (.insert t overwriteTasks f.insert)) = -1 then
        return errAnswer .addTask "Could not insert new task into TaskDB."
      else addSeriesLoop overwriteTasks rest

/-- The error exits here leave the inhibition in place. -/
def addSeriesTasks (env : SeriesEnv) (overwrite : String) : Handling RtimCmd := do
  work
  if !env.borrowOk then
    return errAnswer .addSeries "Could not get exclusive access to global option storage."
  else if !env.remitOk then
    return errAnswer .addSeries "Could not release exclusive access to global option storage."
  else if !env.loadSeriesOk then return errAnswer .addSeries "Could not load series file."
  else match env.tasks with
    | none => return errAnswer .addSeries "Could not load crinit tasks."
    | some files => addSeriesLoop (overwrite = "true") files

def execRtimCmdAddSeries (env : SeriesEnv) (cmd : RtimCmd) : Handling RtimCmd := do
  match cmd.args with
  | [path, overwrite] =>
    if !isAbsPath path then
      return errAnswer .addSeries "Path to series file must be absolute."
    else if (← dbCall (.setSpawnInhibit true)) = -1 then
      return errAnswer .addSeries "Could not inhibit process spawning to load new series file."
    else addSeriesTasks env overwrite
  | _ => return errAnswer .addSeries "Wrong number of arguments."

end Crinit
