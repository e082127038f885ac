import Crinit.Task

/-! The operations of `taskdb.c`, each under `crinitTaskDB_t::lock` and so one atomic function on
the TaskDB. They answer with their return code and whether they broadcast on
`crinitTaskDB_t::changed`. -/
namespace Crinit

inductive Mode where
  | start | stop
  deriving DecidableEq, Repr

def Task.setState (s : TaskState) (t : Task) : Task := { t with state := s }
def Task.setPid (pid : Int) (t : Task) : Task := { t with pid := pid }
def Task.setInhibitRespawn (inhibit : Bool) (t : Task) : Task :=
  { t with inhibitRespawn := inhibit }
def Task.addDep (dep : TaskDep) (t : Task) : Task := { t with deps := t.deps ++ [dep] }

def Task.rearm (t : Task) : Task :=
  { t with triggered := t.trig.length == 0, state := stateLoaded }

structure TaskDB where
  taskSet : List Task := []
  taskSetSize : Nat := 256
  spawnInhibit : Bool := false
  /-- A slot holds a task whose strings are freed or have no end: the next scan of the set is
  undefined behaviour, and no run of the model goes on from here. -/
  corrupt : Bool := false
  deriving DecidableEq, Repr

structure Result where
  ret : Int
  db : TaskDB
  broadcast : Bool := false
  started : List Task := []

structure InsertEnv where
  growOk : Bool := true
  /-- The allocations of `crinitTaskCopy`. -/
  copyOk : Bool := true
  hookOk : Bool := true
  /-- In the memory of the new task each event stands right behind its name. -/
  eventsBehind : Bool := true
  deriving DecidableEq, Repr

def TaskDB.findTask (db : TaskDB) (n : String) : Option Task :=
  db.taskSet.find? (fun t => t.name = n)

def updateFirst (n : String) (f : Task → Task) : List Task → List Task
  | [] => []
  | t :: ts => if t.name = n then f t :: ts else t :: updateFirst n f ts

def TaskDB.update (db : TaskDB) (n : String) (f : Task → Task) : TaskDB :=
  { db with taskSet := updateFirst n f db.taskSet }

/-- `crinitCopyCommandBlock` refuses a command without arguments. -/
def Task.hasArguments (t : Task) : Bool := (t.cmds ++ t.stopCmds).all fun argv => !argv.isEmpty

def InsertEnv.copies (env : InsertEnv) (t : Task) : Bool := env.copyOk && t.hasArguments

/-- What follows on `crinitTaskCopy`, which has written the new task into its slot. Where it fails
it frees the strings again. It takes a dependency for one piece of memory, so that an event that
stands apart from its name has no end in the copy. -/
def TaskDB.copied (db : TaskDB) (t : Task) (env : InsertEnv) : Result :=
  if !env.copies t then ⟨-1, { db with corrupt := true }, false, []⟩
  else
    let stored := { db with corrupt := db.corrupt || !env.eventsBehind }
    if !env.hookOk then ⟨-1, stored, false, []⟩ else ⟨0, stored, true, []⟩

def TaskDB.insert (db : TaskDB) (t : Task) (overwrite : Bool) (env : InsertEnv) : Result :=
  match db.findTask t.name with
  | some _ =>
    if !overwrite then ⟨-1, db, false, []⟩ else (db.update t.name fun _ => t).copied t env
  | none =>
    if db.taskSet.length = db.taskSetSize && !env.growOk then ⟨-1, db, false, []⟩
    else
      let size := if db.taskSet.length = db.taskSetSize then db.taskSetSize * 2 else db.taskSetSize
      -- The slot counts before the copy is made.
      { db with taskSet := db.taskSet ++ [t], taskSetSize := size }.copied t env

/-- The loop of `crinitTaskDBSpawnReady`. A task whose thread does not start is
left with the STARTING bit cleared, and the loop ends there. -/
def spawnLoop (spawnFunc : Task → Bool) : List Task → Int × List Task × List Task
  | [] => (0, [], [])
  | t :: ts =>
    if taskIsReady t then
      if spawnFunc (t.setState stateStarting) then
        let rest := spawnLoop spawnFunc ts
        (rest.1, t.setState stateStarting :: rest.2.1, t.setState stateStarting :: rest.2.2)
      else (-1, t.setState (stateStarting &&& ~~~stateStarting) :: ts, [])
    else
      let rest := spawnLoop spawnFunc ts
      (rest.1, t :: rest.2.1, rest.2.2)

/-- `spawnFunc` is `none` for the NULL pointer; its answer is whether the thread started. -/
def TaskDB.spawnReady (db : TaskDB) (mode : Mode) (spawnFunc : Option (Task → Mode → Bool)) :
    Result :=
  if db.spawnInhibit then ⟨0, db, false, []⟩
  else match spawnFunc with
    | none => ⟨-1, db, false, []⟩
    | some f =>
      let out := spawnLoop (fun t => f t mode) db.taskSet
      ⟨out.1, { db with taskSet := out.2.1 }, false, out.2.2⟩

def TaskDB.setSpawnInhibit (db : TaskDB) (inh : Bool) : Result :=
  if inh != db.spawnInhibit then ⟨0, { db with spawnInhibit := inh }, !inh, []⟩
  else ⟨0, db, false, []⟩

/-- `crinitTaskRearmTrigger`: it broadcasts even when the task does not exist. -/
def TaskDB.rearmTrigger (db : TaskDB) (n : String) : Result :=
  match db.findTask n with
  | some _ =>
    ⟨0, db.update n Task.rearm, true, []⟩
  | none => ⟨-1, db, true, []⟩

/-- The switch of `crinitTaskDBSetTaskState`, on the word without its NOTIFIED bit. The counter of
failures is an `int`: behind its maximum comes its minimum, if the addition comes back at all. -/
def Task.withState (s : TaskState) (timestamp : Timespec) (t : Task) : Task :=
  let base := s &&& ~~~stateNotified
  if base = stateFailed then
    { t with state := s, failCount := toInt (t.failCount + 1), endTime := timestamp }
  else if base = stateDone then { t with state := s, failCount := 0, endTime := timestamp }
  else if base = stateRunning then { t with state := s, startTime := timestamp }
  else { t with state := s }

def TaskDB.setTaskState (db : TaskDB) (s : TaskState) (n : String) (timestamp : Timespec) :
    Result :=
  match db.findTask n with
  | some _ => ⟨0, db.update n (Task.withState s timestamp), true, []⟩
  | none => ⟨-1, db, false, []⟩

def TaskDB.setTaskPID (db : TaskDB) (pid : Int) (n : String) : Result :=
  match db.findTask n with
  | some _ => ⟨0, db.update n (Task.setPid pid), false, []⟩
  | none => ⟨-1, db, false, []⟩

def TaskDB.setTaskRespawnInhibit (db : TaskDB) (inhibit : Bool) (n : String) : Result :=
  match db.findTask n with
  | some _ => ⟨0, db.update n (Task.setInhibitRespawn inhibit), false, []⟩
  | none => ⟨-1, db, false, []⟩

def TaskDB.addDepToTask (db : TaskDB) (dep : TaskDep) (n : String) (allocOk : Bool) : Result :=
  match db.findTask n with
  | some t =>
    if dep ∈ t.deps then ⟨0, db, false, []⟩
    else if !allocOk then ⟨-1, db, false, []⟩
    else ⟨0, db.update n (Task.addDep dep), false, []⟩
  | none => ⟨-1, db, false, []⟩

/-- One turn of the removal loop at index `j`: the last entry takes the place of
the removed one. The loop then goes on at `j + 1`, behind the moved entry. -/
def removeAt (dep : TaskDep) (deps : List TaskDep) (j : Nat) : List TaskDep :=
  if deps[j]? = some dep then
    if j < deps.length - 1 then (deps.set j (deps.getLastD dep)).dropLast else deps.dropLast
  else deps

/-- The first argument counts the turns left: `j` grows and the list shrinks, so
its initial length bounds them. -/
def removeLoop (dep : TaskDep) : Nat → Nat → List TaskDep → List TaskDep
  | 0, _, deps => deps
  | turns + 1, j, deps =>
    if j < deps.length then removeLoop dep turns (j + 1) (removeAt dep deps j) else deps

def removeDeps (dep : TaskDep) (deps : List TaskDep) : List TaskDep :=
  removeLoop dep deps.length 0 deps

def removeDepFromTaskStruct (dep : TaskDep) (t : Task) : Task :=
  { t with deps := removeDeps dep t.deps, triggered := t.triggered || t.trig.contains dep }

def TaskDB.removeDepFromTask (db : TaskDB) (dep : TaskDep) (n : String) : Result :=
  match db.findTask n with
  | some _ => ⟨0, db.update n (removeDepFromTaskStruct dep), true, []⟩
  | none => ⟨-1, db, false, []⟩

/-- `target` is the task in the slot the pointer refers to, by its name. -/
def TaskDB.fulfillDep (db : TaskDB) (dep : TaskDep) (target : Option String) : Result :=
  match target with
  | some n => ⟨0, db.update n (removeDepFromTaskStruct dep), true, []⟩
  | none => ⟨0, { db with taskSet := db.taskSet.map (removeDepFromTaskStruct dep) }, true, []⟩

inductive DbOp where
  | insert (t : NewTask) (overwrite : Bool) (env : InsertEnv)
  | spawnReady (mode : Mode) (spawnFunc : Option (Task → Mode → Bool))
  | setSpawnInhibit (inh : Bool)
  | rearmTrigger (n : String)
  | setTaskState (s : TaskState) (n : String) (timestamp : Timespec)
  | setTaskPID (pid : Int) (n : String)
  | setTaskRespawnInhibit (inhibit : Bool) (n : String)
  | addDepToTask (dep : TaskDep) (n : String) (allocOk : Bool)
  | removeDepFromTask (dep : TaskDep) (n : String)
  | fulfillDep (dep : TaskDep) (target : Option String)

def DbOp.apply (db : TaskDB) : DbOp → Result
  | .insert t overwrite env => db.insert t.task overwrite env
  | .spawnReady mode f => db.spawnReady mode f
  | .setSpawnInhibit inh => db.setSpawnInhibit inh
  | .rearmTrigger n => db.rearmTrigger n
  | .setTaskState s n ts => db.setTaskState s n ts
  | .setTaskPID pid n => db.setTaskPID pid n
  | .setTaskRespawnInhibit inh n => db.setTaskRespawnInhibit inh n
  | .addDepToTask dep n ok => db.addDepToTask dep n ok
  | .removeDepFromTask dep n => db.removeDepFromTask dep n
  | .fulfillDep dep target => db.fulfillDep dep target

end Crinit
