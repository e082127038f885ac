import Crinit.LockElos

/-! The mutexes that the public operations of the databases, of the option store and of the elos
activations leave locked or ask for twice. -/
namespace Crinit.LockPath

open CallTree

def notify : Path Unit := do
  if ← lib .write then return () else errPrint

def removeTimerLoop (timerStr : String) : Nat → Nat → TimerDB → Path Unit
  | 0, _, _ => return ()
  | turns + 1, i, p =>
    match p.timers[i]? with
    | none => return ()
    | some s =>
      if s.timer.name = timerStr then do
        notify
        removeTimerLoop timerStr turns (i + 1) (removeTimerAt timerStr p i)
      else removeTimerLoop timerStr turns (i + 1) p

def timerDBRemoveTimer (timerStr : String) : Path Unit := do
  if ← lock .timerPool then
    let p ← timers
    removeTimerLoop timerStr p.timers.length 0 p
    let _ ← unlock .timerPool
    return ()
  else errPrint

def insertTimerEnd (res : Int) : Path Int := do
  let _ ← unlock .timerPool
  return res

def timerDBInsertTimer : Path Int := do
  if ← lock .timerPool then
    if ← flag .timerRoom then
      if ← lib .timerfdCreate then
        if ← lib .timerfdSettime then
          if ← lib .write then insertTimerEnd 0
          else do
            errPrint
            insertTimerEnd (-1)
        else insertTimerEnd (-1)
      else insertTimerEnd (-1)
    else do
      errPrint
      insertTimerEnd (-1)
  else failWith (-1)

def unlockReported (m : Lock) : Path Unit := do
  if ← unlock m then return () else errPrint

def timerDBAddTimer (timerStr : String) : Path Unit := do
  if ← lock .timerPool then
    let p ← timers
    if p.has timerStr then
      notify
      unlockReported .timerPool
    else
      unlockReported .timerPool
      let n ← complaints
      errPrints n
      if (← timerDBInsertTimer) = -1 then errPrint else dbgInfoPrint
  else errPrint

def timerDBSpawn : Path Int := do
  if ← lock .timerPool then
    let p ← timers
    infoPrints (1 + 3 * p.timers.length)
    if ← unlock .timerPool then return 0 else failWith (-1)
  else failWith (-1)

def timerDBInit : Path Int := do
  infoPrint
  if ← allOf [allocate 1, allocate 1] then
    if ← lib .eventfd then
      if ← lib .mutexInit then return 0 else failWith (-1)
    else failWith (-1)
  else return -1

section Timers

variable {k : Nat}

theorem notify_orderly (level : 1 ≤ k) : Ordered k notify :=
  orderly_check (lib_orderly _) orderly_pure (errPrint_orderly level)

theorem timers_orderly : Ordered k timers :=
  orderly_ask (fun _ => rfl) fun _ => Bool.false_ne_true

theorem removeTimerLoop_orderly (level : 1 ≤ k) (timerStr : String) (turns i : Nat) (p : TimerDB) :
    Ordered k (removeTimerLoop timerStr turns i p) := by
  induction turns generalizing i p with
  | zero => exact orderly_pure
  | succ turns ih =>
    unfold removeTimerLoop
    cases p.timers[i]? with
    | none => exact orderly_pure
    | some s =>
      refine orderly_if (fun _ => ?_) fun _ => ih _ _
      exact orderly_bind (notify_orderly level) fun _ => ih _ _

theorem timerDBRemoveTimer_orderly (level : 3 ≤ k) (timerStr : String) :
    Ordered k (timerDBRemoveTimer timerStr) := by
  refine locked_orderly level (errPrint_orderly (by omega)) ?_
  refine closing_bind timers_orderly level fun p => ?_
  refine closing_bind (removeTimerLoop_orderly (by decide) timerStr _ _ _) level fun _ => ?_
  exact unlock_closing fun _ => orderly_pure

theorem timerDBInsertTimer_orderly (level : 3 ≤ k) : Ordered k timerDBInsertTimer := by
  have ends : ∀ res, Releases k .timerPool true (insertTimerEnd res) :=
    fun res => unlock_closing fun _ => orderly_pure
  have reports : Releases k .timerPool true (errPrint >>= fun _ => insertTimerEnd (-1)) :=
    closing_bind (errPrint_orderly (by decide)) level fun _ => ends (-1)
  refine locked_orderly level (failWith_orderly (by omega) _) ?_
  refine closing_check (flag_orderly _) level ?_ reports
  refine closing_check (lib_orderly _) level ?_ (ends (-1))
  refine closing_check (lib_orderly _) level ?_ (ends (-1))
  exact closing_check (lib_orderly _) level (ends 0) reports

theorem timerDBAddTimer_orderly (level : 3 ≤ k) (timerStr : String) :
    Ordered k (timerDBAddTimer timerStr) := by
  have low : 1 ≤ k := by omega
  have unlocks : Releases k .timerPool true (unlockReported .timerPool) :=
    unlock_closing fun _ =>
      orderly_if (fun _ => orderly_pure) fun _ => errPrint_orderly low
  refine locked_orderly level (errPrint_orderly low) ?_
  refine closing_bind timers_orderly level fun p => closing_if (fun _ => ?_) fun _ => ?_
  · exact closing_bind (notify_orderly (by decide)) level fun _ => unlocks
  · refine closing_then unlocks fun _ => ?_
    refine orderly_bind complaints_orderly fun n => ?_
    refine orderly_bind (errPrints_orderly low n) fun _ => ?_
    refine orderly_check (timerDBInsertTimer_orderly level) (errPrint_orderly low)
      (dbgInfoPrint_orderly (by omega))

theorem timerDBSpawn_orderly (level : 3 ≤ k) : Ordered k timerDBSpawn := by
  have fails : Ordered k (failWith (-1 : Int)) :=
    failWith_orderly (by omega) _
  refine locked_orderly level fails ?_
  refine closing_bind timers_orderly level fun p => ?_
  refine closing_bind (infoPrints_orderly (by decide) _) level fun _ => ?_
  exact unlock_closing fun _ => orderly_if (fun _ => orderly_pure) fun _ => fails

theorem allocTwice_orderly (level : 1 ≤ k) : Ordered k (allOf [allocate 1, allocate 1]) :=
  allocated_orderly level 1 (List.forall_mem_singleton.mpr (alloc_orderly level 1))

theorem timerDBInit_orderly (level : 1 ≤ k) : Ordered k timerDBInit := by
  have fails : Ordered k (failWith (-1 : Int)) :=
    failWith_orderly level _
  refine orderly_bind (infoPrint_orderly level) fun _ => ?_
  refine orderly_check (allocTwice_orderly level) ?_ orderly_pure
  refine orderly_check (lib_orderly _) ?_ fails
  exact orderly_check (lib_orderly _) orderly_pure fails

end Timers

def taskDBInitWithSize (initialSize : Nat) : Path Int := do
  if initialSize < 1 then failWith (-1)
  else if ← lib .alloc then
    if ← lib .mutexInit then
      if ← lib .condInit then return 0 else failWith (-1)
    else failWith (-1)
  else failWith (-1)

def destroyTasks : List TaskParts → Path Unit
  | [] => return ()
  | t :: ts => do
    destroyTask t.cgroup
    destroyTasks ts

def taskDBDestroy : Path Int := do
  let tasks ← taskSet
  destroyTasks tasks
  if ← lib .mutexDestroy then return 0 else failWith (-1)

def unlockTaskDB (ret : Int) : Path Int := do
  let _ ← unlock .taskDB
  return ret

def lockTaskDB (body : Path Int) : Path Int := do
  if ← lock .taskDB then body else failWith (-1)

def insertCopy (t : TaskParts) : Path Int := do
  if ← reported (taskCopy t) then
    let logged ← elosLog
    whenever (logged == -1) errPrint
    dbgInfoPrint
    let hooked ← featureHook none .taskAdded t
    if hooked = -1 then
      errPrint
      unlockTaskDB (-1)
    else unlockTaskDB 0
  else unlockTaskDB (-1)

def taskDBInsert (t : TaskParts) (overwrite : Bool) : Path Int := lockTaskDB do
  let tasks ← taskSet
  match findTask tasks t.task.name with
  | some old =>
    if overwrite then
      destroyTask old.cgroup
      insertCopy t
    else do
      errPrint
      unlockTaskDB (-1)
  | none =>
    if ← flag .setFull then
      if ← allocate 1 then insertCopy t else unlockTaskDB (-1)
    else insertCopy t

def procDispatchSpawnFunc : Path Bool := do
  if ← allocate 1 then
    if ← lib .attrInit then
      if ← lib .setDetachState then
        if ← lib .setStackSize then
          dbgInfoPrint
          if ← lib .create then return true else failWith false
        else failWith false
      else failWith false
    else failWith false
  else return false

def spawnReadyLoop : List TaskParts → Path Bool
  | [] => return true
  | t :: ts =>
    if taskIsReady t.task then do
      dbgInfoPrint
      if ← reported procDispatchSpawnFunc then spawnReadyLoop ts else return false
    else spawnReadyLoop ts

def taskDBSpawnReady : Path Int := lockTaskDB do
  if ← flag .spawnInhibit then unlockTaskDB 0
  else if ← flag .spawnFunc then
    let tasks ← taskSet
    if ← spawnReadyLoop tasks then unlockTaskDB 0 else unlockTaskDB (-1)
  else do
    errPrint
    unlockTaskDB (-1)

def taskDBSetSpawnInhibit : Path Int := lockTaskDB (unlockTaskDB 0)

def taskDBGetTaskByName (taskName : String) : Path Int := lockTaskDB do
  let tasks ← taskSet
  match findTask tasks taskName with
  | some t => if ← taskDup t then unlockTaskDB 0 else unlockTaskDB (-1)
  | none =>
    errPrint
    unlockTaskDB (-1)

def taskRearmTrigger (taskName : String) : Path Int := lockTaskDB do
  let tasks ← taskSet
  unlockTaskDB (if (findTask tasks taskName).isSome then 0 else -1)

def onTask (taskName : String) (found : TaskParts → Path Int) : Path Int := lockTaskDB do
  let tasks ← taskSet
  match findTask tasks taskName with
  | some t => found t
  | none =>
    let _ ← unlock .taskDB
    failWith (-1)

/-- Without the time the change of state is made all the same. -/
def timestamp : Path Unit := do
  if ← lib .clockGettime then return () else errPrint

def taskDBSetTaskState (s : TaskState) (taskName : String) : Path Int := do
  whenever (anyBit s (stateRunning ||| stateDone ||| stateFailed)) timestamp
  onTask taskName fun _ => do
    let _ ← unlock .taskDB
    let logged ← elosLog
    whenever (logged == -1) errPrint
    return 0

def taskDBGetTaskState (taskName : String) : Path Int := onTask taskName fun _ => unlockTaskDB 0
def taskDBSetTaskPID (taskName : String) : Path Int := onTask taskName fun _ => unlockTaskDB 0
def taskDBGetTaskPID (taskName : String) : Path Int := onTask taskName fun _ => unlockTaskDB 0
def taskDBGetTaskStateAndPID (taskName : String) : Path Int :=
  onTask taskName fun _ => unlockTaskDB 0
def taskDBSetTaskRespawnInhibit (taskName : String) : Path Int :=
  onTask taskName fun _ => unlockTaskDB 0

def taskDBAddDepToTask (dep : TaskDep) (taskName : String) : Path Int := onTask taskName fun t => do
  if dep ∈ t.task.deps then unlockTaskDB 0
  else if ← allOf [allocate 1, allocate 1] then unlockTaskDB 0
  else unlockTaskDB (-1)

def removeDepLoop (dep : TaskDep) : Nat → Nat → List TaskDep → Path Unit
  | 0, _, _ => return ()
  | turns + 1, j, deps =>
    if j < deps.length then
      if deps[j]? = some dep then do
        dbgInfoPrint
        whenever (dep.name == timerDepName) (timerDBRemoveTimer dep.event)
        removeDepLoop dep turns (j + 1) (removeAt dep deps j)
      else removeDepLoop dep turns (j + 1) deps
    else return ()

def triggerLoop (dep : TaskDep) : List TaskDep → Path Unit
  | [] => return ()
  | trig :: trigs => do
    whenever (trig == dep) dbgInfoPrint
    triggerLoop dep trigs

def removeDepFromTaskStruct (dep : TaskDep) (t : TaskParts) : Path Unit := do
  removeDepLoop dep t.task.deps.length 0 t.task.deps
  triggerLoop dep t.task.trig

def taskDBRemoveDepFromTask (dep : TaskDep) (taskName : String) : Path Int :=
  onTask taskName fun t => do
    removeDepFromTaskStruct dep t
    unlockTaskDB 0

def removeDepFromTasks (dep : TaskDep) : List TaskParts → Path Unit
  | [] => return ()
  | t :: ts => do
    removeDepFromTaskStruct dep t
    removeDepFromTasks dep ts

/-- With a target, only the task there is looked at. -/
def taskDBFulfillDep (dep : TaskDep) (target : Option TaskParts) : Path Int := lockTaskDB do
  match target with
  | some t =>
    removeDepFromTaskStruct dep t
    unlockTaskDB 0
  | none =>
    let tasks ← taskSet
    removeDepFromTasks dep tasks
    unlockTaskDB 0

def provideLoop (provider : TaskParts) (newState : TaskState) : List TaskPrv → Path Int
  | [] => return 0
  | prv :: prvs =>
    if prv.stateReq = newState then do
      if (← taskDBFulfillDep ⟨provideDepName, prv.name⟩ none) = -1 then failWith (-1)
      else do
        dbgInfoPrint
        if (← featureHook (some prv.name) .start provider) = -1 then failWith (-1)
        else provideLoop provider newState prvs
    else do
      if (← featureHook (some prv.name) .stop provider) = -1 then failWith (-1)
      else provideLoop provider newState prvs

def taskDBProvideFeature (provider : TaskParts) (newState : TaskState) : Path Int :=
  provideLoop provider newState provider.task.prv

def taskDBProvideFeatureByTaskName (taskName : String) (newState : TaskState) : Path Int :=
  lockTaskDB do
    let tasks ← providers taskName
    match findTask tasks taskName with
    | some provider =>
      let _ ← unlock .taskDB
      taskDBProvideFeature provider newState
    | none => failWith (-1)

def taskDBExportTaskNamesToArray : Path Int := lockTaskDB do
  let tasks ← taskSet
  if ← allOf (allocate 1 :: tasks.map copyString) then unlockTaskDB 0 else unlockTaskDB (-1)

section TaskDB

variable {k : Nat}

theorem whenever_orderly {c : Bool} {p : Path Unit} (orderly : Ordered k p) :
    Ordered k (whenever c p) :=
  orderly_if (fun _ => orderly) fun _ => orderly_pure

theorem taskSet_orderly : Ordered k taskSet :=
  orderly_ask (fun _ => rfl) fun _ => Bool.false_ne_true

theorem taskDBInitWithSize_orderly (level : 1 ≤ k) (initialSize : Nat) :
    Ordered k (taskDBInitWithSize initialSize) := by
  have fails : Ordered k (failWith (-1 : Int)) :=
    failWith_orderly level _
  refine orderly_if (fun _ => fails) fun _ => ?_
  refine orderly_check (lib_orderly _) ?_ fails
  refine orderly_check (lib_orderly _) ?_ fails
  exact orderly_check (lib_orderly _) orderly_pure fails

theorem destroyTasks_orderly (level : 2 ≤ k) (tasks : List TaskParts) :
    Ordered k (destroyTasks tasks) := by
  induction tasks with
  | nil => exact orderly_pure
  | cons t tasks ih => exact orderly_bind (destroyTask_orderly level t.cgroup) fun _ => ih

theorem taskDBDestroy_orderly (level : 2 ≤ k) : Ordered k taskDBDestroy := by
  refine orderly_bind taskSet_orderly fun tasks => ?_
  refine orderly_bind (destroyTasks_orderly level tasks) fun _ => ?_
  refine orderly_check (lib_orderly _) orderly_pure (failWith_orderly (by omega) _)

theorem unlockTaskDB_closing {got : Bool} (ret : Int) :
    Releases k .taskDB got (unlockTaskDB ret) :=
  unlock_closing fun _ => orderly_pure

theorem procDispatchSpawnFunc_orderly (level : 2 ≤ k) : Ordered k procDispatchSpawnFunc := by
  have fails : Ordered k (failWith false) :=
    failWith_orderly (by omega) _
  refine orderly_check (alloc_orderly (by omega) 1) ?_ orderly_pure
  refine orderly_check (lib_orderly _) ?_ fails
  refine orderly_check (lib_orderly _) ?_ fails
  refine orderly_check (lib_orderly _) ?_ fails
  refine orderly_bind (dbgInfoPrint_orderly level) fun _ => ?_
  exact orderly_check (lib_orderly _) orderly_pure fails

theorem spawnReadyLoop_orderly (level : 2 ≤ k) (tasks : List TaskParts) :
    Ordered k (spawnReadyLoop tasks) := by
  induction tasks with
  | nil => exact orderly_pure
  | cons t tasks ih =>
    have spawned : Ordered k (reported procDispatchSpawnFunc) :=
      reported_orderly (by omega) (procDispatchSpawnFunc_orderly level)
    refine orderly_if (fun _ => ?_) fun _ => ih
    refine orderly_bind (dbgInfoPrint_orderly level) fun _ => ?_
    exact orderly_bind spawned fun _ => orderly_if (fun _ => ih) fun _ => orderly_pure

theorem removeDepLoop_orderly (level : 3 ≤ k) (dep : TaskDep) (turns j : Nat)
    (deps : List TaskDep) :
    Ordered k (removeDepLoop dep turns j deps) := by
  induction turns generalizing j deps with
  | zero => exact orderly_pure
  | succ turns ih =>
    refine orderly_if (fun _ => orderly_if (fun _ => ?_) fun _ => ih _ _) fun _ => orderly_pure
    refine orderly_bind (dbgInfoPrint_orderly (by omega)) fun _ => ?_
    exact orderly_bind (whenever_orderly (timerDBRemoveTimer_orderly level dep.event)) fun _ =>
      ih _ _

theorem triggerLoop_orderly (level : 2 ≤ k) (dep : TaskDep) (trigs : List TaskDep) :
    Ordered k (triggerLoop dep trigs) := by
  induction trigs with
  | nil => exact orderly_pure
  | cons trig trigs ih =>
    exact orderly_bind (whenever_orderly (dbgInfoPrint_orderly level)) fun _ => ih

theorem removeDepFromTaskStruct_orderly (level : 3 ≤ k) (dep : TaskDep) (t : TaskParts) :
    Ordered k (removeDepFromTaskStruct dep t) :=
  orderly_bind (removeDepLoop_orderly level dep _ _ _) fun _ => triggerLoop_orderly (by omega) dep _

theorem removeDepFromTasks_orderly (level : 3 ≤ k) (dep : TaskDep) (tasks : List TaskParts) :
    Ordered k (removeDepFromTasks dep tasks) := by
  induction tasks with
  | nil => exact orderly_pure
  | cons t tasks ih => exact orderly_bind (removeDepFromTaskStruct_orderly level dep t) fun _ => ih

variable (level : 4 ≤ k)
include level

theorem lockTaskDB_orderly {body : Path Int} (closing : Releases k .taskDB true body) :
    Ordered k (lockTaskDB body) := by
  exact locked_orderly level (failWith_orderly (by omega) _) closing

theorem reported_closing :
    Releases k .taskDB true (errPrint >>= fun _ => unlockTaskDB (-1)) :=
  closing_bind (errPrint_orderly (by decide)) level fun _ => unlockTaskDB_closing _

theorem steps_closing {p : Path Bool} (orderly : Ordered 3 p) :
    Releases k .taskDB true (do
      if ← p then unlockTaskDB 0 else unlockTaskDB (-1) : Path Int) :=
  closing_bind orderly level fun _ =>
    closing_if (fun _ => unlockTaskDB_closing _) fun _ => unlockTaskDB_closing _

theorem insertCopy_closing (t : TaskParts) :
    Releases k .taskDB true (insertCopy t) := by
  have copied : Ordered 3 (reported (taskCopy t)) :=
    reported_orderly (by decide) (taskCopy_orderly (by decide) t)
  refine closing_bind copied level fun _ => closing_if (fun _ => ?_) fun _ => unlockTaskDB_closing _
  refine closing_bind (elosLog_orderly (by decide)) level fun _ => ?_
  refine closing_bind (whenever_orderly (errPrint_orderly (by decide))) level fun _ =>
    ?_
  refine closing_bind (dbgInfoPrint_orderly (by decide)) level fun _ => ?_
  refine closing_check (taskAddedHook_orderly (by decide) none t) level (reported_closing level)
    (unlockTaskDB_closing _)

theorem taskDBInsert_orderly (t : TaskParts) (overwrite : Bool) :
    Ordered k (taskDBInsert t overwrite) := by
  refine lockTaskDB_orderly level (closing_bind taskSet_orderly level fun tasks => ?_)
  cases findTask tasks t.task.name with
  | some old =>
    refine closing_if (fun _ => ?_) fun _ => reported_closing level
    exact closing_bind (destroyTask_orderly (by decide) _) level fun _ => insertCopy_closing level t
  | none =>
    refine closing_check (flag_orderly _) level ?_ (insertCopy_closing level t)
    exact closing_check (alloc_orderly (by decide) 1) level (insertCopy_closing level t)
      (unlockTaskDB_closing _)

theorem taskDBSpawnReady_orderly : Ordered k taskDBSpawnReady := by
  refine lockTaskDB_orderly level (closing_bind (flag_orderly _) level fun _ => ?_)
  refine closing_if (fun _ => unlockTaskDB_closing _) fun _ => ?_
  refine closing_check (flag_orderly _) level ?_ (reported_closing level)
  exact closing_bind taskSet_orderly level fun tasks =>
    steps_closing level (spawnReadyLoop_orderly (by decide) tasks)

theorem taskDBGetTaskByName_orderly (taskName : String) :
    Ordered k (taskDBGetTaskByName taskName) := by
  refine lockTaskDB_orderly level (closing_bind taskSet_orderly level fun tasks => ?_)
  cases findTask tasks taskName with
  | some t => exact steps_closing level (taskDup_orderly (by decide) t)
  | none => exact reported_closing level

theorem taskRearmTrigger_orderly (taskName : String) :
    Ordered k (taskRearmTrigger taskName) :=
  lockTaskDB_orderly level (closing_bind taskSet_orderly level fun _ => unlockTaskDB_closing _)

theorem onTask_orderly {found : TaskParts → Path Int} (taskName : String)
    (closing : ∀ t, Releases k .taskDB true (found t)) :
    Ordered k (onTask taskName found) := by
  refine lockTaskDB_orderly level (closing_bind taskSet_orderly level fun tasks => ?_)
  cases findTask tasks taskName with
  | some t => exact closing t
  | none =>
    exact unlock_closing fun _ => failWith_orderly (by omega) _

theorem taskDBSetTaskState_orderly (s : TaskState) (taskName : String) :
    Ordered k (taskDBSetTaskState s taskName) := by
  have print : Ordered k errPrint := errPrint_orderly (by omega)
  have timed : Ordered k timestamp :=
    orderly_check (lib_orderly _) orderly_pure print
  refine orderly_bind (whenever_orderly timed) fun _ => onTask_orderly level taskName fun t => ?_
  refine unlock_closing fun _ => ?_
  refine orderly_bind (elosLog_orderly (by omega)) fun _ => ?_
  exact orderly_bind (whenever_orderly print) fun _ => orderly_pure

theorem accessTask_orderly (taskName : String) :
    Ordered k (onTask taskName fun _ => unlockTaskDB 0) :=
  onTask_orderly level taskName fun _ => unlockTaskDB_closing 0

theorem taskDBAddDepToTask_orderly (dep : TaskDep) (taskName : String) :
    Ordered k (taskDBAddDepToTask dep taskName) := by
  refine onTask_orderly level taskName fun t => ?_
  exact closing_if (fun _ => unlockTaskDB_closing _) fun _ =>
    steps_closing level (allocTwice_orderly (by decide))

theorem taskDBRemoveDepFromTask_orderly (dep : TaskDep) (taskName : String) :
    Ordered k (taskDBRemoveDepFromTask dep taskName) :=
  onTask_orderly level taskName fun t =>
    closing_bind (removeDepFromTaskStruct_orderly (by decide) dep t) level fun _ =>
      unlockTaskDB_closing _

theorem taskDBFulfillDep_orderly (dep : TaskDep) (target : Option TaskParts) :
    Ordered k (taskDBFulfillDep dep target) := by
  refine lockTaskDB_orderly level ?_
  cases target with
  | some t =>
    exact closing_bind (removeDepFromTaskStruct_orderly (by decide) dep t) level fun _ =>
      unlockTaskDB_closing _
  | none =>
    refine closing_bind taskSet_orderly level fun tasks => ?_
    exact closing_bind (removeDepFromTasks_orderly (by decide) dep tasks) level fun _ =>
      unlockTaskDB_closing _

theorem provideLoop_orderly (provider : TaskParts) (newState : TaskState) (prvs : List TaskPrv) :
    Ordered k (provideLoop provider newState prvs) := by
  have fails : Ordered k (failWith (-1 : Int)) :=
    failWith_orderly (by omega) _
  induction prvs with
  | nil => exact orderly_pure
  | cons prv prvs ih =>
    refine orderly_if (fun _ => ?_) fun _ => ?_
    · refine orderly_check (taskDBFulfillDep_orderly level _ none) fails ?_
      refine orderly_bind (dbgInfoPrint_orderly (by omega)) fun _ => ?_
      exact orderly_check (featureHook_orderly level _ _ _) fails ih
    · exact orderly_check (featureHook_orderly level _ _ _) fails ih

/-- The mutex stays locked if the provider is not there. -/
theorem taskDBProvideFeatureByTaskName_orderly (taskName : String) (newState : TaskState) :
    Ordered k (taskDBProvideFeatureByTaskName taskName newState) := by
  refine lockTaskDB_orderly level ?_
  refine closing_ask (fun _ => rfl) level (fun (tasks : List TaskParts) lost => ⟨rfl, ?_⟩)
    fun (tasks : List TaskParts) fine => ?_
  · change (findTask tasks taskName).isNone = true at lost
    rw [Option.isNone_iff_eq_none.mp lost]
    exact failWith_orderly (by omega) _
  · change ¬(findTask tasks taskName).isNone = true at fine
    cases there : findTask tasks taskName with
    | none => exact absurd (by rw [there]; rfl) fine
    | some provider =>
      exact unlock_closing fun _ => provideLoop_orderly level provider newState _

theorem taskDBExportTaskNamesToArray_orderly :
    Ordered k taskDBExportTaskNamesToArray := by
  refine lockTaskDB_orderly level (closing_bind taskSet_orderly level fun tasks => ?_)
  refine steps_closing level (allocated_orderly (by decide) 1 ?_)
  exact List.forall_mem_map.mpr fun t _ => alloc_orderly (by decide) 1

end TaskDB

inductive Operation where
  | taskDBInitWithSize (initialSize : Nat)
  | taskDBDestroy
  | taskDBInsert (t : TaskParts) (overwrite : Bool)
  | taskDBSpawnReady
  | taskDBSetSpawnInhibit
  | taskDBGetTaskByName (taskName : String)
  | taskRearmTrigger (taskName : String)
  | taskDBSetTaskState (s : TaskState) (taskName : String)
  | taskDBGetTaskState (taskName : String)
  | taskDBSetTaskPID (taskName : String)
  | taskDBGetTaskPID (taskName : String)
  | taskDBGetTaskStateAndPID (taskName : String)
  | taskDBSetTaskRespawnInhibit (taskName : String)
  | taskDBAddDepToTask (dep : TaskDep) (taskName : String)
  | taskDBRemoveDepFromTask (dep : TaskDep) (taskName : String)
  | taskDBFulfillDep (dep : TaskDep) (target : Option TaskParts)
  | taskDBProvideFeature (provider : TaskParts) (newState : TaskState)
  | taskDBProvideFeatureByTaskName (taskName : String) (newState : TaskState)
  | taskDBExportTaskNamesToArray
  | timerDBInit
  | timerDBSpawn
  | timerDBAddTimer (timerStr : String)
  | timerDBRemoveTimer (timerStr : String)
  | globOptInitDefault
  | globOptDestroy
  | globOptSetString
  | globOptGetString
  | globOptSetBoolean
  | globOptGetBoolean
  | globOptSetInteger
  | globOptGetInteger
  | globOptSetUnsignedLL
  | globOptGetUnsignedLL
  | globOptSetEnvSet (val : Option EnvSet)
  | globOptGetEnvSet
  | elosdepActivate (e : Bool)
  | eloslogActivate (e : Bool)

def void (p : Path Unit) : Path Int := do
  p
  return 0

def Operation.path (given : Bool) : Operation → Path Int
  | .taskDBInitWithSize initialSize => nullChecked given (LockPath.taskDBInitWithSize initialSize)
  | .taskDBDestroy => nullChecked given LockPath.taskDBDestroy
  | .taskDBInsert t overwrite => nullChecked given (LockPath.taskDBInsert t overwrite)
  | .taskDBSpawnReady => nullChecked given LockPath.taskDBSpawnReady
  | .taskDBSetSpawnInhibit => nullChecked given LockPath.taskDBSetSpawnInhibit
  | .taskDBGetTaskByName taskName => nullChecked given (LockPath.taskDBGetTaskByName taskName)
  | .taskRearmTrigger taskName => nullChecked given (LockPath.taskRearmTrigger taskName)
  | .taskDBSetTaskState s taskName => nullChecked given (LockPath.taskDBSetTaskState s taskName)
  | .taskDBGetTaskState taskName => nullChecked given (LockPath.taskDBGetTaskState taskName)
  | .taskDBSetTaskPID taskName => nullChecked given (LockPath.taskDBSetTaskPID taskName)
  | .taskDBGetTaskPID taskName => nullChecked given (LockPath.taskDBGetTaskPID taskName)
  | .taskDBGetTaskStateAndPID taskName =>
    nullChecked given (LockPath.taskDBGetTaskStateAndPID taskName)
  | .taskDBSetTaskRespawnInhibit taskName =>
    nullChecked given (LockPath.taskDBSetTaskRespawnInhibit taskName)
  | .taskDBAddDepToTask dep taskName =>
    nullChecked given (LockPath.taskDBAddDepToTask dep taskName)
  | .taskDBRemoveDepFromTask dep taskName =>
    nullChecked given (LockPath.taskDBRemoveDepFromTask dep taskName)
  | .taskDBFulfillDep dep target => nullChecked given (LockPath.taskDBFulfillDep dep target)
  | .taskDBProvideFeature provider newState =>
    nullChecked given (LockPath.taskDBProvideFeature provider newState)
  | .taskDBProvideFeatureByTaskName taskName newState =>
    nullChecked given (LockPath.taskDBProvideFeatureByTaskName taskName newState)
  | .taskDBExportTaskNamesToArray => nullChecked given LockPath.taskDBExportTaskNamesToArray
  | .timerDBInit => nullChecked given LockPath.timerDBInit
  | .timerDBSpawn => LockPath.timerDBSpawn
  | .timerDBAddTimer timerStr => void (LockPath.timerDBAddTimer timerStr)
  | .timerDBRemoveTimer timerStr => void (LockPath.timerDBRemoveTimer timerStr)
  | .globOptInitDefault => LockPath.globOptInitDefault
  | .globOptDestroy => void LockPath.globOptDestroy
  | .globOptSetString => nullChecked given LockPath.globOptSetString
  | .globOptGetString => nullChecked given LockPath.globOptGetString
  | .globOptGetBoolean | .globOptGetInteger | .globOptGetUnsignedLL =>
    nullChecked given globOptNumber
  | .globOptSetBoolean | .globOptSetInteger | .globOptSetUnsignedLL => globOptNumber
  | .globOptSetEnvSet val => nullChecked given (LockPath.globOptSetEnvSet val)
  | .globOptGetEnvSet => nullChecked given LockPath.globOptGetEnvSet
  | .elosdepActivate e => LockPath.elosdepActivate e
  | .eloslogActivate e => LockPath.eloslogActivate e

def Operation.calls (op : Operation) (given : Bool) (w : World Answer) : List (Answered Answer) :=
  ((op.path given).run w 0).1

theorem void_orderly {p : Path Unit} (orderly : Ordered 4 p) :
    Ordered 4 (void p) := orderly_bind orderly fun _ => orderly_pure

theorem operation_orderly (op : Operation) (given : Bool) : Ordered 4 (op.path given) := by
  have checked : ∀ {body : Path Int}, Ordered 4 body →
      Ordered 4 (nullChecked given body) :=
    nullChecked_orderly (by decide)
  have level : 4 ≤ 4 := Nat.le_refl 4
  have number : Ordered 4 globOptNumber := globOptNumber_orderly (by decide)
  cases op with
  | taskDBInitWithSize n => exact checked (taskDBInitWithSize_orderly (by decide) n)
  | taskDBDestroy => exact checked (taskDBDestroy_orderly (by decide))
  | taskDBInsert t overwrite => exact checked (taskDBInsert_orderly level t overwrite)
  | taskDBSpawnReady => exact checked (taskDBSpawnReady_orderly level)
  | taskDBSetSpawnInhibit => exact checked (lockTaskDB_orderly level (unlockTaskDB_closing 0))
  | taskDBGetTaskByName taskName => exact checked (taskDBGetTaskByName_orderly level taskName)
  | taskRearmTrigger taskName => exact checked (taskRearmTrigger_orderly level taskName)
  | taskDBSetTaskState s taskName => exact checked (taskDBSetTaskState_orderly level s taskName)
  | taskDBGetTaskState taskName => exact checked (accessTask_orderly level taskName)
  | taskDBSetTaskPID taskName => exact checked (accessTask_orderly level taskName)
  | taskDBGetTaskPID taskName => exact checked (accessTask_orderly level taskName)
  | taskDBGetTaskStateAndPID taskName => exact checked (accessTask_orderly level taskName)
  | taskDBSetTaskRespawnInhibit taskName => exact checked (accessTask_orderly level taskName)
  | taskDBAddDepToTask dep taskName =>
    exact checked (taskDBAddDepToTask_orderly level dep taskName)
  | taskDBRemoveDepFromTask dep taskName =>
    exact checked (taskDBRemoveDepFromTask_orderly level dep taskName)
  | taskDBFulfillDep dep target => exact checked (taskDBFulfillDep_orderly level dep target)
  | taskDBProvideFeature provider newState =>
    exact checked (provideLoop_orderly level provider newState _)
  | taskDBProvideFeatureByTaskName taskName newState =>
    exact checked (taskDBProvideFeatureByTaskName_orderly level taskName newState)
  | taskDBExportTaskNamesToArray => exact checked (taskDBExportTaskNamesToArray_orderly level)
  | timerDBInit => exact checked (timerDBInit_orderly (by decide))
  | timerDBSpawn => exact timerDBSpawn_orderly (by decide)
  | timerDBAddTimer timerStr => exact void_orderly (timerDBAddTimer_orderly (by decide) timerStr)
  | timerDBRemoveTimer timerStr =>
    exact void_orderly (timerDBRemoveTimer_orderly (by decide) timerStr)
  | globOptInitDefault => exact globOptInitDefault_orderly (by decide)
  | globOptDestroy => exact void_orderly (globOptDestroy_orderly (by decide))
  | globOptSetString => exact checked (globOptSetString_orderly (by decide))
  | globOptGetString => exact checked (globOptGetString_orderly (by decide))
  | globOptSetBoolean => exact number
  | globOptGetBoolean => exact checked number
  | globOptSetInteger => exact number
  | globOptGetInteger => exact checked number
  | globOptSetUnsignedLL => exact number
  | globOptGetUnsignedLL => exact checked number
  | globOptSetEnvSet val => exact checked (globOptSetEnvSet_orderly (by decide) val)
  | globOptGetEnvSet => exact checked (globOptGetEnvSet_orderly (by decide))
  | elosdepActivate e => exact elosdepActivate_orderly level e
  | eloslogActivate e => exact eloslogActivate_orderly level e

/-- An operation is balanced exactly if the caller holds none of the mutexes that it asks for and no
call fails after which a mutex is forgotten. -/
theorem locks_balanced_iff (op : Operation) (given : Bool) (w : World Answer)
    (held : Finset Lock) :
    locking.Balanced (op.calls given w) held ↔
      (∀ m ∈ locking.wanted (op.calls given w), m ∉ held) ∧
        ∀ a ∈ op.calls given w, forgets a = false := by
  have tidy := (operation_orderly op given w 0).balanced held
  simpa only [Operation.calls, Worse, not_exists, not_and, Bool.not_eq_true] using tidy

def quietWorld : World Answer
  | .connect _, _ | .exec, _ | .ringWrite, _ => (0 : Int)
  | .complaints, _ => (0 : Nat)
  | .envSet, _ => some EnvSet.empty
  | .taskSet, _ | .providers _, _ => []
  | .timers, _ => {}
  | .flag _, _ => false
  | .lock _, _ | .unlock _, _ | .lockVTable _, _ | .unlockVTable _, _ | .lib _, _ | .format _, _
  | .copyDefault _, _ | .copyServer _, _ | .dlopen _, _ | .thread _, _ | .server, _ => true

def noThread : World Answer
  | .thread .create, _ => false
  | c, n => quietWorld c n

def noLibrary : World Answer
  | .dlopen _, _ => false
  | c, n => quietWorld c n

def noElosd : World Answer
  | .flag .option, _ | .flag .elosStarted, _ => true
  | .connect _, _ => (-1 : Int)
  | c, n => quietWorld c n

def noMemoryForSyslog : World Answer
  | .flag .useSyslog, _ => true
  | .format _, _ => false
  | c, n => quietWorld c n

def noMemoryForDefaults : World Answer
  | .copyDefault _, _ => false
  | c, n => quietWorld c n

def elosTask : TaskParts :=
  { task := (sshTask "sshd").task, elosFilters := some (sshTask "sshd").elosFilters }

/-- A provider, a thread or a library that cannot be had, an elosd that does not answer and an error
that cannot be formatted leave a mutex locked. -/
theorem mutexes_forgotten :
    let after (op : Operation) (w : World Answer) := locking.replay (op.calls true w) ∅
    after (.taskDBProvideFeatureByTaskName "sshd" stateDone) quietWorld = some {.taskDB} ∧
      after (.elosdepActivate true) noThread = some {.elosdepActivated} ∧
      after (.eloslogActivate true) noLibrary = some {.eloslogActivated} ∧
      after (.taskDBInsert elosTask false) noElosd = some {.session} ∧
      after (.taskDBGetTaskState "sshd") noMemoryForSyslog = some {.log} ∧
      after .globOptInitDefault noMemoryForDefaults = none := by
  refine ⟨?_, ?_, ?_, ?_, ?_, ?_⟩ <;> decide

end Crinit.LockPath
