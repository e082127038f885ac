import Crinit.AddSeries
import Crinit.AddTask
import Crinit.Connection
import Crinit.RtimRoundTrip

/-! Which response a client gets: the handlers that only read, the choice of a handler, and the
answer to a peer without permission. -/
namespace Crinit

open Script

structure StatusEnv where
  copyOk : Bool := true
  texts : Task → List String

def execRtimCmdStatus (env : StatusEnv) (cmd : RtimCmd) : Handling RtimCmd := do
  match cmd.args with
  | [name] =>
    match ← look name true with
    | none => return errAnswer .status "Could not get access to requested task in TaskDB."
    | some pTask =>
      if !env.copyOk then return errAnswer .status "Memory allocation error."
      else return ⟨.r .status, resOk :: env.texts pTask⟩
  | _ => return errAnswer .status "Wrong number of arguments."

structure TaskListEnv where
  exportOk : Bool := true
  argsOk : Bool := true
  deriving DecidableEq, Repr

/-- Both errors behind the copy of the names are answered with R_STATUS. -/
def execRtimCmdTaskList (env : TaskListEnv) (cmd : RtimCmd) (db : TaskDB) : RtimCmd :=
  match cmd.args with
  | [] =>
    if !env.exportOk then errAnswer .status "Memory allocation error."
    else if !env.argsOk then errAnswer .status "Memory allocation error."
    else ⟨.r .taskList, resOk :: db.names⟩
  | _ => errAnswer .taskList "Wrong number of arguments."

structure Version where
  major : Fin 256
  minor : Fin 256
  micro : Fin 256
  git : String
  deriving DecidableEq, Repr

def execRtimCmdGetVer (v : Version) (cmd : RtimCmd) : RtimCmd :=
  match cmd.args with
  | [] =>
    ⟨.r .getVer, [resOk, toString v.major.val, toString v.minor.val, toString v.micro.val, v.git]⟩
  | _ => errAnswer .getVer "Wrong number of arguments."

structure ShutdownEnv where
  allocOk : Bool := true
  startOk : Bool := true
  deriving DecidableEq, Repr

def shdPoweroff : Int := 1
def shdReboot : Int := 2

/-- Up to the start of the shutdown thread. -/
def execRtimCmdShutdown (env : ShutdownEnv) (cmd : RtimCmd) : RtimCmd :=
  if !env.allocOk then errAnswer .shutdown "Memory allocation error."
  else match cmd.args with
    | [arg] =>
      let sCmd := toInt (strtol arg.toList)
      if sCmd = shdPoweroff ∨ sCmd = shdReboot then
        if !env.startOk then errAnswer .shutdown "Could not start shutdown thread."
        else okAnswer .shutdown
      else errAnswer .shutdown "Invalid argument."
    | _ => errAnswer .shutdown "Wrong number of arguments."

structure ExecEnv where
  addTask : AddTaskEnv
  addSeries : SeriesEnv
  enableAlloc : Bool := true
  disableAlloc : Bool := true
  disableDepAlloc : Bool := true
  stop : StopEnv := {}
  kill : StopEnv := {}
  restartNow : Timespec := {}
  notify : NotifyEnv := {}
  status : StatusEnv
  taskList : TaskListEnv := {}
  version : Version
  shutdown : ShutdownEnv := {}
  buildOk : Bool := true

def handle (env : ExecEnv) (x : Command) (cmd : RtimCmd) (w : World) : RtimCmd × World :=
  match x with
  | .addTask => (execRtimCmdAddTask env.addTask cmd).run machine w
  | .addSeries => (execRtimCmdAddSeries env.addSeries cmd).run machine w
  | .enable => (execRtimCmdEnable env.enableAlloc cmd).run machine w
  | .disable => (execRtimCmdDisable env.disableAlloc env.disableDepAlloc cmd).run machine w
  | .stop => (execRtimCmdStop env.stop cmd).run machine w
  | .kill => (execRtimCmdKill env.kill cmd).run machine w
  | .restart => (execRtimCmdRestart env.restartNow cmd).run machine w
  | .notify => (execRtimCmdNotify env.notify cmd).run machine w
  | .status => (execRtimCmdStatus env.status cmd).run machine w
  | .taskList => (execRtimCmdTaskList env.taskList cmd w.db, w)
  | .shutdown => (execRtimCmdShutdown env.shutdown cmd, w)
  | .getVer => (execRtimCmdGetVer env.version cmd, w)

def execRtimCmd (env : ExecEnv) (cmd : RtimCmd) (w : World) : Option RtimCmd × World :=
  match cmd.op with
  | .c x =>
    let r := handle env x cmd w
    (if env.buildOk then some r.1 else none, r.2)
  | .r _ => (none, w)

def RtimOp.code (op : RtimOp) : Nat := rtimOps.idxOf op

/-- The answer to a peer without permission has the next opcode of the enumeration. One
behind the last has no text and is not sent. -/
def deniedAnswer (buildOk : Bool) (op : RtimOp) : Option RtimCmd :=
  if !buildOk then none
  else (rtimOps[op.code + 1]?).map fun next => ⟨next, [resErr, "Permission denied."]⟩

def respond (k : Kernel) (env : ExecEnv) (creds : Ucred) (cmd : RtimCmd) (w : World) :
    Option RtimCmd :=
  if checkPerm k cmd.op creds then (execRtimCmd env cmd w).1 else deniedAnswer env.buildOk cmd.op

/-! ### Handlers that always answer for their command -/

def AnswersFor (x : Command) (res : RtimCmd) : Prop := res.op = .r x

section Always

variable {x : Command}

theorem answers_ok : AnswersFor x (okAnswer x) := rfl

theorem answers_err (msg : String) : AnswersFor x (errAnswer x msg) := rfl

theorem always_passed {m : Handling Int} {failed : Int → Prop} [DecidablePred failed]
    {msg : String} {next : Handling RtimCmd} (later : next.Always (AnswersFor x)) :
    (do if failed (← m) then return errAnswer x msg else next : Handling RtimCmd).Always
      (AnswersFor x) := by
  refine always_bind fun ret => ?_
  split_ifs
  · exact answers_err msg
  · exact later

theorem always_checked {m : Handling Int} {msg : String} :
    (do if (← m) = -1 then return errAnswer x msg else return okAnswer x : Handling RtimCmd).Always
      (AnswersFor x) :=
  always_passed answers_ok

theorem addTask_answers (env : AddTaskEnv) (cmd : RtimCmd) :
    (execRtimCmdAddTask env cmd).Always (AnswersFor .addTask) := by
  unfold execRtimCmdAddTask
  split
  · split
    · exact answers_err _
    · split
      · exact answers_err _
      · split
        · exact answers_err _
        · exact always_checked
  · exact answers_err _

theorem enable_answers (allocOk : Bool) (cmd : RtimCmd) :
    (execRtimCmdEnable allocOk cmd).Always (AnswersFor .enable) := by
  unfold execRtimCmdEnable
  split
  · split_ifs
    · exact answers_err _
    · exact always_checked
  · exact answers_err _

theorem disable_answers (allocOk depAllocOk : Bool) (cmd : RtimCmd) :
    (execRtimCmdDisable allocOk depAllocOk cmd).Always (AnswersFor .disable) := by
  unfold execRtimCmdDisable
  split
  · split_ifs
    · exact answers_err _
    · exact always_checked
  · exact answers_err _

theorem stopTask_answers (env : StopEnv) (pTask : Task) :
    (stopTask env pTask).Always (AnswersFor .stop) := by
  have reactivate : (reactivateWait .stop env.releaseOk).Always (AnswersFor .stop) :=
    always_checked
  unfold stopTask
  split_ifs
  · exact answers_err _
  · exact always_passed reactivate
  · exact answers_err _
  · exact always_passed reactivate

theorem stop_answers (env : StopEnv) (cmd : RtimCmd) :
    (execRtimCmdStop env cmd).Always (AnswersFor .stop) := by
  unfold execRtimCmdStop
  split
  · refine always_passed (always_passed (always_bind fun found => ?_))
    cases found with
    | none => exact answers_err _
    | some pTask => exact stopTask_answers env pTask
  · exact answers_err _

theorem restart_answers (now : Timespec) (cmd : RtimCmd) :
    (execRtimCmdRestart now cmd).Always (AnswersFor .restart) := by
  unfold execRtimCmdRestart
  split
  · refine always_bind fun found => ?_
    cases found with
    | none => exact answers_err _
    | some t =>
      dsimp only
      split_ifs
      · exact answers_err _
      · exact always_passed always_checked
  · exact answers_err _

theorem always_notifyState {m : Handling (Option String)} {next : Handling RtimCmd}
    (later : next.Always (AnswersFor .notify)) : (do
      match ← m with
      | some msg => return errAnswer .notify msg
      | none => next : Handling RtimCmd).Always (AnswersFor .notify) := by
  refine always_bind fun failed => ?_
  cases failed with
  | some msg => exact answers_err msg
  | none => exact later

theorem notifyStopping_answers (env : NotifyEnv) (n : NotifyArgs) (name : String) :
    (notifyStopping env n name).Always (AnswersFor .notify) := by
  unfold notifyStopping
  split_ifs
  · exact always_notifyState answers_ok
  · exact answers_ok

theorem notifyReady_answers (env : NotifyEnv) (n : NotifyArgs) (name : String) :
    (notifyReady env n name).Always (AnswersFor .notify) := by
  unfold notifyReady
  split_ifs
  · exact always_notifyState (notifyStopping_answers env n name)
  · exact notifyStopping_answers env n name

theorem notify_answers (env : NotifyEnv) (cmd : RtimCmd) :
    (execRtimCmdNotify env cmd).Always (AnswersFor .notify) := by
  unfold execRtimCmdNotify
  split
  · dsimp only
    split_ifs
    · exact always_passed (notifyReady_answers env _ _)
    · exact notifyReady_answers env _ _
  · exact answers_err _

theorem status_answers (env : StatusEnv) (cmd : RtimCmd) :
    (execRtimCmdStatus env cmd).Always (AnswersFor .status) := by
  unfold execRtimCmdStatus
  split
  · refine always_bind fun found => ?_
    cases found with
    | none => exact answers_err _
    | some pTask =>
      dsimp only
      split_ifs
      · exact answers_err _
      · exact rfl
  · exact answers_err _

theorem getVer_answers (v : Version) (cmd : RtimCmd) :
    AnswersFor .getVer (execRtimCmdGetVer v cmd) := by
  unfold execRtimCmdGetVer
  split
  · exact rfl
  · exact answers_err _

theorem shutdown_answers (env : ShutdownEnv) (cmd : RtimCmd) :
    AnswersFor .shutdown (execRtimCmdShutdown env cmd) := by
  unfold execRtimCmdShutdown
  by_cases short : (!env.allocOk) = true
  · rw [if_pos short]
    exact answers_err _
  · rw [if_neg short]
    split
    · dsimp only
      split_ifs
      · exact answers_err _
      · exact answers_ok
      · exact answers_err _
    · exact answers_err _

end Always

/-! ### Handlers with an answer of another command -/

def KillMatches (env : StopEnv) (cmd : RtimCmd) (w : World) : Prop :=
  ∀ name, cmd.args = [name] → env.inhibitOk = true ∧
    ∀ t, w.db.findTask name = some t → 0 < t.pid → env.killOk = true → env.releaseOk = true

def SeriesMatches (env : SeriesEnv) (cmd : RtimCmd) (w : World) : Prop :=
  ∀ path overwrite, cmd.args = [path, overwrite] → isAbsPath path = true → env.borrowOk = true →
    env.remitOk = true →
    env.loadSeriesOk = true → ∀ files, env.tasks = some files →
      insertsAccepted (overwrite = "true") (w.db.setSpawnInhibit true).db files = true

def TaskListMatches (env : TaskListEnv) (cmd : RtimCmd) : Prop :=
  cmd.args = [] → env.exportOk = true ∧ env.argsOk = true

theorem not_answers_err {x y : Command} (ne : y ≠ x) (msg : String) :
    ¬ AnswersFor x (errAnswer y msg) :=
  fun same => ne (RtimOp.r.inj same)

theorem killTask_answers_iff (env : StopEnv) (pid : Int) (w : World) :
    AnswersFor .kill ((killTask env pid).run machine w).1 ↔
      (0 < pid → env.killOk = true → env.releaseOk = true) := by
  unfold killTask
  by_cases none : pid ≤ 0
  · simp [none, Int.not_lt.2 none, answers_err]
  · have some : 0 < pid := Int.not_le.1 none
    cases env.killOk with
    | false => simp [none, answers_err]
    | true =>
      cases env.releaseOk with
      | false => simp [none, some, reactivateWait, not_answers_err]
      | true => simp [none, reactivateWait, answers_ok, code]

theorem kill_answers_iff (env : StopEnv) (cmd : RtimCmd) (w : World) :
    AnswersFor .kill ((execRtimCmdKill env cmd).run machine w).1 ↔ KillMatches env cmd w := by
  unfold execRtimCmdKill KillMatches
  split
  · rename_i name args
    cases env.inhibitOk with
    | false => simp [args, not_answers_err]
    | true =>
      cases found : w.db.findTask name with
      | none => simp [args, found, answers_err, code]
      | some t => simp [args, found, killTask_answers_iff, code]
  · rename_i other
    simp only [pure_eq, run_ret, answers_err, true_iff]
    exact fun name args => (other name args).elim

theorem abortSeries_answers (msg : String) : (abortSeries msg).Always (AnswersFor .addSeries) :=
  always_bind fun _ => answers_err msg

theorem addSeriesLoop_answers_iff (overwriteTasks : Bool) (files : List SeriesFile) (w : World) :
    AnswersFor .addSeries ((addSeriesLoop overwriteTasks files).run machine w).1 ↔
      insertsAccepted overwriteTasks w.db files = true := by
  induction files generalizing w with
  | nil =>
    have answers : (addSeriesLoop overwriteTasks []).Always (AnswersFor .addSeries) :=
      always_checked
    simp only [insertsAccepted, iff_true]
    exact always_run answers machine w
  | cons f rest ih =>
    simp only [addSeriesLoop, insertsAccepted, run_work]
    cases f.load with
    | error msg =>
      simp only [iff_true]
      exact always_run (abortSeries_answers msg) machine w
    | ok t =>
      by_cases refused : (w.db.insert t.task overwriteTasks f.insert).ret = -1
      · simp [insertOp_ret, refused, not_answers_err]
      · simp only [run_dbCall, insertOp_ret, refused, if_false, ne_eq, not_false_eq_true,
          decide_true, Bool.true_and]
        exact ih _

theorem addSeriesTasks_answers_iff (env : SeriesEnv) (overwrite : String) (w : World) :
    AnswersFor .addSeries ((addSeriesTasks env overwrite).run machine w).1 ↔
      (env.borrowOk = true → env.remitOk = true → env.loadSeriesOk = true →
        ∀ files, env.tasks = some files →
        insertsAccepted (overwrite = "true") w.db files = true) := by
  simp only [addSeriesTasks, run_work]
  cases env.borrowOk with
  | false => simp [answers_err]
  | true =>
    cases env.remitOk with
    | false => simp [answers_err]
    | true =>
      cases env.loadSeriesOk with
      | false => simp [answers_err]
      | true =>
        cases env.tasks with
        | none => simp [answers_err]
        | some files => simpa using addSeriesLoop_answers_iff _ files w

theorem addSeries_answers_iff (env : SeriesEnv) (cmd : RtimCmd) (w : World) :
    AnswersFor .addSeries ((execRtimCmdAddSeries env cmd).run machine w).1 ↔
      SeriesMatches env cmd w := by
  unfold execRtimCmdAddSeries SeriesMatches
  split
  · rename_i path overwrite args
    by_cases absolute : isAbsPath path = true
    · have lifted : (-1 : Int) ≠ 0 := by decide
      simp only [absolute, Bool.not_true, Bool.false_eq_true, if_false, run_dbCall,
        setSpawnInhibit_ret,
        Ne.symm lifted, addSeriesTasks_answers_iff, args]
      constructor
      · intro accepted path' overwrite' same _
        cases same
        exact accepted
      · exact fun accepted => accepted path overwrite rfl absolute
    · simp only [absolute, Bool.not_false, if_true, pure_eq, run_ret, answers_err, true_iff, args]
      intro path' overwrite' same there
      cases same
      exact (absolute there).elim
  · rename_i other
    simp only [pure_eq, run_ret, answers_err, true_iff]
    exact fun path overwrite args => (other path overwrite args).elim

theorem taskList_answers_iff (env : TaskListEnv) (cmd : RtimCmd) (db : TaskDB) :
    AnswersFor .taskList (execRtimCmdTaskList env cmd db) ↔ TaskListMatches env cmd := by
  unfold execRtimCmdTaskList TaskListMatches
  split
  · rename_i args
    cases env.exportOk with
    | false => simp [args, not_answers_err]
    | true =>
      cases env.argsOk with
      | false => simp [args, not_answers_err]
      | true => simp [args, AnswersFor]
  · rename_i some
    simp only [answers_err, true_iff]
    exact fun none => (some none).elim

def Matches (env : ExecEnv) (x : Command) (cmd : RtimCmd) (w : World) : Prop :=
  match x with
  | .addSeries => SeriesMatches env.addSeries cmd w
  | .kill => KillMatches env.kill cmd w
  | .taskList => TaskListMatches env.taskList cmd
  | _ => True

theorem handle_answers_iff (env : ExecEnv) (x : Command) (cmd : RtimCmd) (w : World) :
    AnswersFor x (handle env x cmd w).1 ↔ Matches env x cmd w := by
  cases x with
  | addTask => exact iff_of_true (always_run (addTask_answers env.addTask cmd) machine w) trivial
  | addSeries => exact addSeries_answers_iff env.addSeries cmd w
  | enable => exact iff_of_true (always_run (enable_answers env.enableAlloc cmd) machine w) trivial
  | disable =>
    exact iff_of_true (always_run (disable_answers env.disableAlloc env.disableDepAlloc cmd)
      machine w) trivial
  | stop => exact iff_of_true (always_run (stop_answers env.stop cmd) machine w) trivial
  | kill => exact kill_answers_iff env.kill cmd w
  | restart => exact iff_of_true (always_run (restart_answers env.restartNow cmd) machine w) trivial
  | notify => exact iff_of_true (always_run (notify_answers env.notify cmd) machine w) trivial
  | status => exact iff_of_true (always_run (status_answers env.status cmd) machine w) trivial
  | taskList => exact taskList_answers_iff env.taskList cmd w.db
  | shutdown => exact iff_of_true (shutdown_answers env.shutdown cmd) trivial
  | getVer => exact iff_of_true (getVer_answers env.version cmd) trivial

/-- Requests and responses alternate in the enumeration. -/
theorem denied_answers (buildOk : Bool) (x : Command) :
    ∀ res ∈ deniedAnswer buildOk (.c x), AnswersFor x res := by
  have next : rtimOps[(RtimOp.c x).code + 1]? = some (.r x) := by cases x <;> decide
  intro res sent
  unfold deniedAnswer at sent
  rw [next] at sent
  split_ifs at sent
  · cases sent
  · cases sent
    exact rfl

/-- A response has the opcode that the client waits for, unless KILL fails to inhibit or
reactivate waiting, an insertion of ADDSERIES is refused or TASKLIST runs out of memory. -/
theorem response_matches_iff (k : Kernel) (env : ExecEnv) (creds : Ucred) (x : Command)
    (args : List String)
    (w : World) : (∀ res ∈ respond k env creds ⟨.c x, args⟩ w, AnswersFor x res) ↔
      (checkPerm k (.c x) creds = true → env.buildOk = true → Matches env x ⟨.c x, args⟩ w) := by
  unfold respond
  by_cases permitted : checkPerm k (.c x) creds = true
  · rw [if_pos permitted]
    cases built : env.buildOk with
    | false => simp [execRtimCmd, built]
    | true => simp [execRtimCmd, built, permitted, handle_answers_iff]
  · rw [if_neg permitted]
    exact iff_of_true (denied_answers env.buildOk x) fun granted => (permitted granted).elim

def rootCreds : Ucred := ⟨17, 0, 0⟩

def webTask : NewTask := ⟨{ name := "web", cmds := [["/bin/web"]] }, rfl, rfl, rfl, rfl, rfl⟩

def shortEnv : ExecEnv where
  addTask := { conf := none, create := fun _ => none }
  addSeries := { tasks := some [{ fname := "/etc/crinit/web.crinit", create := some webTask }] }
  kill := { inhibitOk := false }
  status := { texts := fun _ => [] }
  taskList := { exportOk := false }
  version := ⟨0, 17, 0, ""⟩

def webLoaded : World := { db := { taskSet := [webTask.task] } }

def answerTo (x : Command) (args : List String) : Option RtimOp :=
  (respond bootDaemon shortEnv rootCreds ⟨.c x, args⟩ webLoaded).map RtimCmd.op

/-- Three commands get the response of another one. -/
theorem answered_for_another : answerTo .kill ["web"] = some (.r .stop) ∧
    answerTo .addSeries ["/etc/crinit/all.series", "false"] = some (.r .addTask) ∧
    answerTo .taskList [] = some (.r .status) := by
  decide

end Crinit
