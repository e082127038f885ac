import Mathlib.Data.List.Basic

/-! The task record of `task.h` and the state words of `crinit-sdefs.h`, with the fields that the
modelled functions read or write. -/
namespace Crinit

/-- `crinitTaskState_t`, an `unsigned long` bit mask. -/
abbrev TaskState := BitVec 64

def stateLoaded : TaskState := 0#64
def stateStarting : TaskState := 1#64
def stateRunning : TaskState := 2#64
def stateDone : TaskState := 4#64
def stateFailed : TaskState := 8#64
def stateNotified : TaskState := 16#64

def anyBit (s mask : BitVec 64) : Bool := s &&& mask != 0#64

theorem anyBit_or (s a b : BitVec 64) : anyBit s (a ||| b) = (anyBit s a || anyBit s b) := by
  have zero : s &&& (a ||| b) = 0#64 ↔ s &&& a = 0#64 ∧ s &&& b = 0#64 := by
    rw [BitVec.and_or_distrib_left, BitVec.or_eq_zero_iff]
  unfold anyBit
  rw [Bool.eq_iff_iff]
  simp only [bne_iff_ne, ne_eq, Bool.or_eq_true, zero]
  exact not_and_or

abbrev TaskOpts := BitVec 64

def optRespawn : TaskOpts := 1#64
def optTriggerRearm : TaskOpts := 2#64

def eventRunning : String := "spawn"
def eventDone : String := "wait"
def eventFailed : String := "fail"
def eventNotifySuffix : String := "-notified"
def provideDepName : String := "@provided"
def timerDepName : String := "@timer"

structure TaskDep where
  name : String
  event : String
  deriving DecidableEq, Repr

structure TaskPrv where
  name : String
  stateReq : TaskState
  deriving DecidableEq, Repr

structure Timespec where
  sec : Int := 0
  nsec : Int := 0
  deriving DecidableEq, Repr

/-- What an `int` keeps of a number. -/
def toInt (v : Int) : Int := Int.bmod v 0x100000000

structure Task where
  name : String
  cmds : List (List String) := []
  stopCmds : List (List String) := []
  deps : List TaskDep := []
  trig : List TaskDep := []
  triggered : Bool := true
  prv : List TaskPrv := []
  opts : TaskOpts := 0#64
  state : TaskState := stateLoaded
  pid : Int := -1
  maxRetries : Int := -1
  failCount : Int := 0
  inhibitRespawn : Bool := false
  createTime : Timespec := {}
  startTime : Timespec := {}
  endTime : Timespec := {}
  deriving DecidableEq, Repr

def Task.respawn (t : Task) : Bool := anyBit t.opts optRespawn
def Task.triggerRearm (t : Task) : Bool := anyBit t.opts optTriggerRearm

def busy (s : TaskState) : Bool := anyBit s (stateRunning ||| stateStarting)

/-- A task as `crinitTaskCreateFromConfKvList` hands it to the TaskDB: zeroed
memory, no PID, and an empty trigger list counts as triggered. -/
structure NewTask where
  task : Task
  loaded : task.state = stateLoaded
  noPid : task.pid = -1
  noFailures : task.failCount = 0
  notInhibited : task.inhibitRespawn = false
  untriggered : task.triggered = task.trig.isEmpty

def taskIsReady (t : Task) : Bool :=
  if t.deps.length != 0 then false
  else if !t.triggered then false
  else if anyBit t.state (stateRunning ||| stateStarting) then false
  else if t.respawn && t.inhibitRespawn then false
  else if anyBit t.state (stateFailed ||| stateDone) then
    if !t.respawn then false
    else if t.maxRetries != -1 && t.failCount > t.maxRetries then false
    else true
  else true

theorem ready_iff (t : Task) : taskIsReady t = true ↔
    t.deps = [] ∧ t.triggered = true ∧ busy t.state = false ∧
    (t.respawn = true → t.inhibitRespawn = false) ∧
    (anyBit t.state (stateFailed ||| stateDone) = true →
      t.respawn = true ∧ (t.maxRetries = -1 ∨ t.failCount ≤ t.maxRetries)) := by
  unfold taskIsReady busy
  cases hd : t.deps with
  | cons d ds => simp
  | nil =>
    cases t.triggered <;> cases anyBit t.state (stateRunning ||| stateStarting) <;>
      cases t.respawn <;> cases t.inhibitRespawn <;>
      cases anyBit t.state (stateFailed ||| stateDone) <;> simp

theorem ready_deps {t : Task} (h : taskIsReady t = true) : t.deps = [] := ((ready_iff t).mp h).1

theorem ready_triggered {t : Task} (h : taskIsReady t = true) : t.triggered = true :=
  ((ready_iff t).mp h).2.1

theorem ready_not_busy {t : Task} (h : taskIsReady t = true) : busy t.state = false :=
  ((ready_iff t).mp h).2.2.1

theorem ready_ended {t : Task} (h : taskIsReady t = true)
    (ended : anyBit t.state (stateFailed ||| stateDone) = true) : t.respawn = true :=
  (((ready_iff t).mp h).2.2.2.2 ended).1

end Crinit
