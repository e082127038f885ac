import Crinit.Credentials
import Crinit.TimerAdd

/-! The handlers of the keys of a task configuration, on the task under construction. -/
namespace Crinit

/-- Environment, IO redirections and cgroup are of types that only their own conversions look into.
-/
structure TaskDraft (Env Redir Cgroup : Type) where
  name : Option String := none
  cmds : List (List String) := []
  stopCmds : List (List String) := []
  deps : List TaskDep := []
  trig : List TaskDep := []
  prv : List TaskPrv := []
  opts : TaskOpts := 0#64
  maxRetries : Int := -1
  taskEnv : Env
  elosFilters : Env
  redirs : List Redir := []
  creds : Credentials := {}
  capabilitiesSet : BitVec 64 := 0#64
  capabilitiesClear : BitVec 64 := 0#64
  cgroup : Option Cgroup := none

structure HandlerEnv (Env Redir Cgroup : Type) where
  enableElos : Bool := true
  sys : TimerSys := {}
  users : IdDb
  groups : IdDb
  capFromName : String → Option (Fin 64)
  envSetMember : Env → String → Option Env
  ioRedir : String → Option Redir
  /-- `crinitCfgCgroupNameHandler` and `crinitCfgCgroupParamsHandler`. -/
  cgroupName : Option Cgroup → String → Option Cgroup
  cgroupParams : Option Cgroup → String → Option Cgroup

structure Build (Env Redir Cgroup : Type) where
  draft : TaskDraft Env Redir Cgroup
  pool : TimerDB

inductive BuildStop
  | failed (pool : TimerDB)
  | undefined

variable {Env Redir Cgroup : Type}

abbrev Building (Env Redir Cgroup : Type) := Except BuildStop (Build Env Redir Cgroup)

def Build.fail (b : Build Env Redir Cgroup) : Building Env Redir Cgroup := .error (.failed b.pool)

def Build.set (b : Build Env Redir Cgroup) (draft : Option (TaskDraft Env Redir Cgroup)) :
    Building Env Redir Cgroup :=
  match draft with
  | none => b.fail
  | some draft => .ok { b with draft := draft }

theorem set_ok {b b' : Build Env Redir Cgroup} {draft : Option (TaskDraft Env Redir Cgroup)}
    (ok : b.set draft = .ok b') : draft = some b'.draft ∧ b'.pool = b.pool := by
  cases draft with
  | none => cases ok
  | some d =>
    cases ok
    exact ⟨rfl, rfl⟩

theorem set_defined (b : Build Env Redir Cgroup) (draft : Option (TaskDraft Env Redir Cgroup)) :
    b.set draft ≠ .error .undefined := by
  cases draft <;> exact fun undefined => nomatch undefined

def toUpper (c : Char) : Char :=
  if 97 ≤ c.toNat ∧ c.toNat ≤ 122 then Char.ofNat (c.toNat - 32) else c

def isWord (s capitals : String) : Bool := s.toList.map toUpper = capitals.toList

def confConvToBool (val : String) : Option Bool :=
  if isWord val "YES" then some true else if isWord val "NO" then some false else none

def setTaskOptFromStr (opts opt : TaskOpts) (val : String) : Option TaskOpts :=
  (confConvToBool val).map fun b => if b then opts ||| opt else opts &&& ~~~opt

/-- The mask is built from zero, whatever it was. -/
def capConvertToBitmask (capFromName : String → Option (Fin 64)) (capabilities : String) :
    Option (BitVec 64) := do
  let names ← confConvToStrArr capabilities true
  let caps ← names.mapM capFromName
  return caps.foldl (fun mask cap => mask ||| 1#64 <<< cap.val) 0#64

def capNumber (name : String) : Option (Fin 64) :=
  if name = "CAP_NET_RAW" then some 13 else if name = "CAP_SYS_ADMIN" then some 21 else none

/-- The comparison with `wait` takes the length of `spawn`, so that nothing may follow it. -/
def parsePrv (text : String) : Option TaskPrv :=
  let name := text.toList.takeWhile (· != ':')
  match text.toList.dropWhile (· != ':') with
  | [] => none
  | _ :: state =>
    let stateReq :=
      if eventRunning.toList.isPrefixOf state then some stateRunning
      else if state = eventDone.toList then some stateDone
      else if eventFailed.toList.isPrefixOf state then some stateFailed
      else none
    stateReq.map fun stateReq =>
      ⟨String.ofList name, if state.dropWhile (· != '-') =
        eventNotifySuffix.toList then stateReq ||| stateNotified
        else stateReq⟩

section Handlers

variable (env : HandlerEnv Env Redir Cgroup)

def depEntries (val : String) : Option (List DepEntry) :=
  (confConvToStrArr val false).map fun toks => toks.map fun tok => ⟨tok, true, env.sys⟩

def handleDepends (val : String) (b : Build Env Redir Cgroup) : Building Env Redir Cgroup :=
  let r := depListHandler env.enableElos (depEntries env val) true b.draft.deps b.pool
  if r.ret = -1 then .error (.failed r.pool) else .ok ⟨{ b.draft with deps := r.list }, r.pool⟩

def handleTrigger (val : String) (b : Build Env Redir Cgroup) : Building Env Redir Cgroup :=
  let r := depListHandler env.enableElos (depEntries env val) true b.draft.trig b.pool
  if r.ret = -1 then .error (.failed r.pool) else .ok ⟨{ b.draft with trig := r.list }, r.pool⟩

variable (val : String) (d : TaskDraft Env Redir Cgroup)

def cfgCmdHandler : Option (TaskDraft Env Redir Cgroup) :=
  (confConvToStrArr val true).map fun argv => { d with cmds := d.cmds ++ [argv] }

def cfgStopCmdHandler : Option (TaskDraft Env Redir Cgroup) :=
  (confConvToStrArr val true).map fun argv => { d with stopCmds := d.stopCmds ++ [argv] }

def cfgCapClearHandler : Option (TaskDraft Env Redir Cgroup) :=
  (capConvertToBitmask env.capFromName val).map fun mask => { d with capabilitiesClear := mask }

def cfgCapSetHandler : Option (TaskDraft Env Redir Cgroup) :=
  (capConvertToBitmask env.capFromName val).map fun mask => { d with capabilitiesSet := mask }

def cfgPrvHandler : Option (TaskDraft Env Redir Cgroup) := do
  let tempPrvs ← confConvToStrArr val false
  let prv ← tempPrvs.mapM parsePrv
  return { d with prv := d.prv ++ prv }

def cfgEnvHandler : Option (TaskDraft Env Redir Cgroup) :=
  (env.envSetMember d.taskEnv val).map fun taskEnv => { d with taskEnv := taskEnv }

def cfgFilterHandler : Option (TaskDraft Env Redir Cgroup) :=
  if !env.enableElos then none
  else (env.envSetMember d.elosFilters val).map fun elosFilters =>
    { d with elosFilters := elosFilters }

def cfgIoRedirHandler : Option (TaskDraft Env Redir Cgroup) :=
  (env.ioRedir val).map fun redir => { d with redirs := d.redirs ++ [redir] }

def cfgNameHandler : Option (TaskDraft Env Redir Cgroup) := some { d with name := some val }

def cfgRespHandler : Option (TaskDraft Env Redir Cgroup) :=
  (setTaskOptFromStr d.opts optRespawn val).map fun opts => { d with opts := opts }

def cfgTrigRearmHandler : Option (TaskDraft Env Redir Cgroup) :=
  (setTaskOptFromStr d.opts optTriggerRearm val).map fun opts => { d with opts := opts }

def cfgRespRetHandler : Option (TaskDraft Env Redir Cgroup) :=
  let r := confConvToInteger .int d.maxRetries val 10
  if r.1 = -1 then none else some { d with maxRetries := r.2 }

def handleCgroupName : Option (TaskDraft Env Redir Cgroup) :=
  (env.cgroupName d.cgroup val).map fun cgroup => { d with cgroup := some cgroup }

def handleCgroupParams : Option (TaskDraft Env Redir Cgroup) :=
  (env.cgroupParams d.cgroup val).map fun cgroup => { d with cgroup := some cgroup }

def handleUser : Option (TaskDraft Env Redir Cgroup) :=
  (cfgUserHandler env.users d.creds val).map fun creds => { d with creds := creds }

def handleGroup : Option (TaskDraft Env Redir Cgroup) :=
  (cfgGroupHandler env.groups d.creds val).map fun creds => { d with creds := creds }

end Handlers

theorem cfgPrvHandler_iff {val : String} {d d' : TaskDraft Env Redir Cgroup} :
    cfgPrvHandler val d = some d' ↔
    ∃ toks prv, confConvToStrArr val false = some toks ∧ toks.mapM parsePrv = some prv ∧
      { d with prv := d.prv ++ prv } = d' := by
  simp [cfgPrvHandler, Option.bind_eq_some_iff]

end Crinit
