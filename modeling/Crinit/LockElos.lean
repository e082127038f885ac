import Crinit.LockPaths

/-! The ways through `task.c`, `eloslog.c`, `elosdep.c`, `elos-common.c` and `optfeat.c` that the
operations on the databases take. -/
namespace Crinit.LockPath

open CallTree List

/-- The mutex is the one of the option store; its failure is not seen. -/
def cgroupNameIsGlobalCgroup : Path Bool := do
  let _ ← lock .globOpt
  let n ← complaints
  errPrints n
  let isGlobal ← flag .isGlobal
  let _ ← globOptRemit
  return isGlobal

def destroyTask : Option CgroupParts → Path Unit
  | none => return ()
  | some _ => do
    let _ ← cgroupNameIsGlobalCgroup
    return ()

def copyCommand (argv : List String) : Path Bool :=
  if argv.isEmpty then failWith false else allOf [allocate 1, allocate 1]

def copyCommandBlock (cmds : List (List String)) : Path Bool := do
  if cmds.isEmpty then return true
  else do
    dbgInfoPrint
    allOf (allocate 1 :: cmds.map copyCommand)

def copyEntries {A : Type} (copyEntry : A → Path Bool) (entries : List A) : Path Bool :=
  if entries.isEmpty then return true else allOf (allocate 1 :: entries.map copyEntry)

def copyString {A : Type} (_ : A) : Path Bool := allocate 1

def ioRedirCpy (path : Bool) : Path Bool := if path then allocate 1 else return true

def copyIf (present : Bool) (messages : Nat) : Path Bool :=
  if present then allocate messages else return true

def copySteps (t : TaskParts) : List (Path Bool) :=
  [allocate 1, copyCommandBlock t.task.cmds, copyCommandBlock t.task.stopCmds,
    reported (envSetDup t.taskEnv), reported (envSetDup t.elosFilters),
    copyEntries copyString t.task.deps, copyEntries copyString t.task.trig,
    copyEntries copyString t.task.prv,
      copyEntries (fun path => reported (ioRedirCpy path)) t.redirs,
    copyIf t.username 1, copyIf t.groupname 1, copyIf t.supGroups 0]

/-- Both strings are copied before either is checked. -/
def copyCgroupParam : Path Bool := do
  let filename ← lib .alloc
  let option ← lib .alloc
  return filename && option

def copyCgroupConfiguration (params : Nat) : Path Bool :=
  if params = 0 then return true else allOf (allocate 1 :: List.replicate params copyCgroupParam)

def copyCgroup (cgroup : CgroupParts) : Path Bool :=
  match cgroup.config with
  | none => allocate 2
  | some params => allOf [allocate 1, reported (copyCgroupConfiguration params), allocate 1]

def taskCopy (t : TaskParts) : Path Bool := do
  if ← allOf (copySteps t) then
    match t.cgroup with
    | none => return true
    | some cgroup =>
      if ← cgroupNameIsGlobalCgroup then return true
      else if ← lib .alloc then
        if ← copyCgroup cgroup then return true
        else do
          destroyTask (some cgroup)
          return false
      else return false
  else return false

/-- After a failed copy, `crinitFreeTask` finds no cgroup any more. -/
def taskDup (t : TaskParts) : Path Bool := do
  if ← allocate 1 then reported (taskCopy t) else return false

section Tasks

variable {k : Nat}

theorem cgroupNameIsGlobalCgroup_orderly (level : 2 ≤ k) : Ordered k cgroupNameIsGlobalCgroup := by
  refine lock_orderly level fun got => ?_
  refine closing_bind complaints_orderly level fun n => ?_
  refine closing_bind (errPrints_orderly (by decide) n) level fun _ => ?_
  refine closing_bind (flag_orderly _) level fun _ => ?_
  exact closing_then (globOptRemit_closing level) fun _ => orderly_pure

theorem destroyTask_orderly (level : 2 ≤ k) (cgroup : Option CgroupParts) :
    Ordered k (destroyTask cgroup) := by
  cases cgroup with
  | none => exact orderly_pure
  | some cgroup => exact orderly_bind (cgroupNameIsGlobalCgroup_orderly level) fun _ => orderly_pure

theorem alloc_orderly (level : 1 ≤ k) (messages : Nat) :
    Ordered k (allocate messages) := allocate_orderly level messages

theorem copyCommandBlock_orderly (level : 2 ≤ k) (cmds : List (List String)) :
    Ordered k (copyCommandBlock cmds) := by
  refine orderly_if (fun _ => orderly_pure) fun _ => ?_
  refine orderly_bind (dbgInfoPrint_orderly level) fun _ => ?_
  refine allocated_orderly (by omega) _ (List.forall_mem_map.mpr fun argv _ => ?_)
  refine orderly_if (fun _ => failWith_orderly (by omega) _) fun _ => ?_
  exact allocated_orderly (by omega) _
    (List.forall_mem_singleton.mpr (alloc_orderly (by omega) _))

theorem copyEntries_orderly {A : Type} {copyEntry : A → Path Bool} (level : 1 ≤ k)
    (each : ∀ a, Ordered k (copyEntry a)) (entries : List A) :
    Ordered k (copyEntries copyEntry entries) := by
  refine orderly_if (fun _ => orderly_pure) fun _ => ?_
  exact allocated_orderly level _ (List.forall_mem_map.mpr fun a _ => each a)

theorem copyIf_orderly (level : 1 ≤ k) (present : Bool) (messages : Nat) :
    Ordered k (copyIf present messages) :=
  orderly_if (fun _ => alloc_orderly level messages) fun _ => orderly_pure

theorem copySteps_orderly (level : 2 ≤ k) (t : TaskParts) : ∀ p ∈ copySteps t, Ordered k p := by
  have low : 1 ≤ k := by omega
  have strings : ∀ {A : Type} (entries : List A),
      Ordered k (copyEntries copyString entries) :=
    fun entries => copyEntries_orderly low (fun _ => alloc_orderly low 1) entries
  have sets : ∀ es, Ordered k (reported (envSetDup es)) :=
    fun es => reported_orderly low (envSetDup_orderly low es)
  have redirs : ∀ path, Ordered k (reported (ioRedirCpy path)) :=
    fun path => reported_orderly low (copyIf_orderly low path 1)
  simp only [copySteps, forall_mem_cons]
  refine ⟨alloc_orderly low 1, copyCommandBlock_orderly level _, copyCommandBlock_orderly level _,
    sets _, sets _, strings _, strings _, strings _, copyEntries_orderly low redirs _,
    copyIf_orderly low _ _, copyIf_orderly low _ _, copyIf_orderly low _ _, ?_⟩
  exact fun p mem => absurd mem not_mem_nil

theorem copyCgroup_orderly (level : 1 ≤ k) (cgroup : CgroupParts) :
    Ordered k (copyCgroup cgroup) := by
  unfold copyCgroup
  cases cgroup.config with
  | none => exact alloc_orderly level _
  | some params =>
    have param : Ordered k copyCgroupParam :=
      orderly_bind (lib_orderly _) fun _ =>
        orderly_bind (lib_orderly _) fun _ => orderly_pure
    have config : Ordered k (copyCgroupConfiguration params) := by
      refine orderly_if (fun _ => orderly_pure) fun _ => ?_
      refine allocated_orderly level _ fun p mem => ?_
      rw [eq_of_mem_replicate mem]
      exact param
    refine allocated_orderly level _ (List.forall_mem_cons.mpr ⟨?_, ?_⟩)
    · exact reported_orderly level config
    · exact List.forall_mem_singleton.mpr (alloc_orderly level _)

theorem taskCopy_orderly (level : 2 ≤ k) (t : TaskParts) : Ordered k (taskCopy t) := by
  refine orderly_check (allOf_orderly (copySteps_orderly level t)) ?_ orderly_pure
  cases t.cgroup with
  | none => exact orderly_pure
  | some cgroup =>
    refine orderly_check (cgroupNameIsGlobalCgroup_orderly level) orderly_pure ?_
    refine orderly_check (lib_orderly _) ?_ orderly_pure
    refine orderly_check (copyCgroup_orderly (by omega) cgroup) orderly_pure ?_
    exact orderly_bind (destroyTask_orderly level _) fun _ => orderly_pure

theorem taskDup_orderly (level : 2 ≤ k) (t : TaskParts) : Ordered k (taskDup t) := by
  refine orderly_check (alloc_orderly (by omega) _) ?_ ?_
  · exact reported_orderly (by omega) (taskCopy_orderly level t)
  · exact orderly_pure

end Tasks

def elosLog : Path Int := do
  match ← globOptGetBoolean with
  | none => failWith (-1)
  | some false => return 0
  | some true =>
    if ← lib .alloc then
      if ← lib .alloc then
        if ← lib .clockGettime then
          dbgInfoPrint
          let result ← ringWrite
          if result = 0 then
            if ← lock .transmit then
              if ← lib .condSignal then
                if ← unlock .transmit then return result else failWith (-1)
              else do
                errPrint
                let _ ← unlock .transmit
                return -1
            else failWith (-1)
          else failWith result
        else failWith (-1)
      else failWith (-1)
    else failWith (-1)

def elosInitExit (user : ElosUser) (res : Bool) : Path Bool := do
  if ← unlockVTable user then return res else failWith false

def elosServer (user : ElosUser) : Path Bool := do
  if (← globOptGetString) = -1 then
    dbgInfoPrint
    if ← copyServer user then return true else failWith false
  else return true

def elosPort : Path Unit := do
  if (← globOptNumber) = -1 then errPrint else return ()

/-- `crinitElosInit`, with whether it returns 0. It does when a symbol is missing. -/
def elosInit (user : ElosUser) : Path Bool := do
  if ← lockVTable user then
    if ← flag .vtableLoaded then elosInitExit user true
    else do
      dbgInfoPrint
      if ← elosServer user then
        elosPort
        dbgInfoPrint
        if ← dlopen user then
          if ← lib .dlsym then elosInitExit user true
          else do
            errPrint
            elosInitExit user true
        else do
          errPrint
          elosInitExit user false
      else elosInitExit user false
  else failWith false

def startThread (started : Path Int) : Path Int := do
  if ← thread .attrInit then
    if ← thread .setDetachState then
      if ← thread .setStackSize then
        dbgInfoPrint
        if ← thread .create then
          if ← thread .attrDestroy then started else failWith (-1)
        else failWith (-1)
      else failWith (-1)
    else failWith (-1)
  else failWith (-1)

def activated (m : Lock) : Path Int := do
  if ← unlock m then return 0 else failWith (-1)

/-- `crinitElosdepInitThreadContext` does not look at what `crinitElosInit` returns. -/
def elosdepActivate (e : Bool) : Path Int := do
  if ← lock .elosdepActivated then
    let active ← flag (.activated .elosdep)
    if e && !active then
      let _ ← elosInit .elosdep
      startThread (activated .elosdepActivated)
    else activated .elosdepActivated
  else failWith (-1)

def eloslogActivate (e : Bool) : Path Int := do
  if ← lock .eloslogActivated then
    let active ← flag (.activated .eloslog)
    if e && !active then
      if ← elosInit .eloslog then startThread (activated .eloslogActivated) else failWith (-1)
    else activated .eloslogActivated
  else failWith (-1)

def eloslogInit : Path Int := do
  infoPrint
  if ← lib .alloc then return 0 else failWith (-1)

/-- `CRINIT_ELOS_CONNECTION_RETRIES`. -/
def connectionRetries : Nat := 10

def connect : Nat → Path Int
  | 0 => do
    if ← server then
      let res ← connectOnce 0
      if res = 0 then return 0
      else do
        dbgInfoPrint
        failWith res
    else failWith (-1)
  | retries + 1 => do
    if ← server then
      let res ← connectOnce (retries + 1)
      if res = 0 then return 0
      else do
        dbgInfoPrint
        connect retries
    else failWith (-1)

/-- Only this part of `crinitElosTryExec` unlocks the session. -/
def execConnected : Path Int := do
  let res ← exec
  if res = 0 then
    if ← unlock .session then return res else failWith (-1)
  else do
    errPrint
    if ← unlock .session then return res else failWith (-1)

def elosTryExec : Path Int := do
  if ← lock .session then
    if ← flag .connected then execConnected
    else do
      let res ← connect connectionRetries
      if res = 0 then execConnected else return res
  else failWith (-1)

def elosdepFilterSubscribe : Path Int := do
  dbgInfoPrint
  elosTryExec

def elosdepFilterFromEnvSet (es : EnvSet) (name : String) : Path Bool :=
  if '=' ∈ name.toList then failWith false
  else if es.envp.any (isEntry name.toList) then allocate 1
  else return false

def elosdepFilterRegister : Path Bool := do
  if ← lock .filters then
    if ← unlock .filters then return true else failWith false
  else failWith false

def registerFilter (t : TaskParts) (dep : TaskDep) : Path Int := do
  dbgInfoPrint
  if ← elosdepFilterFromEnvSet (t.elosFilters.getD .empty) dep.event then
    if ← elosdepFilterRegister then
      if ← flag .elosStarted then
        let res ← elosdepFilterSubscribe
        if res = 0 then return 0 else failWith res
      else return 0
    else failWith (-1)
  else failWith (-1)

/-- `listed` is whether `*filterTask` is set, also in the result. -/
def elosdepRegisterFilterDep (t : TaskParts) (dep : TaskDep) (listed : Bool) : Path (Int × Bool) :=
  do
  if isElos dep then
    dbgInfoPrint
    if listed then
      let res ← registerFilter t dep
      return (res, true)
    else if ← lib .alloc then
      if ← lib .mutexInit then
        if ← lock .filterTasks then
          if ← unlock .filterTasks then
            let res ← registerFilter t dep
            return (res, true)
          else failWith (-1, true)
        else failWith (-1, true)
      else failWith (-1, true)
    else failWith (-1, false)
  else return (0, listed)

def registerLoop (t : TaskParts) : List TaskDep → Int × Bool → Path (Int × Bool)
  | [], r => return r
  | dep :: deps, r => do
    let r ← elosdepRegisterFilterDep t dep r.2
    if r.1 = 0 then registerLoop t deps r else return r

def elosdepTaskAdded (t : TaskParts) : Path Int := do
  dbgInfoPrint
  let r ← registerLoop t t.task.deps (0, false)
  let r ← registerLoop t t.task.trig r
  return r.1

section Elos

variable {k : Nat} {bad : Answered Answer → Prop} {user : ElosUser} {got : Bool}
    {m : Lock} {B : Type}

theorem elosLog_orderly (level : 2 ≤ k) : Ordered k elosLog := by
  have low : 1 ≤ k := by omega
  have fails : ∀ res : Int, Ordered k (failWith res) :=
    failWith_orderly low
  refine orderly_bind (globOptGetBoolean_orderly level) fun sendEvents => ?_
  match sendEvents with
  | none => exact fails _
  | some false => exact orderly_pure
  | some true =>
    refine orderly_check (lib_orderly _) ?_ (fails _)
    refine orderly_check (lib_orderly _) ?_ (fails _)
    refine orderly_check (lib_orderly _) ?_ (fails _)
    refine orderly_bind (dbgInfoPrint_orderly level) fun _ => ?_
    refine orderly_bind (orderly_ask (fun _ => rfl) fun _ => Bool.false_ne_true) fun (res : Int) =>
      ?_
    refine orderly_if (fun _ => ?_) fun _ => fails _
    refine locked_orderly level (fails _) ?_
    refine closing_check (lib_orderly _) level ?_ ?_
    · exact unlock_closing fun _ => orderly_if (fun _ => orderly_pure) fun _ =>
        fails _
    · refine closing_bind (errPrint_orderly (by decide)) level fun _ => ?_
      exact unlock_closing fun _ => orderly_pure

/-! ### The elos interface and the threads -/

structure Quiet (bad : Answered Answer → Prop) (user : ElosUser) : Prop where
  lockVTable : ∀ ok : Bool, ¬bad ⟨.lockVTable user, ok⟩
  unlockVTable : ∀ ok : Bool, ¬bad ⟨.unlockVTable user, ok⟩
  copyServer : ∀ ok : Bool, ¬bad ⟨.copyServer user, ok⟩
  dlopen : ∀ ok : Bool, ¬bad ⟨.dlopen user, ok⟩

theorem elosInitExit_closing [Plain bad] (quiet : Quiet bad user) (level : 3 ≤ k)
    (res : Bool) : Closing locking bad k .vtable got (elosInitExit user res) :=
  closing_unlock (fun _ => rfl) quiet.unlockVTable fun (_ : Bool) =>
    orderly_if (fun _ => orderly_pure) fun _ => failWith_orderly (by omega) _

theorem elosServer_orderly [Plain bad] (quiet : Quiet bad user) (level : 2 ≤ k) :
    Orderly locking bad k (elosServer user) := by
  refine orderly_check (globOptGetString_orderly level) ?_ orderly_pure
  refine orderly_bind (dbgInfoPrint_orderly level) fun _ => ?_
  refine orderly_check (orderly_ask (fun _ => rfl) quiet.copyServer) orderly_pure
    (failWith_orderly (by omega) _)

theorem elosPort_orderly [Plain bad] (level : 2 ≤ k) : Orderly locking bad k elosPort :=
  orderly_check (globOptNumber_orderly level) (errPrint_orderly (by omega)) orderly_pure

theorem elosInit_orderly [Plain bad] (quiet : Quiet bad user) (level : 3 ≤ k) :
    Orderly locking bad k (elosInit user) := by
  refine orderly_lock (fun got => got) (fun _ => rfl) quiet.lockVTable level fun (got : Bool) => ?_
  have exits : ∀ res, Closing locking bad k .vtable true (elosInitExit user res) :=
    elosInitExit_closing quiet level
  have reports : ∀ res, Closing locking bad k .vtable true
    (errPrint >>= fun _ => elosInitExit user res) :=
    fun res => closing_bind (errPrint_orderly (by decide)) level fun _ => exits res
  cases got with
  | false => exact closing_refused (failWith_orderly (by omega) _)
  | true =>
    refine closing_check (flag_orderly _) level (exits true) ?_
    refine closing_bind (dbgInfoPrint_orderly (by decide)) level fun _ => ?_
    refine closing_check (elosServer_orderly quiet (by decide)) level ?_ (exits false)
    refine closing_bind (elosPort_orderly (by decide)) level fun _ => ?_
    refine closing_bind (dbgInfoPrint_orderly (by decide)) level fun _ => ?_
    refine closing_check (orderly_ask (fun _ => rfl) quiet.dlopen) level ?_ (reports false)
    exact closing_check (lib_orderly _) level (exits true) (reports true)

def loadsElos : Call → Bool
  | .lockVTable _ | .unlockVTable _ | .copyServer _ | .dlopen _ => true
  | _ => false

theorem quiet_apart (user : ElosUser) : Quiet (Apart loadsElos) user :=
  ⟨fun _ lost => Bool.false_ne_true lost.2.symm, fun _ lost => Bool.false_ne_true lost.2.symm,
    fun _ lost => Bool.false_ne_true lost.2.symm, fun _ lost => Bool.false_ne_true lost.2.symm⟩

theorem quiet_elosdep : Quiet Forgets .elosdep :=
  ⟨fun _ => Bool.false_ne_true, fun _ => Bool.false_ne_true, fun _ => Bool.false_ne_true,
    fun _ => Bool.false_ne_true⟩

instance : Plain (Apart loadsElos) := plain_apart fun _ => rfl

theorem failWith_false {A : Type} {ok : A → Bool} {a : A} (ill : ok a = false) :
    (failWith a).Every fun _ b => ok b = false := every_bind fun _ _ => every_pure ill

theorem elosInitExit_false : (elosInitExit user false).Every fun _ ok => ok = false := by
  refine every_bind fun _ _ => every_if (fun _ => every_pure rfl) fun _ => ?_
  exact failWith_false rfl

/-- `crinitElosInit` returns -1 exactly if one of the failures occurs that `eloslog.c` gives up
at. -/
theorem elosInit_tells : Tells (Apart loadsElos) Forgets id (elosInit .eloslog) := by
  have fails : (failWith false).Every fun _ ok => id ok = false := failWith_false rfl
  have exit : Tells (Apart loadsElos) Forgets id (elosInitExit .eloslog true) := by
    refine tells_if (every_ask fun (ok : Bool) => tells_answer apart_forgets ?_ ?_)
      (tells_pure rfl) fails <;> rintro rfl
    · exact Bool.false_ne_true
    · rfl
  have through : ∀ {p : Path Unit} {q : Path Bool}, Orderly locking (Apart loadsElos) 2 p →
      Ordered 2 p → Tells (Apart loadsElos) Forgets id q →
      Tells (Apart loadsElos) Forgets id (p >>= fun _ => q) :=
    fun first first' rest => tells_bind first first' fun _ => rest
  have debug : ∀ {q : Path Bool}, Tells (Apart loadsElos) Forgets id q →
      Tells (Apart loadsElos) Forgets id (dbgInfoPrint >>= fun _ => q) :=
    through (dbgInfoPrint_orderly (by decide))
      (dbgInfoPrint_orderly (by decide))
  have server : Tells (Apart loadsElos) Forgets id (elosServer .eloslog) := by
    refine tells_bind (globOptGetString_orderly (Nat.le_refl 2))
      (globOptGetString_orderly (Nat.le_refl 2)) fun res => ?_
    split
    · refine debug (tells_if (every_ask fun (ok : Bool) => tells_answer apart_forgets ?_ ?_)
        (tells_pure rfl) fails) <;> rintro rfl
      · exact Bool.false_ne_true
      · rfl
    · exact tells_pure rfl
  refine tells_if (every_ask fun (ok : Bool) => tells_answer apart_forgets ?_ ?_) ?_ fails
  · rintro rfl
    exact Bool.false_ne_true
  · rintro rfl
    rfl
  refine tells_bind (flag_orderly (k := 2) _) (flag_orderly (k := 2) _) fun loaded => ?_
  split
  · exact exit
  refine debug (tells_if server ?_ elosInitExit_false)
  refine through (elosPort_orderly (by decide))
    (elosPort_orderly (by decide)) ?_
  refine debug (tells_if (every_ask fun (ok : Bool) => tells_answer apart_forgets ?_ ?_) ?_ ?_)
  · rintro rfl
    exact Bool.false_ne_true
  · rintro rfl
    rfl
  · refine tells_bind (lib_orderly (k := 2) _) (lib_orderly (k := 2) _)
      fun symbols => ?_
    split
    · exact exit
    · exact through (errPrint_orderly (by decide))
        (errPrint_orderly (by decide))
        exit
  · exact every_bind fun _ _ => elosInitExit_false

theorem thread_closing {q r : Path B} (f : ThreadCall) (lower : rank m < k)
    (well : Releases k m true q) (ill : Ordered k r) :
    Releases k m true (thread f >>= fun ok => if ok = true then q else r) := by
  refine closing_ask (fun _ => rfl) lower (fun (ok : Bool) lost => ?_) fun (ok : Bool) fine => ?_
  · cases ok with
    | true => exact absurd lost Bool.false_ne_true
    | false => exact ⟨rfl, ill⟩
  · cases ok with
    | true => exact well
    | false => exact absurd rfl fine

theorem startThread_closing {started : Path Int} (level : 4 ≤ k) (high : rank m = 3)
    (rest : Releases k m true started) :
    Releases k m true (startThread started) := by
  have lower : rank m < k := by omega
  have fails : Ordered k (failWith (-1 : Int)) :=
    failWith_orderly (by omega) _
  refine thread_closing _ lower (thread_closing _ lower (thread_closing _ lower ?_ fails) fails)
    fails
  refine closing_bind (dbgInfoPrint_orderly ?_) lower fun _ => ?_
  · change 2 ≤ rank m
    omega
  · exact thread_closing _ lower (thread_closing _ lower rest fails) fails

theorem activated_closing (level : 4 ≤ k) : Releases k m got (activated m) :=
  unlock_closing fun _ =>
    orderly_if (fun _ => orderly_pure) fun _ => failWith_orderly (by omega) _

theorem elosdepActivate_orderly (level : 4 ≤ k) (e : Bool) : Ordered k (elosdepActivate e) := by
  refine locked_orderly level (failWith_orderly (by omega) _) ?_
  refine closing_check (flag_orderly _) level ?_ (activated_closing level)
  refine closing_bind (elosInit_orderly quiet_elosdep (by decide)) level fun _ => ?_
  exact startThread_closing level rfl (activated_closing level)

theorem eloslogActivate_orderly (level : 4 ≤ k) (e : Bool) : Ordered k (eloslogActivate e) := by
  have fails : Ordered k (failWith (-1 : Int)) := failWith_orderly (by omega) _
  refine locked_orderly level fails ?_
  refine closing_check (flag_orderly _) level ?_ (activated_closing level)
  refine closing_told_if (elosInit_orderly (quiet_apart _) (by decide)) level
    elosInit_tells ?_ (loses_kept fails)
  exact startThread_closing level rfl (activated_closing level)

/-! ### The session and the filters -/

def isConnecting : Call → Bool
  | .server | .connect _ => true
  | _ => false

theorem connect_orderly [Plain bad] (fine : ∀ c a, isConnecting c = true → ¬bad ⟨c, a⟩)
    (level : 2 ≤ k) (retries : Nat) : Orderly locking bad k (connect retries) := by
  have attempt : ∀ n, Orderly locking bad k (connectOnce n) :=
    fun n => orderly_ask (fun _ => rfl) fun a => fine _ a rfl
  have server : Orderly locking bad k server := orderly_ask (fun _ => rfl) fun a => fine _ a rfl
  have fails : ∀ res : Int, Orderly locking bad k (failWith res) :=
    failWith_orderly (by omega)
  induction retries with
  | zero =>
    refine orderly_bind server fun _ => orderly_if (fun _ => ?_) fun _ => fails _
    refine orderly_bind (attempt 0) fun _ => orderly_if (fun _ => orderly_pure) fun _ => ?_
    exact orderly_bind (dbgInfoPrint_orderly level) fun _ => fails _
  | succ n ih =>
    refine orderly_bind server fun _ => orderly_if (fun _ => ?_) fun _ => fails _
    refine orderly_check (attempt (n + 1)) orderly_pure ?_
    exact orderly_bind (dbgInfoPrint_orderly level) fun _ => ih

instance : Plain (Apart isConnecting) := plain_apart fun _ => rfl

theorem fine_connects (c : Call) (a : Answer c) (special : isConnecting c = true) :
    ¬Apart isConnecting ⟨c, a⟩ := fun lost => Bool.false_ne_true (lost.2.symm.trans special)

theorem connect_tells (retries : Nat) :
    Tells (Apart isConnecting) Forgets (fun res => res == 0) (connect retries) := by
  have fails : ∀ {res : Int}, res ≠ 0 → (failWith res).Every fun _ b => (b == 0) = false :=
    fun nonzero => failWith_false (beq_false_of_ne nonzero)
  have server : Tells (Apart isConnecting) Forgets id server := by
    refine every_ask fun (ok : Bool) => tells_answer apart_forgets ?_ ?_ <;> rintro rfl
    · exact Bool.false_ne_true
    · rfl
  induction retries with
  | zero =>
    refine tells_if server ?_ (fails (by decide))
    have last : Tells (Apart isConnecting) Forgets (fun res => res == 0) (connectOnce 0) := by
      refine every_ask fun (res : Int) => tells_answer apart_forgets (fun well => ?_) fun ill => ?_
      · change ¬(!(res == 0)) = true
        simp [well]
      · change (!(res == 0)) = true
        simp [ill]
    refine tells_check last (fun res well => ?_) fun res ill => ?_
    · rw [if_pos (eq_of_beq well)]
      exact tells_pure rfl
    · have nonzero := ne_of_beq_false ill
      rw [if_neg nonzero]
      exact every_bind fun _ _ => fails nonzero
  | succ n ih =>
    refine tells_if server ?_ (fails (by decide))
    have attempt : Orderly locking (Apart isConnecting) 2 (connectOnce (n + 1)) :=
      orderly_ask (fun _ => rfl) fun a => fine_connects _ a rfl
    have attempt' : Ordered 2 (connectOnce (n + 1)) :=
      orderly_ask (fun _ => rfl) fun _ => Bool.false_ne_true
    refine tells_bind attempt attempt' fun res => ?_
    refine every_if (fun _ => tells_pure rfl) fun _ => ?_
    exact tells_bind (dbgInfoPrint_orderly (Nat.le_refl 2))
      (dbgInfoPrint_orderly (Nat.le_refl 2)) fun _ => ih

theorem execConnected_closing (level : 3 ≤ k) : Releases k .session got execConnected := by
  have unlocks : ∀ res : Int, Releases k .session got (do
      if ← unlock .session then return res else failWith (-1) : Path Int) :=
    fun _ => unlock_closing fun _ =>
      orderly_if (fun _ => orderly_pure) fun _ => failWith_orderly (by omega) _
  refine closing_bind (orderly_ask (fun _ => rfl) fun _ => Bool.false_ne_true) level
    fun (res : Int) => closing_if (fun _ => unlocks res) fun _ => ?_
  exact closing_bind (errPrint_orderly (by decide)) level fun _ => unlocks res

/-- The session stays locked if there is no connection. -/
theorem elosTryExec_orderly (level : 3 ≤ k) : Ordered k elosTryExec := by
  refine locked_orderly level (failWith_orderly (by omega) _) ?_
  refine closing_check (flag_orderly _) level (execConnected_closing level) ?_
  refine closing_told (connect_orderly fine_connects (by decide) _) level
    (connect_tells _) (fun res ill => ?_) fun res well => ?_
  · rw [if_neg (ne_of_beq_false ill)]
    have kept : Ordered k (pure res : Path Int) := orderly_pure
    exact loses_kept kept
  · rw [if_pos (eq_of_beq well)]
    exact execConnected_closing level

theorem elosdepFilterFromEnvSet_orderly (level : 1 ≤ k) (es : EnvSet) (name : String) :
    Ordered k (elosdepFilterFromEnvSet es name) :=
  orderly_if (fun _ => failWith_orderly level _) fun _ =>
    orderly_if (fun _ => alloc_orderly level 1) fun _ => orderly_pure

theorem passing_orderly {q r r' : Path B} (level : 3 ≤ k) (low : rank m < 3)
    (well : Ordered k q) (ill : Ordered k r)
    (ill' : Ordered k r') :
    Ordered k (do
      if ← lock m then
        if ← unlock m then q else r
      else r') := by
  refine locked_orderly (by omega) ill' ?_
  exact unlock_closing fun _ => orderly_if (fun _ => well) fun _ => ill

theorem registerFilter_orderly (level : 3 ≤ k) (t : TaskParts) (dep : TaskDep) :
    Ordered k (registerFilter t dep) := by
  have fails : ∀ {A : Type} (res : A), Ordered k (failWith res) :=
    fun res => failWith_orderly (by omega) res
  have debug : Ordered k dbgInfoPrint := dbgInfoPrint_orderly (by omega)
  refine orderly_bind debug fun _ => ?_
  refine orderly_check (elosdepFilterFromEnvSet_orderly (by omega) _ _) ?_ (fails _)
  refine orderly_check (passing_orderly level (by decide) orderly_pure (fails _) (fails _))
    ?_ (fails _)
  refine orderly_check (flag_orderly _) ?_ orderly_pure
  have subscribes : Ordered k elosdepFilterSubscribe :=
    orderly_bind debug fun _ => elosTryExec_orderly level
  exact orderly_bind subscribes fun res =>
    orderly_if (fun _ => orderly_pure) fun _ => fails res

theorem elosdepRegisterFilterDep_orderly (level : 3 ≤ k) (t : TaskParts) (dep : TaskDep)
    (listed : Bool) : Ordered k (elosdepRegisterFilterDep t dep listed) := by
  have fails : ∀ r : Int × Bool, Ordered k (failWith r) :=
    failWith_orderly (by omega)
  have registers : Ordered k (do
      let res ← registerFilter t dep
      return (res, true) : Path (Int × Bool)) :=
    orderly_bind (registerFilter_orderly level t dep) fun _ => orderly_pure
  refine orderly_if (fun _ => ?_) fun _ => orderly_pure
  refine orderly_check (dbgInfoPrint_orderly (by omega)) registers ?_
  refine orderly_check (lib_orderly _) ?_ (fails _)
  refine orderly_check (lib_orderly _) ?_ (fails _)
  exact passing_orderly level (by decide) registers (fails _) (fails _)

theorem registerLoop_orderly (level : 3 ≤ k) (t : TaskParts) (deps : List TaskDep)
    (r : Int × Bool) : Ordered k (registerLoop t deps r) := by
  induction deps generalizing r with
  | nil => exact orderly_pure
  | cons dep deps ih =>
    refine orderly_bind (elosdepRegisterFilterDep_orderly level t dep r.2) fun r => ?_
    exact orderly_if (fun _ => ih r) fun _ => orderly_pure

theorem elosdepTaskAdded_orderly (level : 3 ≤ k) (t : TaskParts) :
    Ordered k (elosdepTaskAdded t) := by
  refine orderly_bind (dbgInfoPrint_orderly (by omega)) fun _ => ?_
  refine orderly_bind (registerLoop_orderly level t _ _) fun r => ?_
  exact orderly_bind (registerLoop_orderly level t _ r) fun _ => orderly_pure

end Elos

inductive HookType where
  | init | start | stop | taskAdded
  deriving DecidableEq, Repr

structure Hook where
  name : String
  type : HookType
  af : Path Int

def activateSyslog : Path Int := do
  let _ ← lock .log
  let _ ← unlock .log
  return 0

def featureMap (t : TaskParts) : List Hook :=
  [⟨"syslog", .start, activateSyslog⟩,
    ⟨"elos", .start, elosdepActivate true⟩,
    ⟨"elos", .stop, elosdepActivate false⟩,
    ⟨"elos", .taskAdded, elosdepTaskAdded t⟩,
    ⟨"elos", .init, eloslogInit⟩,
    ⟨"elos", .start, eloslogActivate true⟩,
    ⟨"elos", .stop, eloslogActivate false⟩]

def orInt (a b : Int) : Int := (BitVec.ofInt 32 a ||| BitVec.ofInt 32 b).toInt

def hookLoop (sysFeatName : Option String) (type : HookType) : List Hook → Int → Path Int
  | [], res => return res
  | h :: hooks, res =>
    if sysFeatName.all (· = h.name) ∧ h.type = type then do
      dbgInfoPrint
      match ← globOptGetBoolean with
      | none => failWith (-1)
      | some true =>
        let r ← h.af
        hookLoop sysFeatName type hooks (orInt res r)
      | some false => hookLoop sysFeatName type hooks res
    else hookLoop sysFeatName type hooks res

def featureHook (sysFeatName : Option String) (type : HookType) (t : TaskParts) : Path Int := do
  dbgInfoPrint
  hookLoop sysFeatName type (featureMap t) 0

section Hooks

variable {k : Nat}

theorem activateSyslog_orderly (level : 1 ≤ k) : Ordered k activateSyslog :=
  lock_orderly level fun _ => unlock_closing fun _ => orderly_pure

theorem eloslogInit_orderly (level : 1 ≤ k) : Ordered k eloslogInit := by
  refine orderly_bind (infoPrint_orderly level) fun _ => ?_
  refine orderly_check (lib_orderly _) orderly_pure (failWith_orderly level _)

theorem hookLoop_orderly (level : 2 ≤ k) (sysFeatName : Option String) {type : HookType}
    {hooks : List Hook} (each : ∀ h ∈ hooks, h.type = type → Ordered k h.af)
    (res : Int) : Ordered k (hookLoop sysFeatName type hooks res) := by
  induction hooks generalizing res with
  | nil => exact orderly_pure
  | cons h hooks ih =>
    obtain ⟨here, rest⟩ := List.forall_mem_cons.mp each
    refine orderly_if (fun applies => ?_) fun _ => ih rest res
    refine orderly_bind (dbgInfoPrint_orderly level) fun _ => ?_
    refine orderly_bind (globOptGetBoolean_orderly level) fun armed => ?_
    match armed with
    | none => exact failWith_orderly (by omega) _
    | some true => exact orderly_bind (here applies.2) fun r => ih rest (orInt res r)
    | some false => exact ih rest res

theorem featureHook_orderly (level : 4 ≤ k) (sysFeatName : Option String) (type : HookType)
    (t : TaskParts) : Ordered k (featureHook sysFeatName type t) := by
  refine orderly_bind (dbgInfoPrint_orderly (by omega)) fun _ => ?_
  have each : ∀ h ∈ featureMap t, Ordered k h.af := by
    simp only [featureMap, forall_mem_cons]
    exact ⟨activateSyslog_orderly (by omega), elosdepActivate_orderly level true,
      elosdepActivate_orderly level false, elosdepTaskAdded_orderly (by omega) t,
      eloslogInit_orderly (by omega), eloslogActivate_orderly level true,
      eloslogActivate_orderly level false, fun h mem => absurd mem not_mem_nil⟩
  exact hookLoop_orderly (by omega) sysFeatName (fun h mem _ => each h mem) 0

/-- The hook for a new task stays below the mutex of the TaskDB. -/
theorem taskAddedHook_orderly (level : 3 ≤ k) (sysFeatName : Option String) (t : TaskParts) :
    Ordered k (featureHook sysFeatName .taskAdded t) := by
  refine orderly_bind (dbgInfoPrint_orderly (by omega)) fun _ => ?_
  refine hookLoop_orderly (by omega) sysFeatName (fun h mem applies => ?_) 0
  revert h
  simp [featureMap, elosdepTaskAdded_orderly level t]

end Hooks

end Crinit.LockPath
