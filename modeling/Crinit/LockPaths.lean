import Crinit.Lib.CallTree
import Crinit.ElosFilters

/-! The public operations of `taskdb.c` (but Borrow and Remit), `timerdb.c` and `globopt.c` and the
two elos activations, as the ways they take through their calls. What a call returns is up to the
environment. -/
namespace Crinit.LockPath

open CallTree

inductive Lock where
  | log | globOpt | transmit | timerPool | filterTasks | filters | session | vtable | taskDB
  | elosdepActivated | eloslogActivated
  deriving DecidableEq, Repr

/-- The two files that load the elos interface. Only `eloslog.c` minds if that fails. -/
inductive ElosUser where
  | elosdep | eloslog
  deriving DecidableEq, Repr

inductive ThreadCall where
  | attrInit | setDetachState | setStackSize | create | attrDestroy
  deriving DecidableEq, Repr

inductive LibCall where
  | alloc | clockGettime | condSignal | condInit | mutexInit | mutexDestroy | eventfd | write
  | timerfdCreate | timerfdSettime | attrInit | setDetachState | setStackSize | create | dlsym
  deriving DecidableEq, Repr

inductive Flag where
  | useSyslog | option | isGlobal | setFull | spawnInhibit | spawnFunc | vtableLoaded | elosStarted
  | connected | timerRoom | activated (user : ElosUser)
  deriving DecidableEq, Repr

structure CgroupParts where
  config : Option Nat := none
  deriving DecidableEq, Repr

structure TaskParts where
  task : Task
  taskEnv : Option EnvSet := some .empty
  elosFilters : Option EnvSet := some .empty
  redirs : List Bool := []
  username : Bool := false
  groupname : Bool := false
  supGroups : Bool := false
  cgroup : Option CgroupParts := none

inductive Call where
  | lock (m : Lock)
  /-- The thread no longer holds the mutex, whatever the call returns. -/
  | unlock (m : Lock)
  | lockVTable (user : ElosUser)
  | unlockVTable (user : ElosUser)
  | lib (f : LibCall)
  | flag (f : Flag)
  /-- The memory for the format of a message to syslog; `got` is whether the log mutex was got. -/
  | format (got : Bool)
  /-- A default of the option store; `got` is whether its mutex was got. -/
  | copyDefault (got : Bool)
  | copyServer (user : ElosUser)
  | dlopen (user : ElosUser)
  | thread (f : ThreadCall)
  | server
  | connect (retries : Nat)
  | exec
  | ringWrite
  /-- How many errors a function without mutexes of its own reports. -/
  | complaints
  | envSet
  | taskSet
  /-- The tasks among which `crinitTaskDBProvideFeatureByTaskName` looks for its provider. -/
  | providers (taskName : String)
  | timers

def Answer : Call → Type
  | .connect _ | .exec | .ringWrite => Int
  | .complaints => Nat
  | .envSet => Option EnvSet
  | .taskSet | .providers _ => List TaskParts
  | .timers => TimerDB
  | .lock _ | .unlock _ | .lockVTable _ | .unlockVTable _ | .lib _ | .flag _ | .format _
  | .copyDefault _ | .copyServer _ | .dlopen _ | .thread _ | .server => Bool

abbrev Path := Prog Answer

def lockEffect (m : Lock) (ok : Bool) : CallTree.Effect Lock := if ok then .locks m else .refused m

def effect : Answered Answer → CallTree.Effect Lock
  | ⟨.lock m, ok⟩ => lockEffect m ok
  | ⟨.lockVTable _, ok⟩ => lockEffect .vtable ok
  | ⟨.unlock m, _⟩ => .unlocks m
  | ⟨.unlockVTable _, _⟩ => .unlocks .vtable
  | _ => .nothing

def rank : Lock → Nat
  | .log => 0
  | .globOpt | .transmit => 1
  | .timerPool | .filterTasks | .filters | .session | .vtable => 2
  | .taskDB | .elosdepActivated | .eloslogActivated => 3

def locking : Locking Answer Lock := ⟨effect, rank⟩

def findTask (taskSet : List TaskParts) (taskName : String) : Option TaskParts :=
  taskSet.find? fun t => t.task.name = taskName

/-- The answers after which a mutex stays locked or is asked for again. -/
def forgets : Answered Answer → Bool
  | ⟨.format got, ok⟩ => got && !ok
  | ⟨.copyDefault got, ok⟩ => got && !ok
  | ⟨.lockVTable .eloslog, ok⟩ => !ok
  | ⟨.unlockVTable .eloslog, ok⟩ => !ok
  | ⟨.copyServer .eloslog, ok⟩ => !ok
  | ⟨.dlopen .eloslog, ok⟩ => !ok
  | ⟨.thread _, ok⟩ => !ok
  | ⟨.server, ok⟩ => !ok
  | ⟨.connect 0, (res : Int)⟩ => res != 0
  | ⟨.providers taskName, tasks⟩ => (findTask tasks taskName).isNone
  | _ => false

def lock (m : Lock) : Path Bool := ask (Call.lock m)
def unlock (m : Lock) : Path Bool := ask (Call.unlock m)
def lockVTable (user : ElosUser) : Path Bool := ask (Call.lockVTable user)
def unlockVTable (user : ElosUser) : Path Bool := ask (Call.unlockVTable user)
def lib (f : LibCall) : Path Bool := ask (Call.lib f)
def flag (f : Flag) : Path Bool := ask (Call.flag f)
def format (got : Bool) : Path Bool := ask (Call.format got)
def copyDefault (got : Bool) : Path Bool := ask (Call.copyDefault got)
def copyServer (user : ElosUser) : Path Bool := ask (Call.copyServer user)
def dlopen (user : ElosUser) : Path Bool := ask (Call.dlopen user)
def thread (f : ThreadCall) : Path Bool := ask (Call.thread f)
def server : Path Bool := ask Call.server
def connectOnce (retries : Nat) : Path Int := ask (Call.connect retries)
def exec : Path Int := ask Call.exec
def ringWrite : Path Int := ask Call.ringWrite
def complaints : Path Nat := ask Call.complaints
def envSet : Path (Option EnvSet) := ask Call.envSet
def taskSet : Path (List TaskParts) := ask Call.taskSet
def providers (taskName : String) : Path (List TaskParts) := ask (Call.providers taskName)
def timers : Path TimerDB := ask Call.timers

/-! ### Messages and global options -/

def errPrint : Path Unit := do
  let got ← lock .log
  if ← flag .useSyslog then
    if ← format got then
      let _ ← unlock .log
      return ()
    else return ()
  else
    let _ ← unlock .log
    return ()

def errPrints : Nat → Path Unit
  | 0 => return ()
  | n + 1 => do
    errPrint
    errPrints n

def infoPrint : Path Unit := do
  let _ ← lock .log
  let _ ← flag .useSyslog
  let _ ← unlock .log
  return ()

def infoPrints : Nat → Path Unit
  | 0 => return ()
  | n + 1 => do
    infoPrint
    infoPrints n

def failWith {A : Type} (a : A) : Path A := do
  errPrint
  return a

def whenever (c : Bool) (p : Path Unit) : Path Unit := if c then p else return ()

def nullChecked (given : Bool) (body : Path Int) : Path Int :=
  if given then body else failWith (-1)

def globOptRemit : Path Bool := do
  if ← unlock .globOpt then return true else failWith false

def commonUnlock {A : Type} (well ill : A) : Path A := do
  if ← globOptRemit then return well else failWith ill

/-- `crinitGlobOptBorrow` compares with -1, which `pthread_mutex_lock` never returns, so all go
on. -/
def globOptGetBoolean : Path (Option Bool) := do
  let _ ← lock .globOpt
  let val ← flag .option
  commonUnlock (some val) none

/-- `crinitGlobOptSetBoolean`, and its like for other numbers, in both directions. -/
def globOptNumber : Path Int := do
  let _ ← lock .globOpt
  commonUnlock 0 (-1)

def globOptSetString : Path Int := do
  let _ ← lock .globOpt
  if ← lib .alloc then commonUnlock 0 (-1)
  else do
    errPrint
    commonUnlock (-1) (-1)

def globOptGetString : Path Int := do
  let _ ← lock .globOpt
  if ← lib .alloc then commonUnlock 0 (-1)
  else do
    errPrint
    let _ ← globOptRemit
    return -1

def dbgInfoPrint : Path Unit := do
  match ← globOptGetBoolean with
  | some true => infoPrint
  | some false => return ()
  | none => errPrint

def allOf : List (Path Bool) → Path Bool
  | [] => return true
  | p :: ps => do
    if ← p then allOf ps else return false

def allocate (messages : Nat) : Path Bool := do
  if ← lib .alloc then return true
  else do
    errPrints messages
    return false

def reported (p : Path Bool) : Path Bool := do
  if ← p then return true else failWith false

def envSetDup : Option EnvSet → Path Bool
  | none => failWith false
  | some es => allOf (allocate 2 :: es.envp.map fun _ => allocate 1)

def globOptSetEnvSet (val : Option EnvSet) : Path Int := do
  let _ ← lock .globOpt
  if ← reported (envSetDup val) then commonUnlock 0 (-1) else commonUnlock (-1) (-1)

def globOptGetEnvSet : Path Int := do
  let _ ← lock .globOpt
  let val ← envSet
  if ← reported (envSetDup val) then commonUnlock 0 (-1) else commonUnlock (-1) (-1)

def globOptDestroy : Path Unit := do
  let _ ← lock .globOpt
  let n ← complaints
  errPrints n
  let _ ← unlock .globOpt
  return ()

def setDefault (got : Bool) (messages : Nat) : Path Bool := do
  if ← copyDefault got then return true
  else do
    errPrints messages
    return false

def defaults : List Nat := [1, 1, 1, 1, 1, 1, 1, 1, 2, 2]

def globOptInitDefault : Path Int := do
  let got ← lock .globOpt
  if ← allOf (defaults.map (setDefault got)) then commonUnlock 0 (-1)
  else do
    globOptDestroy
    commonUnlock (-1) (-1)

/-! ### What the messages and the options do to the mutexes -/

/-- Among the calls of the messages and of the options, only the memory for a format matters. -/
class Plain (bad : Answered Answer → Prop) : Prop where
  format : ∀ got (ok : Bool), bad ⟨.format got, ok⟩ ↔ got = true ∧ ok = false
  lock : ∀ m (ok : Bool), ¬bad ⟨.lock m, ok⟩
  unlock : ∀ m (ok : Bool), ¬bad ⟨.unlock m, ok⟩
  lib : ∀ f (ok : Bool), ¬bad ⟨.lib f, ok⟩
  flag : ∀ f (val : Bool), ¬bad ⟨.flag f, val⟩
  complaints : ∀ n : Nat, ¬bad ⟨.complaints, n⟩
  envSet : ∀ es : Option EnvSet, ¬bad ⟨.envSet, es⟩

section Options

variable {bad : Answered Answer → Prop} [Plain bad] {k : Nat} {A B : Type} {m : Lock}
  {got : Bool}

theorem lock_orderly {f : Bool → Path B} (lower : rank m < k)
    (rest : ∀ got, Closing locking bad k m got (f got)) :
    Orderly locking bad k (lock m >>= f) :=
  orderly_lock (fun got => got) (fun _ => rfl) (Plain.lock m) lower rest

/-- The usual way: without the mutex an error is reported. -/
theorem locked_orderly {f : Bool → Path B} (lower : rank m < k)
    (refused : Orderly locking bad k (f false)) (locked : Closing locking bad k m true (f true)) :
    Orderly locking bad k (lock m >>= f) := by
  refine lock_orderly lower fun got => ?_
  cases got with
  | false => exact closing_refused refused
  | true => exact locked

theorem unlock_closing {f : Bool → Path B}
    (rest : ∀ ok, Orderly locking bad k (f ok)) :
    Closing locking bad k m got (unlock m >>= f) :=
  closing_unlock (fun _ => rfl) (Plain.unlock m) rest

theorem lib_orderly (f : LibCall) : Orderly locking bad k (lib f) :=
  orderly_ask (fun _ => rfl) (Plain.lib f)

theorem flag_orderly (f : Flag) : Orderly locking bad k (flag f) :=
  orderly_ask (fun _ => rfl) (Plain.flag f)

theorem complaints_orderly : Orderly locking bad k complaints :=
  orderly_ask (fun _ => rfl) Plain.complaints

omit [Plain bad] in
theorem allOf_orderly {ps : List (Path Bool)} (each : ∀ p ∈ ps, Orderly locking bad k p) :
    Orderly locking bad k (allOf ps) := by
  induction ps with
  | nil => exact orderly_pure
  | cons p ps ih =>
    refine orderly_check (each p List.mem_cons_self) ?_ ?_
    · exact ih fun q mem => each q (List.mem_cons_of_mem p mem)
    · exact orderly_pure

section Messages

variable (level : 1 ≤ k)
include level

theorem errPrint_orderly : Orderly locking bad k errPrint := by
  refine lock_orderly level fun got => ?_
  refine closing_check (flag_orderly _) level ?_ ?_
  · refine closing_ask (fun _ => rfl) level (fun (ok : Bool) lost => ?_) fun (ok : Bool) well => ?_
    · obtain ⟨rfl, rfl⟩ := (Plain.format got ok).mp lost
      exact ⟨rfl, orderly_pure⟩
    · refine closing_if (fun _ => unlock_closing fun _ => orderly_pure) fun failed => ?_
      -- Without memory and not bad: the mutex was not got.
      cases got with
      | false => exact closing_refused orderly_pure
      | true => exact absurd ((Plain.format true ok).mpr ⟨rfl, Bool.eq_false_iff.mpr failed⟩) well
  · exact unlock_closing fun _ => orderly_pure

theorem errPrints_orderly (n : Nat) : Orderly locking bad k (errPrints n) := by
  induction n with
  | zero => exact orderly_pure
  | succ n ih => exact orderly_bind (errPrint_orderly level) fun _ => ih

theorem infoPrint_orderly : Orderly locking bad k infoPrint := by
  refine lock_orderly level fun got => ?_
  refine closing_bind (flag_orderly _) level fun _ => ?_
  exact unlock_closing fun _ => orderly_pure

theorem infoPrints_orderly (n : Nat) : Orderly locking bad k (infoPrints n) := by
  induction n with
  | zero => exact orderly_pure
  | succ n ih => exact orderly_bind (infoPrint_orderly level) fun _ => ih

theorem failWith_orderly (a : A) : Orderly locking bad k (failWith a) :=
  orderly_bind (errPrint_orderly level) fun _ => orderly_pure

theorem nullChecked_orderly {given : Bool} {body : Path Int} (orderly : Orderly locking bad k body)
    : Orderly locking bad k (nullChecked given body) :=
  orderly_if (fun _ => orderly) fun _ => failWith_orderly level _

theorem allocate_orderly (messages : Nat) :
    Orderly locking bad k (allocate messages) := by
  refine orderly_check (lib_orderly _) orderly_pure ?_
  exact orderly_bind (errPrints_orderly level messages) fun _ => orderly_pure

theorem reported_orderly {p : Path Bool} (orderly : Orderly locking bad k p) :
    Orderly locking bad k (reported p) :=
  orderly_bind orderly fun _ =>
    orderly_if (fun _ => orderly_pure) fun _ => failWith_orderly level _

theorem allocated_orderly {ps : List (Path Bool)} (messages : Nat)
    (each : ∀ p ∈ ps, Orderly locking bad k p) :
    Orderly locking bad k (allOf (allocate messages :: ps)) :=
  allOf_orderly (List.forall_mem_cons.mpr ⟨allocate_orderly level messages, each⟩)

theorem envSetDup_orderly (es : Option EnvSet) :
    Orderly locking bad k (envSetDup es) := by
  cases es with
  | none => exact failWith_orderly level _
  | some es =>
    refine allocated_orderly level _ (List.forall_mem_map.mpr fun _ _ => ?_)
    exact allocate_orderly level _

end Messages

variable (level : 2 ≤ k)
include level

theorem globOptRemit_closing : Closing locking bad k .globOpt got globOptRemit :=
  unlock_closing fun _ =>
    orderly_if (fun _ => orderly_pure) fun _ => failWith_orderly (by omega) _

theorem commonUnlock_closing (well ill : A) :
    Closing locking bad k .globOpt got (commonUnlock well ill) :=
  closing_then (globOptRemit_closing level) fun _ =>
    orderly_if (fun _ => orderly_pure) fun _ => failWith_orderly (by omega) _

theorem globOptGetBoolean_orderly : Orderly locking bad k globOptGetBoolean := by
  refine lock_orderly level fun got => ?_
  exact closing_bind (flag_orderly _) level fun _ => commonUnlock_closing level _ _

theorem globOptNumber_orderly : Orderly locking bad k globOptNumber :=
  lock_orderly level fun _ => commonUnlock_closing level _ _

theorem globOptSetString_orderly : Orderly locking bad k globOptSetString := by
  refine lock_orderly level fun got => ?_
  refine closing_check (lib_orderly _) level ?_ ?_
  · exact commonUnlock_closing level _ _
  · exact closing_bind (errPrint_orderly (by decide)) level fun _ =>
      commonUnlock_closing level _ _

theorem globOptGetString_orderly : Orderly locking bad k globOptGetString := by
  refine lock_orderly level fun got => ?_
  refine closing_check (lib_orderly _) level ?_ ?_
  · exact commonUnlock_closing level _ _
  · exact closing_bind (errPrint_orderly (by decide)) level fun _ =>
      closing_then (globOptRemit_closing level) fun _ => orderly_pure

theorem dbgInfoPrint_orderly : Orderly locking bad k dbgInfoPrint := by
  refine orderly_bind (globOptGetBoolean_orderly level) fun debug => ?_
  match debug with
  | some true => exact infoPrint_orderly (by omega)
  | some false => exact orderly_pure
  | none => exact errPrint_orderly (by omega)

theorem envSetOption_closing (val : Option EnvSet) :
    Closing locking bad k .globOpt got (do
      if ← reported (envSetDup val) then commonUnlock 0 (-1) else commonUnlock (-1) (-1) :
        Path Int) := by
  have copied : Orderly locking bad (rank .globOpt) (reported (envSetDup val)) :=
    reported_orderly (by decide) (envSetDup_orderly (by decide) val)
  exact closing_bind copied level fun _ => closing_if
    (fun _ => commonUnlock_closing level _ _) fun _ => commonUnlock_closing level _ _

theorem globOptSetEnvSet_orderly (val : Option EnvSet) :
    Orderly locking bad k (globOptSetEnvSet val) :=
  lock_orderly level fun _ => envSetOption_closing level val

theorem globOptGetEnvSet_orderly : Orderly locking bad k globOptGetEnvSet := by
  refine lock_orderly level fun got => ?_
  exact closing_bind (orderly_ask (fun _ => rfl) Plain.envSet) level fun val =>
    envSetOption_closing level val

theorem globOptDestroy_orderly : Orderly locking bad k globOptDestroy := by
  refine lock_orderly level fun got => ?_
  refine closing_bind complaints_orderly level fun n => ?_
  refine closing_bind (errPrints_orderly (by decide) n) level fun _ => ?_
  exact unlock_closing fun _ => orderly_pure

end Options

abbrev Forgets (a : Answered Answer) : Prop := forgets a = true

abbrev Ordered {A : Type} (k : Nat) (p : Path A) : Prop := Orderly locking Forgets k p

abbrev Releases {A : Type} (k : Nat) (m : Lock) (got : Bool) (p : Path A) : Prop :=
  Closing locking Forgets k m got p

def Apart (special : Call → Bool) (a : Answered Answer) : Prop :=
  forgets a = true ∧ special a.1 = false

instance plain_forgets : Plain Forgets where
  format got ok := by
    change (got && !ok) = true ↔ got = true ∧ ok = false
    simp
  lock _ _ := Bool.false_ne_true
  unlock _ _ := Bool.false_ne_true
  lib _ _ := Bool.false_ne_true
  flag _ _ := Bool.false_ne_true
  complaints _ := Bool.false_ne_true
  envSet _ := Bool.false_ne_true

theorem plain_apart {special : Call → Bool} (other : ∀ got, special (.format got) = false) :
    Plain (Apart special) where
  format got ok := (and_iff_left (other got)).trans (plain_forgets.format got ok)
  lock m ok lost := plain_forgets.lock m ok lost.1
  unlock m ok lost := plain_forgets.unlock m ok lost.1
  lib f ok lost := plain_forgets.lib f ok lost.1
  flag f val lost := plain_forgets.flag f val lost.1
  complaints n lost := plain_forgets.complaints n lost.1
  envSet es lost := plain_forgets.envSet es lost.1

def isDefault : Call → Bool
  | .copyDefault _ => true
  | _ => false

instance : Plain (Apart isDefault) := plain_apart fun _ => rfl

theorem setDefaults_orderly {bad : Answered Answer → Prop} [Plain bad] {k : Nat}
    {got : Bool} (fine : ∀ ok : Bool, ¬bad ⟨.copyDefault got, ok⟩) (level : 1 ≤ k) :
    Orderly locking bad k (allOf (defaults.map (setDefault got))) := by
  refine allOf_orderly (List.forall_mem_map.mpr fun messages _ => ?_)
  refine orderly_check (orderly_ask (fun _ => rfl) fine) orderly_pure ?_
  exact orderly_bind (errPrints_orderly level messages) fun _ => orderly_pure

theorem apart_forgets {special : Call → Bool} {a : Answered Answer} (lost : Apart special a) :
    Forgets a := lost.1

theorem copyDefault_tells : Tells (Apart isDefault) Forgets id (copyDefault true) :=
  every_ask fun (ok : Bool) => tells_answer apart_forgets
    (fun well => by subst well; exact Bool.false_ne_true) fun ill => by subst ill; rfl

theorem setDefaults_tells (messages : List Nat) :
    Tells (Apart isDefault) Forgets id (allOf (messages.map (setDefault true))) := by
  induction messages with
  | nil => exact tells_pure rfl
  | cons n messages ih =>
    refine tells_if (tells_if copyDefault_tells (tells_pure rfl) ?_) ih (every_pure rfl)
    exact every_bind fun _ _ => every_pure rfl

/-- The mutex is asked for once more when a default cannot be set. -/
theorem globOptInitDefault_orderly {k : Nat} (level : 2 ≤ k) :
    Ordered k globOptInitDefault := by
  refine lock_orderly level fun got => ?_
  have unlocks : ∀ ret, Releases k .globOpt got (commonUnlock (A := Int) ret (-1)) :=
    fun ret => commonUnlock_closing level ret (-1)
  cases got with
  | true =>
    refine closing_told_if (setDefaults_orderly ?_ (by decide)) level
      (setDefaults_tells defaults) (unlocks 0) ?_
    · exact fun ok lost => Bool.false_ne_true lost.2.symm
    · refine loses_relock ?_ (globOptDestroy_orderly level) fun _ => unlocks (-1)
      exact blocks_lock (fun got => got) fun _ => rfl
  | false =>
    refine closing_check (setDefaults_orderly (fun _ => Bool.false_ne_true)
      (by decide)) level (unlocks 0) ?_
    refine closing_leaves (globOptDestroy_orderly level) ?_ fun _ => unlocks (-1)
    refine leaves_bind fun _ => leaves_bind fun _ => leaves_bind fun _ => ?_
    exact leaves_unlock fun _ => rfl

end Crinit.LockPath
