import Crinit.Handlers
import Crinit.Signature

/-! A task from its configuration: `crinitTaskCfgMap`, the loop over keys and values, and
the files that INCLUDE names. -/
namespace Crinit

open List

inductive TaskKey
  | capClear
  | capSet
  | cgroupName
  | cgroupParams
  | command
  | depends
  | envSet
  | filterDefine
  | group
  | incl
  | ioRedir
  | name
  | provides
  | respawn
  | respawnRetries
  | stopCommand
  | trigger
  | triggerRearm
  | user
  deriving DecidableEq, Repr

structure ConfigMapping where
  config : TaskKey
  configKey : String
  arrayLike : Bool
  includeSafe : Bool
  deriving DecidableEq, Repr

def taskCfgMap : List ConfigMapping :=
  [⟨.capClear, "CAPABILITY_CLEAR", true, false⟩,
   ⟨.capSet, "CAPABILITY_SET", true, false⟩,
   ⟨.cgroupName, "CGROUP_NAME", false, false⟩,
   ⟨.cgroupParams, "CGROUP_PARAMS", true, false⟩,
   ⟨.command, "COMMAND", true, false⟩,
   ⟨.depends, keyDepends, true, true⟩,
   ⟨.envSet, "ENV_SET", true, true⟩,
   ⟨.filterDefine, "FILTER_DEFINE", true, true⟩,
   ⟨.group, "GROUP", true, false⟩,
   ⟨.incl, "INCLUDE", true, false⟩,
   ⟨.ioRedir, "IO_REDIRECT", true, true⟩,
   ⟨.name, "NAME", false, false⟩,
   ⟨.provides, "PROVIDES", true, false⟩,
   ⟨.respawn, "RESPAWN", false, false⟩,
   ⟨.respawnRetries, "RESPAWN_RETRIES", false, false⟩,
   ⟨.stopCommand, "STOP_COMMAND", true, false⟩,
   ⟨.trigger, "TRIGGER", true, true⟩,
   ⟨.triggerRearm, "TRIGGER_REARM", false, false⟩,
   ⟨.user, "USER", false, false⟩]

def findConfigMapping (keyStr : String) : Option ConfigMapping :=
  taskCfgMap.find? fun m => m.configKey = keyStr

inductive TaskType
  | standard
  | incl
  deriving DecidableEq, Repr

variable {Env Redir Cgroup : Type}

structure ConfEnv (Env Redir Cgroup : Type) extends HandlerEnv Env Redir Cgroup where
  inclDir : String
  inclSuffix : String
  parse : String → Option ConfList
  globEnv : Env
  globFilters : Env
  now : Timespec := {}

section Construction

variable (env : ConfEnv Env Redir Cgroup)

/-- `cfgHandler` of the map for all keys but INCLUDE, which no list of an include file gets to. -/
def handlePlain (key : TaskKey) (val : String) (b : Build Env Redir Cgroup) :
    Building Env Redir Cgroup :=
  match key with
  | .capClear => b.set (cfgCapClearHandler env.toHandlerEnv val b.draft)
  | .capSet => b.set (cfgCapSetHandler env.toHandlerEnv val b.draft)
  | .cgroupName => b.set (handleCgroupName env.toHandlerEnv val b.draft)
  | .cgroupParams => b.set (handleCgroupParams env.toHandlerEnv val b.draft)
  | .command => b.set (cfgCmdHandler val b.draft)
  | .depends => handleDepends env.toHandlerEnv val b
  | .envSet => b.set (cfgEnvHandler env.toHandlerEnv val b.draft)
  | .filterDefine => b.set (cfgFilterHandler env.toHandlerEnv val b.draft)
  | .group => b.set (handleGroup env.toHandlerEnv val b.draft)
  | .incl => b.fail
  | .ioRedir => b.set (cfgIoRedirHandler env.toHandlerEnv val b.draft)
  | .name => b.set (cfgNameHandler val b.draft)
  | .provides => b.set (cfgPrvHandler val b.draft)
  | .respawn => b.set (cfgRespHandler val b.draft)
  | .respawnRetries => b.set (cfgRespRetHandler val b.draft)
  | .stopCommand => b.set (cfgStopCmdHandler val b.draft)
  | .trigger => handleTrigger env.toHandlerEnv val b
  | .triggerRearm => b.set (cfgTrigRearmHandler val b.draft)
  | .user => b.set (handleUser env.toHandlerEnv val b.draft)

def importTokens (importList : String) : List String :=
  ((importList.toList.splitOn ',').filter fun token => token ≠ []).map String.ofList

def importArr (type : TaskType) (importList : Option String) : Option (TaskKey → Bool) :=
  match type, importList with
  | .incl, some importList =>
    ((importTokens importList).mapM findConfigMapping).map fun ms key => ms.any fun m =>
      m.config = key
  | _, _ => some fun _ => true

/-- The loop of `crinitTaskSetFromConfKvList`; `dupl` are the keys it has seen. -/
def setLoop (handle : TaskKey → String → Build Env Redir Cgroup → Building Env Redir Cgroup)
    (type : TaskType)
    (imported : TaskKey → Bool) : List TaskKey → List ConfKv → Build Env Redir Cgroup →
      Building Env Redir Cgroup
  | _, [], b => .ok b
  | dupl, kv :: kvs, b =>
    match findConfigMapping kv.key with
    | none => setLoop handle type imported dupl kvs b
    | some m =>
      if !m.includeSafe && type = .incl then b.fail
      else if !m.arrayLike && m.config ∈ dupl then b.fail
      else if imported m.config then
        match handle m.config kv.val b with
        | .error stop => .error stop
        | .ok b => setLoop handle type imported (m.config :: dupl) kvs b
      else setLoop handle type imported (m.config :: dupl) kvs b

def taskSetFromConfKvList (handle : TaskKey → String → Build Env Redir Cgroup →
      Building Env Redir Cgroup)
    (src : ConfList) (type : TaskType) (importList : Option String) (b : Build Env Redir Cgroup) :
    Building Env Redir Cgroup :=
  match importArr type importList with
  | none => b.fail
  | some imported =>
    match src with
    | .unset => .error .undefined
    | .entries kvs => setLoop handle type imported [] kvs b

def inclPath (src : String) : String := env.inclDir ++ "/" ++ src ++ env.inclSuffix

def taskMergeInclude (src : String) (importList : Option String) (b : Build Env Redir Cgroup) :
    Building Env Redir Cgroup :=
  match env.parse (inclPath env src) with
  | none => b.fail
  | some c => taskSetFromConfKvList (handlePlain env) c .incl importList b

def taskIncludeHandler (val : String) (b : Build Env Redir Cgroup) : Building Env Redir Cgroup :=
  match confConvToStrArr val true with
  | some [src] => taskMergeInclude env src none b
  | some [src, importList] => taskMergeInclude env src (some importList) b
  | _ => b.fail

def cfgHandler (key : TaskKey) (val : String) (b : Build Env Redir Cgroup) :
    Building Env Redir Cgroup :=
  if key = .incl then taskIncludeHandler env val b else handlePlain env key val b

def Build.finish (b : Build Env Redir Cgroup) : Building Env Redir Cgroup :=
  if b.draft.name = none then b.fail
  else if b.draft.cmds = [] ∧ b.draft.deps = [] then b.fail
  else .ok b

def taskCreateFromConfKvList (c : ConfList) (pool : TimerDB) : Building Env Redir Cgroup :=
  match taskSetFromConfKvList (cfgHandler env) c .standard none
      ⟨{ taskEnv := env.globEnv, elosFilters := env.globFilters }, pool⟩ with
  | .error stop => .error stop
  | .ok b => b.finish

def TaskDraft.newTask (d : TaskDraft Env Redir Cgroup) (createTime : Timespec) : NewTask where
  task := { name := d.name.getD "", cmds := d.cmds, stopCmds := d.stopCmds, deps := d.deps,
            trig := d.trig, triggered := d.trig.isEmpty, prv := d.prv, opts := d.opts,
            maxRetries := d.maxRetries, createTime := createTime }
  loaded := rfl
  noPid := rfl
  noFailures := rfl
  notInhibited := rfl
  untriggered := rfl

end Construction

theorem mapping_mem {key : String} {m : ConfigMapping} (found : findConfigMapping key = some m) :
    m ∈ taskCfgMap ∧ m.configKey = key := by
  have named := find?_some found
  exact ⟨mem_of_find?_eq_some found, by simpa using named⟩

/-- What may stand in an include file may be repeated, and is no INCLUDE. -/
theorem includeSafe_arrayLike :
    ∀ m ∈ taskCfgMap, m.includeSafe = true → m.arrayLike = true ∧ m.config ≠ .incl := by
  decide

theorem config_injective : ∀ m ∈ taskCfgMap, ∀ m' ∈ taskCfgMap, m.config = m'.config →
      m = m' := by decide

section Loop

variable {handle : TaskKey → String → Build Env Redir Cgroup → Building Env Redir Cgroup}
    {type : TaskType}
  {imported : TaskKey → Bool}

def Agree (dupl dupl' : List TaskKey) : Prop :=
  ∀ m ∈ taskCfgMap, m.arrayLike = false → (m.config ∈ dupl ↔ m.config ∈ dupl')

theorem Agree.refl (dupl : List TaskKey) : Agree dupl dupl := fun _ _ _ => Iff.rfl

variable {dupl dupl' : List TaskKey}

theorem Agree.symm (agree : Agree dupl dupl') : Agree dupl' dupl :=
  fun m mem single =>
  (agree m mem single).symm

theorem Agree.cons (agree : Agree dupl dupl') (key : TaskKey) :
    Agree (key :: dupl) (key :: dupl') := fun m mem single => by
  rw [mem_cons, mem_cons, agree m mem single]

theorem Agree.skip (agree : Agree dupl dupl') {m : ConfigMapping} (known : m ∈ taskCfgMap)
    (array : m.arrayLike = true) : Agree dupl (m.config :: dupl') := fun m' mem single => by
  have other : m'.config ≠ m.config := fun same => by
    rw [config_injective m' mem m known same, array] at single
    cases single
  rw [mem_cons, or_iff_right other, agree m' mem single]

theorem setLoop_agree (agree : Agree dupl dupl') (kvs : List ConfKv) (b : Build Env Redir Cgroup) :
    setLoop handle type imported dupl kvs b = setLoop handle type imported dupl' kvs b := by
  induction kvs generalizing dupl dupl' b with
  | nil => rfl
  | cons kv kvs ih =>
    unfold setLoop
    cases found : findConfigMapping kv.key with
    | none => exact ih agree b
    | some m =>
      have same : (!m.arrayLike && decide (m.config ∈ dupl)) =
        (!m.arrayLike && decide (m.config ∈ dupl')) := by
        cases array : m.arrayLike with
        | true => rfl
        | false => simp [agree m (mapping_mem found).1 array]
      simp only [same, ih (agree.cons m.config)]

end Loop

end Crinit
