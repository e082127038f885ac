import Crinit.TaskLoop
import Mathlib.Order.WithBot

/-! Global settings while a task is created. CGROUP_NAME of a global cgroup is a pointer into the
option storage, through which CGROUP_PARAMS writes. -/
namespace Crinit

open List

/-- `crinitCgroupParam_t`; nobody looks at the result of `strndup` and `strdup`. -/
structure CgroupParam where
  filename : Option String
  option : Option String
  deriving DecidableEq, Repr

/-- The pointer to a `crinitCgroupConfiguration_t`, which may be left behind in freed memory. -/
inductive CgroupConfig
  | null
  | params (ps : List CgroupParam)
  | freed
  deriving DecidableEq, Repr

structure Cgroup where
  name : Option String := none
  underRoot : Bool := false
  config : CgroupConfig := .null
  deriving DecidableEq, Repr

structure GlobOptStore (Env : Type) where
  globEnv : Env
  globFilters : Env
  rootCgroup : Option Cgroup := none
  globCgroups : List Cgroup := []

variable {Env Redir : Type}

def CgroupConfig.content : CgroupConfig → Option (List CgroupParam)
  | .null => some []
  | .params ps => some ps
  | .freed => none

/-- Parameters in freed memory are none. -/
structure CgroupContent where
  name : Option String
  underRoot : Bool
  params : Option (List CgroupParam)
  deriving DecidableEq, Repr

def Cgroup.content (cg : Cgroup) : CgroupContent := ⟨cg.name, cg.underRoot, cg.config.content⟩

structure GlobContent (Env : Type) where
  globEnv : Env
  globFilters : Env
  rootCgroup : Option CgroupContent
  globCgroups : List CgroupContent
  deriving DecidableEq, Repr

def GlobOptStore.content (store : GlobOptStore Env) : GlobContent Env :=
  ⟨store.globEnv, store.globFilters, store.rootCgroup.map Cgroup.content,
    store.globCgroups.map Cgroup.content⟩

def GlobOptStore.find (store : GlobOptStore Env) (name : String) : Option Nat :=
  let i := store.globCgroups.findIdx fun cg => cg.name = some name
  if i < store.globCgroups.length then some i else none

def GlobOptStore.modify (store : GlobOptStore Env) (i : Nat) (f : Cgroup → Cgroup) :
    GlobOptStore Env :=
  { store with globCgroups := store.globCgroups.modify i f }

def GlobOptStore.withConfig (store : GlobOptStore Env) (i : Nat) (callocOk : Bool) :
    GlobOptStore Env :=
  store.modify i fun cg =>
    if cg.config = .null ∧ callocOk then { cg with config := .params [] } else cg

inductive TaskCgroup
  | shared (i : Nat)
  | own (cg : Cgroup)
  deriving DecidableEq, Repr

structure CgroupMem where
  findOk : Bool := true
  cgroupOk : Bool := true
  nameOk : Bool := true
  configOk : Bool := true
  growOk : Bool := true
  filenameOk : Bool := true
  optionOk : Bool := true
  deriving DecidableEq, Repr

structure StoreBuild (Env Redir : Type) where
  build : Build Env Redir TaskCgroup
  store : GlobOptStore Env
  calls : Nat := 0

def StoreBuild.cgroup (b : StoreBuild Env Redir) : Option TaskCgroup := b.build.draft.cgroup

def StoreBuild.put (b : StoreBuild Env Redir) (cgroup : TaskCgroup) (store : GlobOptStore Env) :
    StoreBuild Env Redir :=
  ⟨{ b.build with draft := { b.build.draft with cgroup := some cgroup } }, store, b.calls + 1⟩

structure StoreStop (Env : Type) where
  stop : BuildStop
  store : GlobOptStore Env
  cgroup : Option TaskCgroup

def StoreBuild.fail (b : StoreBuild Env Redir) (store : GlobOptStore Env)
    (cgroup : Option TaskCgroup) : Except (StoreStop Env) (StoreBuild Env Redir) :=
  .error ⟨.failed b.build.pool, store, cgroup⟩

def cfgCgroupNameHandler (mem : CgroupMem) (val : String) (b : StoreBuild Env Redir) :
    Except (StoreStop Env) (StoreBuild Env Redir) :=
  if val = "" then b.fail b.store b.cgroup
  else
    match b.store.find val with
    | some i => .ok (b.put (.shared i) (b.store.withConfig i mem.findOk))
    | none =>
      let root := b.store.rootCgroup.isSome
      let name := if mem.nameOk then some val else none
      match b.cgroup with
      | none =>
        if !mem.cgroupOk then b.fail b.store none
        else if mem.nameOk then .ok (b.put (.own ⟨name, root, .null⟩) b.store)
        else b.fail b.store (some (.own ⟨name, root, .null⟩))
      | some (.own cg) =>
        if mem.nameOk then .ok (b.put (.own ⟨name, root, cg.config⟩) b.store)
        else b.fail b.store (some (.own ⟨name, root, cg.config⟩))
      | some (.shared i) =>
        let store := b.store.modify i fun cg => ⟨name, root, cg.config⟩
        if mem.nameOk then .ok (b.put (.shared i) store) else b.fail store (some (.shared i))

def singleParam (mem : CgroupMem) (val : String) : Option CgroupParam :=
  if '=' ∈ val.toList then
    some ⟨if mem.filenameOk then some (String.ofList (val.toList.takeWhile (· != '='))) else none,
      if mem.optionOk then some (String.ofList ((val.toList.dropWhile (· != '=')).drop 1))
      else none⟩
  else none

/-- A configuration that was there before is freed on a failure and stays in the cgroup; `none` is
an access to freed memory. -/
def addParam (mem : CgroupMem) (val : String) : CgroupConfig → Option (Bool × CgroupConfig)
  | .freed => none
  | .null =>
    if mem.configOk && mem.growOk then
      match singleParam mem val with
      | some p => some (true, .params [p])
      | none => some (false, .null)
    else some (false, .null)
  | .params ps =>
    if mem.growOk then
      match singleParam mem val with
      | some p => some (true, .params (ps ++ [p]))
      | none => some (false, .freed)
    else some (false, .freed)

def cfgCgroupParamsHandler (mem : CgroupMem) (val : String) (b : StoreBuild Env Redir) :
    Except (StoreStop Env) (StoreBuild Env Redir) :=
  match b.cgroup with
  | none => b.fail b.store none
  | some (.own cg) =>
    if cg.name = none then b.fail b.store b.cgroup
    else
      match addParam mem val cg.config with
      | none => .error ⟨.undefined, b.store, b.cgroup⟩
      | some (true, config) => .ok (b.put (.own { cg with config := config }) b.store)
      | some (false, config) => b.fail b.store (some (.own { cg with config := config }))
  | some (.shared i) =>
    match b.store.globCgroups[i]? with
    | none => .error ⟨.undefined, b.store, b.cgroup⟩
    | some cg =>
      if cg.name = none then b.fail b.store b.cgroup
      else
        match addParam mem val cg.config with
        | none => .error ⟨.undefined, b.store, b.cgroup⟩
        | some (true, config) =>
          .ok (b.put (.shared i) (b.store.modify i fun cg => { cg with config := config }))
        | some (false, config) =>
          b.fail (b.store.modify i fun cg => { cg with config := config }) b.cgroup

structure StoreEnv (Env Redir : Type) extends HandlerEnv Env Redir TaskCgroup where
  files : InclFiles
  envSetDup : Env → Option Env
  mem : Nat → CgroupMem
  destroyOk : Bool := true

variable (env : StoreEnv Env Redir)

def StoreEnv.confEnv (globEnv globFilters : Env) : ConfEnv Env Redir TaskCgroup :=
  { env.toHandlerEnv with
    inclDir := env.files.inclDir, inclSuffix := env.files.inclSuffix, parse := env.files.parse,
    globEnv := globEnv, globFilters := globFilters }

def storeHandle (key : TaskKey) (val : String) (b : StoreBuild Env Redir) :
    Except (StoreStop Env) (StoreBuild Env Redir) :=
  match key with
  | .cgroupName => cfgCgroupNameHandler (env.mem b.calls) val b
  | .cgroupParams => cfgCgroupParamsHandler (env.mem b.calls) val b
  | key =>
    match handlePlain (env.confEnv b.store.globEnv b.store.globFilters) key val b.build with
    | .error stop => .error ⟨stop, b.store, b.cgroup⟩
    | .ok build => .ok { b with build := build }

def storeTask : Representation (StoreBuild Env Redir) (StoreStop Env) where
  handle := storeHandle env
  failed := fun b => ⟨.failed b.build.pool, b.store, b.cgroup⟩
  undefined := fun b => ⟨.undefined, b.store, b.cgroup⟩

def GlobOptStore.nameOf (store : GlobOptStore Env) : TaskCgroup → Option String
  | .shared i => store.globCgroups[i]?.bind Cgroup.name
  | .own cg => cg.name

/-- The cgroup of the task is freed unless it has the name of a global one. -/
def GlobOptStore.destroyTask (store : GlobOptStore Env) (callocOk : Bool) :
    Option TaskCgroup → GlobOptStore Env
  | none => store
  | some cgroup =>
    match (store.nameOf cgroup).bind store.find, cgroup with
    | some i, _ => store.withConfig i callocOk
    | none, .own _ => store
    | none, .shared i => store.modify i fun _ => ⟨none, false, .freed⟩

/-- The end of `crinitTaskCreateFromConfKvList`: the task is checked, and destroyed if it fails. -/
def StoreEnv.finish : Except (StoreStop Env) (StoreBuild Env Redir) →
    Building Env Redir TaskCgroup × GlobOptStore Env
  | .error ⟨.undefined, store, _⟩ => (.error .undefined, store)
  | .error ⟨.failed pool, store, cgroup⟩ =>
    (.error (.failed pool), store.destroyTask env.destroyOk cgroup)
  | .ok b =>
    match b.build.finish with
    | .error stop => (.error stop, b.store.destroyTask env.destroyOk b.cgroup)
    | .ok build => (.ok build, b.store)

def StoreBuild.start (taskEnv elosFilters : Env) (pool : TimerDB) (store : GlobOptStore Env) :
    StoreBuild Env Redir :=
  ⟨⟨{ taskEnv := taskEnv, elosFilters := elosFilters }, pool⟩, store, 0⟩

def createIn (store : GlobOptStore Env) (c : ConfList) (pool : TimerDB) :
    Building Env Redir TaskCgroup × GlobOptStore Env :=
  match env.envSetDup store.globEnv, env.envSetDup store.globFilters with
  | some taskEnv, some elosFilters =>
    env.finish ((storeTask env).fill env.files c (.start taskEnv elosFilters pool store))
  | _, _ => (.error (.failed pool), store)

/-! ### What a line does to the storage -/

/-- How many parameters there are. Those in freed memory are more than any. -/
def amount : Option (List CgroupParam) → WithTop Nat
  | some ps => WithTop.some ps.length
  | none => ⊤

def GlobContent.amountAt (c : GlobContent Env) (i : Nat) : WithTop Nat :=
  (c.globCgroups[i]?.map fun cg => amount cg.params).getD ⊤

def Advances (store store' : GlobOptStore Env) : Prop :=
  ∀ i, store.content.amountAt i ≤ store'.content.amountAt i

def Grown (store store' : GlobOptStore Env) : Prop :=
  ∃ i, store.content.amountAt i < store'.content.amountAt i

section Storage

variable {store store' : GlobOptStore Env} {i : Nat}

theorem map_modify_same {A B : Type} {f : A → A} {g : A → B} (l : List A) (i : Nat)
    (same : ∀ a, l[i]? = some a → g (f a) = g a) : (l.modify i f).map g = l.map g := by
  refine ext_getElem? fun j => ?_
  rw [getElem?_map, getElem?_map, getElem?_modify]
  cases at' : l[j]? with
  | none => rfl
  | some a =>
    by_cases here : i = j
    · subst here
      simp [same a at']
    · simp [here]

variable {f : Cgroup → Cgroup}

theorem modify_content
    (same : ∀ cg, store.globCgroups[i]? = some cg → (f cg).content = cg.content) :
    (store.modify i f).content = store.content := by
  simp only [GlobOptStore.content, GlobOptStore.modify, map_modify_same _ _ same]

theorem withConfig_content (store : GlobOptStore Env) (i : Nat) (callocOk : Bool) :
    (store.withConfig i callocOk).content = store.content := by
  refine modify_content fun cg _ => ?_
  split_ifs with null
  · simp [Cgroup.content, null.1, CgroupConfig.content]
  · rfl

theorem advances_content (same : store'.content = store.content) : Advances store store' :=
  fun i => by rw [same]

theorem advances_trans {base : GlobOptStore Env} (advances : Advances base store)
    (later : Advances store store') : Advances base store' :=
  fun i => (advances i).trans (later i)

theorem grown_advances {base : GlobOptStore Env} (grown : Grown base store)
    (advances : Advances store store') : Grown base store' :=
  grown.imp fun i more => more.trans_le (advances i)

theorem advances_grown {base : GlobOptStore Env} (advances : Advances base store)
    (grown : Grown store store') : Grown base store' :=
  grown.imp fun i more => (advances i).trans_lt more

theorem grown_content (grown : Grown store store') : store'.content ≠ store.content := by
  intro same
  obtain ⟨i, more⟩ := grown
  rw [same] at more
  exact lt_irrefl _ more

theorem amountAt_modify (f : Cgroup → Cgroup) (j : Nat) : (store.modify i f).content.amountAt j =
    (store.globCgroups[j]?.map fun cg =>
      amount (if i = j then f cg else cg).config.content).getD ⊤ := by
  simp only [GlobContent.amountAt, GlobOptStore.content, GlobOptStore.modify, getElem?_map,
    getElem?_modify]
  cases store.globCgroups[j]? <;> simp [Cgroup.content]

theorem amountAt_content (j : Nat) : store.content.amountAt j =
    (store.globCgroups[j]?.map fun cg => amount cg.config.content).getD ⊤ := by
  simp [GlobContent.amountAt, GlobOptStore.content, Cgroup.content, Function.comp_def]

theorem modify_advances (more : ∀ cg, store.globCgroups[i]? = some cg →
      amount cg.config.content ≤ amount (f cg).config.content) :
    Advances store (store.modify i f) := by
  intro j
  rw [amountAt_modify, amountAt_content]
  cases place : store.globCgroups[j]? with
  | none => exact le_rfl
  | some cg =>
    by_cases same : i = j
    · subst same
      simpa using more cg place
    · simp [same]

theorem modify_grown {cg : Cgroup} (place : store.globCgroups[i]? = some cg)
    (more : amount cg.config.content < amount (f cg).config.content) :
    Grown store (store.modify i f) := by
  refine ⟨i, ?_⟩
  rw [amountAt_modify, amountAt_content, place]
  simpa using more

end Storage

/-! ### The lines that are not about cgroups -/

def storeOf : Except (StoreStop Env) (StoreBuild Env Redir) → GlobOptStore Env
  | .ok b => b.store
  | .error stop => stop.store

def cgroupOf : Except (StoreStop Env) (StoreBuild Env Redir) → Option TaskCgroup
  | .ok b => b.cgroup
  | .error stop => stop.cgroup

structure Leaves (b : StoreBuild Env Redir) (r : Except (StoreStop Env) (StoreBuild Env Redir)) :
    Prop where
  store : storeOf r = b.store
  cgroup : cgroupOf r = b.cgroup

section Lines

variable {env : StoreEnv Env Redir} {b : StoreBuild Env Redir} {val : String} {key : TaskKey}

theorem storeHandle_leaves (other : key.aboutCgroup = false) :
    Leaves b (storeHandle env key val b) := by
  have plain : storeHandle env key val b =
      match handlePlain (env.confEnv b.store.globEnv b.store.globFilters) key val b.build with
      | .error stop => .error ⟨stop, b.store, b.cgroup⟩
      | .ok build => .ok { b with build := build } := by
    cases key <;> first | rfl | cases other
  rw [plain]
  cases ok : handlePlain (env.confEnv b.store.globEnv b.store.globFilters) key val b.build with
  | error stop => exact ⟨rfl, rfl⟩
  | ok build => exact ⟨rfl, (handlePlain_frame ok).cgroup other⟩

variable {r : Except (StoreStop Env) (StoreBuild Env Redir)}

theorem leaves_trans {b' : StoreBuild Env Redir} (first : Leaves b (.ok b')) (later : Leaves b' r) :
    Leaves b r :=
  ⟨later.store.trans first.store, later.cgroup.trans first.cgroup⟩

theorem includeSafe_other : ∀ m ∈ taskCfgMap, m.includeSafe = true →
    m.config.aboutCgroup = false := by
  decide

theorem includeLoop_leaves (imported : TaskKey → Bool) (dupl : List TaskKey) (kvs : List ConfKv) :
    Leaves b ((storeTask env).fillLoop (storeTask env).handle .incl imported dupl kvs b) := by
  induction kvs generalizing dupl b with
  | nil => exact ⟨rfl, rfl⟩
  | cons kv kvs ih =>
    unfold Representation.fillLoop
    cases found : findConfigMapping kv.key with
    | none => exact ih dupl
    | some m =>
      dsimp only
      split_ifs with unsafe' twice imports
      · exact ⟨rfl, rfl⟩
      · exact ⟨rfl, rfl⟩
      · have safe : m.includeSafe = true := by simpa using unsafe'
        have step : Leaves b ((storeTask env).handle m.config kv.val b) :=
          storeHandle_leaves (includeSafe_other m (mapping_mem found).1 safe)
        generalize (storeTask env).handle m.config kv.val b = r at step ⊢
        cases r with
        | error stop => exact step
        | ok b' => exact leaves_trans step (ih _)
      · exact ih _

theorem include_leaves : Leaves b ((storeTask env).includeHandler env.files val b) := by
  have merged : ∀ src importList,
      Leaves b ((storeTask env).mergeInclude env.files src importList b) := by
    intro src importList
    unfold Representation.mergeInclude
    cases env.files.parse (env.files.inclDir ++ "/" ++ src ++ env.files.inclSuffix) with
    | none => exact ⟨rfl, rfl⟩
    | some c =>
      simp only [Representation.fillFrom]
      cases importArr .incl importList with
      | none => exact ⟨rfl, rfl⟩
      | some imported =>
        cases c with
        | unset => exact ⟨rfl, rfl⟩
        | entries kvs => exact includeLoop_leaves imported [] kvs
  unfold Representation.includeHandler
  split
  · exact merged _ none
  · exact merged _ _
  · exact ⟨rfl, rfl⟩

inductive LineDoes (env : StoreEnv Env Redir) (b : StoreBuild Env Redir) (key : TaskKey)
    (val : String) (r : Except (StoreStop Env) (StoreBuild Env Redir)) : Prop
  | keeps (store : storeOf r = b.store)
      (cgroup : ∀ i, cgroupOf r = some (.shared i) → b.cgroup = some (.shared i))
  | refers (about : key = .cgroupName) (i : Nat) (cg : Cgroup) (callocOk : Bool)
      (place : b.store.globCgroups[i]? = some cg) (named : cg.name ≠ none)
      (store : storeOf r = b.store.withConfig i callocOk) (cgroup : cgroupOf r = some (.shared i))
  | renames (about : key = .cgroupName) (i : Nat) (f : Cgroup → Cgroup)
      (shared : b.cgroup = some (.shared i)) (config : ∀ cg, (f cg).config = cg.config)
      (store : storeOf r = b.store.modify i f)
  | writes (about : key = .cgroupParams) (i : Nat) (cg : Cgroup) (done : Bool)
      (config : CgroupConfig) (shared : b.cgroup = some (.shared i))
      (place : b.store.globCgroups[i]? = some cg) (named : cg.name ≠ none)
      (added : addParam (env.mem b.calls) val cg.config = some (done, config))
      (store : storeOf r = b.store.modify i fun cg => { cg with config := config })
      (cgroup : cgroupOf r = some (.shared i))

theorem find_place {store : GlobOptStore Env} {name : String} {i : Nat}
    (found : store.find name = some i) :
    ∃ cg, store.globCgroups[i]? = some cg ∧ cg.name = some name := by
  unfold GlobOptStore.find at found
  dsimp only at found
  split_ifs at found with inside
  cases found
  exact ⟨_, getElem?_eq_getElem inside, by
    simpa using findIdx_getElem (w := inside)⟩

theorem nameHandler_does (mem : CgroupMem) :
    LineDoes env b .cgroupName val (cfgCgroupNameHandler mem val b) := by
  unfold cfgCgroupNameHandler
  by_cases empty : val = ""
  · rw [if_pos empty]
    exact .keeps rfl fun _ same => same
  · rw [if_neg empty]
    cases found : b.store.find val with
    | some i =>
      obtain ⟨cg, place, name⟩ := find_place found
      exact .refers rfl i cg mem.findOk place (by simp [name]) rfl rfl
    | none =>
      dsimp only
      cases shared : b.cgroup with
      | none =>
        dsimp only
        split_ifs <;> exact .keeps rfl fun i same => by cases same
      | some cgroup =>
        cases cgroup with
        | own cg =>
          dsimp only
          split_ifs <;> exact .keeps rfl fun i same => by cases same
        | shared i =>
          dsimp only
          split_ifs
          · exact .renames rfl i (fun cg => ⟨some val, b.store.rootCgroup.isSome, cg.config⟩) shared
              (fun _ => rfl) rfl
          · exact .renames rfl i (fun cg => ⟨none, b.store.rootCgroup.isSome, cg.config⟩) shared
              (fun _ => rfl) rfl

theorem paramsHandler_does :
    LineDoes env b .cgroupParams val (cfgCgroupParamsHandler (env.mem b.calls) val b) := by
  unfold cfgCgroupParamsHandler
  cases shared : b.cgroup with
  | none => exact .keeps rfl fun i same => by cases same
  | some cgroup =>
    cases cgroup with
    | own cg =>
      dsimp only
      by_cases unnamed : cg.name = none
      · rw [if_pos unnamed]
        exact .keeps rfl fun i same => by cases same
      · rw [if_neg unnamed]
        split
        · exact .keeps rfl fun i same => by cases same
        · exact .keeps rfl fun i same => by cases same
        · exact .keeps rfl fun i same => by cases same
    | shared i =>
      dsimp only
      cases place : b.store.globCgroups[i]? with
      | none => exact .keeps rfl fun i same => shared.trans same
      | some cg =>
        dsimp only
        split_ifs with named
        · exact .keeps rfl fun i same => shared.trans same
        · split
          · exact .keeps rfl fun i same => shared.trans same
          · rename_i config added
            exact .writes rfl i cg true config shared place named added rfl rfl
          · rename_i config added
            exact .writes rfl i cg false config shared place named added rfl rfl

theorem handleKey_does (key : TaskKey) :
    LineDoes env b key val ((storeTask env).handleKey env.files key val b) := by
  unfold Representation.handleKey
  split_ifs
  · have leaves := @include_leaves _ _ env b val
    exact .keeps leaves.store fun i same => leaves.cgroup.symm.trans same
  · change LineDoes env b key val (storeHandle env key val b)
    cases other : key.aboutCgroup with
    | false =>
      have leaves := @storeHandle_leaves _ _ env b val key other
      exact .keeps leaves.store fun i same => leaves.cgroup.symm.trans same
    | true =>
      cases key with
      | cgroupName => exact nameHandler_does _
      | cgroupParams => exact paramsHandler_does
      | _ => cases other

/-- The allocations count only if the cgroup has no configuration, for want of memory when its name
was looked up. -/
structure WritesShared (env : StoreEnv Env Redir) (b : StoreBuild Env Redir) (val : String)
    (i : Nat) (cg : Cgroup) : Prop where
  shared : b.cgroup = some (.shared i)
  place : b.store.globCgroups[i]? = some cg
  named : cg.name ≠ none
  alive : cg.config ≠ .freed
  reaches : cg.config = .null → (env.mem b.calls).configOk = true ∧
    (env.mem b.calls).growOk = true ∧ '=' ∈ val.toList

variable {mem : CgroupMem} {config : CgroupConfig}

theorem addParam_changes (alive : config ≠ .freed)
    (reaches : config = .null → mem.configOk = true ∧ mem.growOk = true ∧ '=' ∈ val.toList) :
    ∃ done config', addParam mem val config = some (done, config') ∧
      amount config.content < amount config'.content := by
  have freed (ps : List CgroupParam) : amount (some ps) < amount none := WithTop.coe_lt_top _
  have longer (ps : List CgroupParam) (p : CgroupParam) :
      amount (some ps) < amount (some (ps ++ [p])) := WithTop.coe_lt_coe.2 (by simp)
  cases config with
  | freed => exact absurd rfl alive
  | null =>
    obtain ⟨configOk, growOk, sign⟩ := reaches rfl
    simp only [addParam, configOk, growOk, singleParam, if_pos sign, Bool.and_self, if_true]
    exact ⟨_, _, rfl, longer [] _⟩
  | params ps =>
    simp only [addParam]
    split_ifs
    · cases singleParam mem val with
      | none => exact ⟨_, _, rfl, freed ps⟩
      | some p => exact ⟨_, _, rfl, longer ps p⟩
    · exact ⟨_, _, rfl, freed ps⟩

variable {config' : CgroupConfig} {done : Bool}

theorem addParam_alive (added : addParam mem val config = some (done, config')) :
    config ≠ .freed := by
  rintro rfl
  cases added

theorem addParam_refused (refused : ¬(mem.configOk = true ∧ mem.growOk = true ∧ '=' ∈ val.toList))
    (added : addParam mem val .null = some (done, config')) : config' = .null := by
  simp only [addParam] at added
  split_ifs at added with memory
  · rw [Bool.and_eq_true] at memory
    have noSign : '=' ∉ val.toList := fun sign => refused ⟨memory.1, memory.2, sign⟩
    rw [singleParam, if_neg noSign] at added
    cases added
    rfl
  · cases added
    rfl

theorem addParam_amount (added : addParam mem val config = some (done, config')) :
    amount config.content ≤ amount config'.content := by
  by_cases reaches : config = .null → mem.configOk = true ∧ mem.growOk = true ∧ '=' ∈ val.toList
  · obtain ⟨done', config'', added', more⟩ := addParam_changes (addParam_alive added) reaches
    cases added.symm.trans added'
    exact more.le
  · obtain ⟨rfl, refused⟩ := Classical.not_imp.1 reaches
    rw [addParam_refused refused added]

theorem params_grow {i : Nat} {cg : Cgroup} (writes : WritesShared env b val i cg) :
    Grown b.store (storeOf (cfgCgroupParamsHandler (env.mem b.calls) val b)) := by
  obtain ⟨shared, place, named, alive, reaches⟩ := writes
  obtain ⟨done, config, added, further⟩ := addParam_changes alive reaches
  have store : storeOf (cfgCgroupParamsHandler (env.mem b.calls) val b) =
      b.store.modify i fun cg => { cg with config := config } := by
    simp only [cfgCgroupParamsHandler, shared, place, if_neg named, added]
    cases done <;> rfl
  rw [store]
  exact modify_grown place further

theorem line_advances (does : LineDoes env b key val r) : Advances b.store (storeOf r) := by
  cases does with
  | keeps store _ =>
    rw [store]
    exact advances_content rfl
  | refers _ i cg callocOk _ _ store _ =>
    rw [store]
    exact advances_content (withConfig_content _ _ _)
  | renames _ i f _ config store =>
    rw [store]
    exact modify_advances fun cg _ => by rw [config]
  | writes _ i cg done config _ place _ added store _ =>
    rw [store]
    refine modify_advances fun cg' place' => ?_
    cases place.symm.trans place'
    exact addParam_amount added

def Grounded (store : GlobOptStore Env) (cgroup : Option TaskCgroup) : Prop :=
  ∀ i, cgroup = some (.shared i) → ∃ cg, store.globCgroups[i]? = some cg ∧ cg.name ≠ none

theorem grounded_content {store store' : GlobOptStore Env} {cgroup : Option TaskCgroup}
    (same : store'.content = store.content) (grounded : Grounded store cgroup) :
    Grounded store' cgroup := by
  intro i shared
  obtain ⟨cg, place, named⟩ := grounded i shared
  have cgroups : store'.globCgroups.map Cgroup.content = store.globCgroups.map Cgroup.content :=
    congrArg GlobContent.globCgroups same
  have there := congrArg (fun l => l[i]?) cgroups
  simp only [getElem?_map, place, Option.map_some] at there
  obtain ⟨cg', place', content⟩ := Option.map_eq_some_iff.1 there
  refine ⟨cg', place', ?_⟩
  rw [show cg'.name = cg.name from congrArg CgroupContent.name content]
  exact named

structure LineKeeps (b : StoreBuild Env Redir) (key : TaskKey)
    (r : Except (StoreStop Env) (StoreBuild Env Redir)) : Prop where
  content : (storeOf r).content = b.store.content
  grounded : Grounded (storeOf r) (cgroupOf r)
  named : key ≠ .cgroupName → ∀ i, cgroupOf r = some (.shared i) → b.cgroup = some (.shared i)

theorem line_keeps (does : LineDoes env b key val r) (grounded : Grounded b.store b.cgroup)
    (once : key = .cgroupName → ∀ i, b.cgroup ≠ some (.shared i))
    (spared : key = .cgroupParams → ∀ i cg, ¬WritesShared env b val i cg) : LineKeeps b key r := by
  cases does with
  | keeps store cgroup =>
    refine ⟨congrArg _ store, fun i shared => ?_, fun _ => cgroup⟩
    rw [store]
    exact grounded i (cgroup i shared)
  | refers about i cg callocOk place named store cgroup =>
    have content := withConfig_content b.store i callocOk
    refine ⟨by rw [store, content], ?_, fun other => absurd about other⟩
    rw [store, cgroup]
    refine grounded_content content fun j same => ?_
    cases same
    exact ⟨cg, place, named⟩
  | renames about i f shared _ _ => exact absurd shared (once about i)
  | writes about i cg done config shared place named added store cgroup =>
    have content : (storeOf r).content = b.store.content := by
      rw [store]
      refine modify_content fun cg' place' => ?_
      cases place.symm.trans place'
      have refused : ¬(cg.config = .null → (env.mem b.calls).configOk = true ∧
          (env.mem b.calls).growOk = true ∧ '=' ∈ val.toList) := fun reaches =>
        spared about i cg ⟨shared, place, named, addParam_alive added, reaches⟩
      obtain ⟨null, refused⟩ := Classical.not_imp.1 refused
      rw [null] at added
      simp [Cgroup.content, null, addParam_refused refused added]
    refine ⟨content, grounded_content content (cgroup ▸ shared ▸ grounded), fun _ j same => ?_⟩
    rw [shared, ← cgroup, same]

end Lines

def keyCgroupParams : String := "CGROUP_PARAMS"

/-- `crinitTaskSetFromConfKvList` for a task file, from any of its lines on. -/
def storeLoop (dupl : List TaskKey) (kvs : List ConfKv) (b : StoreBuild Env Redir) :
    Except (StoreStop Env) (StoreBuild Env Redir) :=
  (storeTask env).fillLoop ((storeTask env).handleKey env.files) .standard
    (fun _ => true) dupl kvs b

section Loop

variable {env} {b : StoreBuild Env Redir} {dupl : List TaskKey}

theorem storeLoop_cons (kv : ConfKv) (kvs : List ConfKv) :
    (findConfigMapping kv.key = none ∧ ∀ kvs,
      storeLoop env dupl (kv :: kvs) b = storeLoop env dupl kvs b) ∨
    ∃ m, findConfigMapping kv.key = some m ∧
      ((m.arrayLike = false ∧ m.config ∈ dupl ∧ storeLoop env dupl (kv :: kvs) b =
          .error ⟨.failed b.build.pool, b.store, b.cgroup⟩) ∨
        ((m.arrayLike = false → m.config ∉ dupl) ∧ ∀ kvs, storeLoop env dupl (kv :: kvs) b =
          ((storeTask env).handleKey env.files m.config kv.val b).bind
            (storeLoop env (m.config :: dupl) kvs))) := by
  unfold storeLoop
  simp only [Representation.fillLoop]
  cases found : findConfigMapping kv.key with
  | none => exact .inl ⟨rfl, fun _ => rfl⟩
  | some m =>
    right
    refine ⟨m, rfl, ?_⟩
    simp only [reduceCtorEq, decide_false, Bool.and_false, Bool.false_eq_true, if_false, if_true]
    by_cases twice : (!m.arrayLike && decide (m.config ∈ dupl)) = true
    · left
      have parts := twice
      simp only [Bool.and_eq_true, Bool.not_eq_true', decide_eq_true_eq] at parts
      exact ⟨parts.1, parts.2, if_pos twice⟩
    · right
      refine ⟨fun single seen => twice (by simp [single, seen]), fun kvs => ?_⟩
      rw [if_neg twice]
      cases (storeTask env).handleKey env.files m.config kv.val b <;> rfl

theorem storeLoop_advances (kvs : List ConfKv) :
    Advances b.store (storeOf (storeLoop env dupl kvs b)) := by
  induction kvs generalizing dupl b with
  | nil => exact advances_content rfl
  | cons kv kvs ih =>
    rcases @storeLoop_cons _ _ env b dupl kv kvs with
      ⟨-, skipped⟩ | ⟨m, -, ⟨-, -, refused⟩ | ⟨-, handled⟩⟩
    · rw [skipped]
      exact ih
    · rw [refused]
      exact advances_content rfl
    · have step := line_advances (@handleKey_does _ _ env b kv.val m.config)
      rw [handled]
      generalize (storeTask env).handleKey env.files m.config kv.val b = r at step ⊢
      cases r with
      | error stop => exact step
      | ok b' => exact advances_trans step ih

def SharedNamed (dupl : List TaskKey) (cgroup : Option TaskCgroup) : Prop :=
  ∀ i, cgroup = some (.shared i) → .cgroupName ∈ dupl

def Spared (env : StoreEnv Env Redir) (dupl : List TaskKey) (kvs : List ConfKv)
    (b : StoreBuild Env Redir) : Prop :=
  ∀ pre val post b' i cg, kvs = pre ++ ⟨keyCgroupParams, val⟩ :: post →
    storeLoop env dupl pre b = .ok b' → ¬WritesShared env b' val i cg

theorem cgroup_mapping : ∀ m ∈ taskCfgMap, (m.config = .cgroupName → m.arrayLike = false) ∧
    (m.config = .cgroupParams → m.configKey = keyCgroupParams) := by
  decide

theorem storeLoop_keeps {kvs : List ConfKv} (grounded : Grounded b.store b.cgroup)
    (named : SharedNamed dupl b.cgroup) (spared : Spared env dupl kvs b) :
    (storeOf (storeLoop env dupl kvs b)).content = b.store.content ∧
      Grounded (storeOf (storeLoop env dupl kvs b)) (cgroupOf (storeLoop env dupl kvs b)) := by
  induction kvs generalizing dupl b with
  | nil => exact ⟨rfl, grounded⟩
  | cons kv kvs ih =>
    rcases @storeLoop_cons _ _ env b dupl kv kvs with
      ⟨-, skipped⟩ | ⟨m, found, ⟨-, -, refused⟩ | ⟨fresh, handled⟩⟩
    · rw [skipped]
      refine ih grounded named fun pre val post b' i cg split accepted => ?_
      exact spared (kv :: pre) val post b' i cg (by rw [split]; rfl) ((skipped pre).trans accepted)
    · rw [refused]
      exact ⟨rfl, grounded⟩
    · obtain ⟨known, key⟩ := mapping_mem found
      have once : m.config = .cgroupName → ∀ i, b.cgroup ≠ some (.shared i) := fun same i shared =>
        fresh ((cgroup_mapping m known).1 same) (same ▸ named i shared)
      have here : m.config = .cgroupParams → ∀ i cg, ¬WritesShared env b kv.val i cg := by
        intro same i cg
        refine spared [] kv.val kvs b i cg ?_ rfl
        rw [← (cgroup_mapping m known).2 same, key]
        rfl
      have step := line_keeps (@handleKey_does _ _ env b kv.val m.config) grounded once here
      have later : ∀ b', (storeTask env).handleKey env.files m.config kv.val b = .ok b' →
          Spared env (m.config :: dupl) kvs b' := by
        intro b' ok pre val post b'' i cg split accepted
        refine spared (kv :: pre) val post b'' i cg (by rw [split]; rfl) ?_
        rw [handled, ok]
        exact accepted
      rw [handled]
      generalize (storeTask env).handleKey env.files m.config kv.val b = r at step later ⊢
      cases r with
      | error stop => exact ⟨step.content, step.grounded⟩
      | ok b' =>
        have named' : SharedNamed (m.config :: dupl) b'.cgroup := by
          intro i shared
          by_cases names : m.config = .cgroupName
          · exact List.mem_cons.2 (.inl names.symm)
          · exact mem_cons_of_mem _ (named i (step.named names i shared))
        obtain ⟨content, grounded'⟩ := ih step.grounded named' (later b' rfl)
        exact ⟨content.trans step.content, grounded'⟩

theorem storeLoop_grows {pre : List ConfKv} {val : String} {b' : StoreBuild Env Redir}
    {i : Nat} {cg : Cgroup} (post : List ConfKv) (accepted : storeLoop env dupl pre b = .ok b')
    (writes : WritesShared env b' val i cg) : Grown b'.store
      (storeOf (storeLoop env dupl (pre ++ ⟨keyCgroupParams, val⟩ :: post) b)) := by
  have split : storeLoop env dupl (pre ++ ⟨keyCgroupParams, val⟩ :: post) b =
      (storeLoop env dupl pre b).bind (storeLoop env (Representation.seenKeys dupl pre)
        (⟨keyCgroupParams, val⟩ :: post)) :=
    Representation.fillLoop_append _ _ _ _ dupl pre _ b
  have step : storeLoop env (Representation.seenKeys dupl pre) (⟨keyCgroupParams, val⟩ :: post) b' =
      (cfgCgroupParamsHandler (env.mem b'.calls) val b').bind
        (storeLoop env (.cgroupParams :: Representation.seenKeys dupl pre) post) := by
    rcases @storeLoop_cons _ _ env b' (Representation.seenKeys dupl pre) ⟨keyCgroupParams, val⟩ post
      with ⟨unknown, -⟩ | ⟨m, found, ⟨single, -⟩ | ⟨-, handled⟩⟩
    · cases unknown
    · cases found
      cases single
    · cases found
      exact handled post
  have grown := params_grow writes
  rw [split, accepted]
  change Grown b'.store (storeOf (storeLoop env _ _ b'))
  rw [step]
  generalize cfgCgroupParamsHandler (env.mem b'.calls) val b' = r at grown ⊢
  cases r with
  | error stop => exact grown
  | ok b'' => exact grown_advances grown (storeLoop_advances post)

end Loop

def WritesGlobal (store : GlobOptStore Env) (c : ConfList) (pool : TimerDB) : Prop :=
  ∃ taskEnv elosFilters pre val post b i cg, env.envSetDup store.globEnv = some taskEnv ∧
    env.envSetDup store.globFilters = some elosFilters ∧
    c = .entries (pre ++ ⟨keyCgroupParams, val⟩ :: post) ∧
    (storeTask env).fill env.files (.entries pre) (.start taskEnv elosFilters pool store) = .ok b ∧
    WritesShared env b val i cg

section Result

variable {env} {store : GlobOptStore Env} {cgroup : Option TaskCgroup}

theorem named_found {name : String} {i : Nat} {cg : Cgroup}
    (place : store.globCgroups[i]? = some cg) (named : cg.name = some name) :
    ∃ j, store.find name = some j := by
  have inside : store.globCgroups.findIdx (fun cg => cg.name = some name) <
      store.globCgroups.length :=
    findIdx_lt_length_of_exists ⟨cg, mem_of_getElem? place, by simp [named]⟩
  exact ⟨_, if_pos inside⟩

theorem destroyTask_content (callocOk : Bool) (grounded : Grounded store cgroup) :
    (store.destroyTask callocOk cgroup).content = store.content := by
  unfold GlobOptStore.destroyTask
  split
  · rfl
  · rename_i cgroup
    split
    · exact withConfig_content _ _ _
    · rfl
    · -- the cgroup that is shared has a name, and is found by it
      rename_i i unknown
      obtain ⟨cg, place, named⟩ := grounded i rfl
      obtain ⟨name, same⟩ := Option.ne_none_iff_exists'.1 named
      obtain ⟨j, found⟩ := named_found place same
      rw [GlobOptStore.nameOf, place, Option.bind_some, same, Option.bind_some, found] at unknown
      cases unknown

theorem destroyTask_advances (callocOk : Bool) (cgroup : Option TaskCgroup) :
    Advances store (store.destroyTask callocOk cgroup) := by
  unfold GlobOptStore.destroyTask
  split
  · exact advances_content rfl
  · split
    · exact advances_content (withConfig_content _ _ _)
    · exact advances_content rfl
    · exact modify_advances fun _ _ => le_top

theorem finish_content {r : Except (StoreStop Env) (StoreBuild Env Redir)}
    (grounded : Grounded (storeOf r) (cgroupOf r)) :
    (env.finish r).2.content = (storeOf r).content := by
  rcases r with ⟨_ | _, store, cgroup⟩ | b
  · exact destroyTask_content env.destroyOk grounded
  · rfl
  · simp only [StoreEnv.finish]
    cases b.build.finish with
    | error stop => exact destroyTask_content env.destroyOk grounded
    | ok build => rfl

theorem finish_advances (r : Except (StoreStop Env) (StoreBuild Env Redir)) :
    Advances (storeOf r) (env.finish r).2 := by
  rcases r with ⟨_ | _, store, cgroup⟩ | b
  · exact destroyTask_advances env.destroyOk cgroup
  · exact advances_content rfl
  · simp only [StoreEnv.finish]
    cases b.build.finish with
    | error stop => exact destroyTask_advances env.destroyOk b.cgroup
    | ok build => exact advances_content rfl

end Result

/-- Creating a task, successfully or not, leaves the global settings as they are if and only if no
line of CGROUP_PARAMS gets to the parameters of a global cgroup. -/
theorem globals_kept_iff (store : GlobOptStore Env) (c : ConfList) (pool : TimerDB) :
    (createIn env store c pool).2.content = store.content ↔ ¬WritesGlobal env store c pool := by
  constructor
  · rintro same ⟨taskEnv, elosFilters, pre, val, post, b, i, cg, copied, copied', rfl, accepted,
      writes⟩
    have before : Advances store b.store := by
      have lines := @storeLoop_advances _ _ env (.start taskEnv elosFilters pool store) [] pre
      rw [show storeLoop env [] pre (.start taskEnv elosFilters pool store) = .ok b from accepted]
        at lines
      exact lines
    have grown := grown_advances (storeLoop_grows post accepted writes) (@finish_advances _ _ env _)
    refine grown_content (advances_grown before grown) ?_
    rw [← same, createIn, copied, copied']
    rfl
  · intro spared
    unfold createIn
    cases copied : env.envSetDup store.globEnv with
    | none => rfl
    | some taskEnv =>
      cases copied' : env.envSetDup store.globFilters with
      | none => rfl
      | some elosFilters =>
        cases c with
        | unset => rfl
        | entries kvs =>
          obtain ⟨content, grounded⟩ := @storeLoop_keeps _ _ env
            (.start taskEnv elosFilters pool store) [] kvs (fun _ shared => by cases shared)
            (fun _ shared => by cases shared) fun pre val post b i cg split accepted writes =>
              spared ⟨taskEnv, elosFilters, pre, val, post, b, i, cg, copied, copied',
                congrArg _ split, accepted, writes⟩
          exact (finish_content grounded).trans content

/-! ### A global cgroup and a task in it -/

def memRestricted : GlobOptStore (List String) where
  globEnv := ["PATH=/usr/bin"]
  globFilters := []
  globCgroups :=
    [⟨some "mem_restricted", true, .params [⟨some "memory.max", some "100M"⟩]⟩]

def storeEnv : StoreEnv (List String) String where
  users := userFile
  groups := groupFile
  capFromName := capNumber
  envSetMember := fun env val => some (env ++ [val])
  ioRedir := some
  cgroupName := fun cgroup _ => cgroup
  cgroupParams := fun cgroup _ => cgroup
  files := ⟨"/etc/crinit", ".crincl", fun _ => none⟩
  envSetDup := some
  mem := fun _ => {}

def inMemRestricted (param : String) : List ConfKv :=
  [⟨"NAME", "dhcp"⟩, ⟨"COMMAND", "/sbin/dhcpcd"⟩, ⟨"CGROUP_NAME", "mem_restricted"⟩,
   ⟨keyCgroupParams, param⟩]

/-- A task adds its parameter to the global cgroup; one with a malformed parameter is refused, and
leaves the global cgroup with parameters in freed memory. -/
theorem task_changes_globals :
    (∃ b, (createIn storeEnv memRestricted (.entries (inMemRestricted "memory.max=1G")) {}).1 =
      .ok b) ∧
    (createIn storeEnv memRestricted (.entries (inMemRestricted "memory.max=1G")) {}).2.content ≠
      memRestricted.content ∧
    (∃ pool, (createIn storeEnv memRestricted (.entries (inMemRestricted "memory.max")) {}).1 =
      .error (.failed pool)) ∧
    (createIn storeEnv memRestricted (.entries (inMemRestricted "memory.max")) {}).2.content ≠
      memRestricted.content := by
  refine ⟨⟨_, rfl⟩, ?_, ⟨_, rfl⟩, ?_⟩
  · decide
  · decide

end Crinit
