import Crinit.TaskConf

/-! The loop over the keys and values of a task for any representation of it, and what two
representations have in common. -/
namespace Crinit

variable {B B' E E' : Type}

structure Representation (B E : Type) where
  handle : TaskKey → String → B → Except E B
  failed : B → E
  undefined : B → E

structure InclFiles where
  inclDir : String
  inclSuffix : String
  parse : String → Option ConfList

namespace Representation

variable (rep : Representation B E)

def fillLoop (handle : TaskKey → String → B → Except E B) (type : TaskType)
    (imported : TaskKey → Bool) : List TaskKey → List ConfKv → B → Except E B
  | _, [], b => .ok b
  | dupl, kv :: kvs, b =>
    match findConfigMapping kv.key with
    | none => fillLoop handle type imported dupl kvs b
    | some m =>
      if !m.includeSafe && type = .incl then .error (rep.failed b)
      else if !m.arrayLike && m.config ∈ dupl then .error (rep.failed b)
      else if imported m.config then
        match handle m.config kv.val b with
        | .error stop => .error stop
        | .ok b => fillLoop handle type imported (m.config :: dupl) kvs b
      else fillLoop handle type imported (m.config :: dupl) kvs b

def fillFrom (handle : TaskKey → String → B → Except E B) (src : ConfList) (type : TaskType)
    (importList : Option String) (b : B) : Except E B :=
  match importArr type importList with
  | none => .error (rep.failed b)
  | some imported =>
    match src with
    | .unset => .error (rep.undefined b)
    | .entries kvs => rep.fillLoop handle type imported [] kvs b

def mergeInclude (files : InclFiles) (src : String) (importList : Option String) (b : B) :
    Except E B :=
  match files.parse (files.inclDir ++ "/" ++ src ++ files.inclSuffix) with
  | none => .error (rep.failed b)
  | some c => rep.fillFrom rep.handle c .incl importList b

def includeHandler (files : InclFiles) (val : String) (b : B) : Except E B :=
  match confConvToStrArr val true with
  | some [src] => rep.mergeInclude files src none b
  | some [src, importList] => rep.mergeInclude files src (some importList) b
  | _ => .error (rep.failed b)

def handleKey (files : InclFiles) (key : TaskKey) (val : String) (b : B) : Except E B :=
  if key = .incl then rep.includeHandler files val b else rep.handle key val b

def fill (files : InclFiles) (c : ConfList) (b : B) : Except E B :=
  rep.fillFrom (rep.handleKey files) c .standard none b

def seenKeys (dupl : List TaskKey) (kvs : List ConfKv) : List TaskKey :=
  kvs.foldl (fun seen kv => match findConfigMapping kv.key with
    | none => seen
    | some m => m.config :: seen) dupl

theorem fillLoop_append (handle : TaskKey → String → B → Except E B) (type : TaskType)
    (imported : TaskKey → Bool) (dupl : List TaskKey) (pre rest : List ConfKv) (b : B) :
    rep.fillLoop handle type imported dupl (pre ++ rest) b =
      (rep.fillLoop handle type imported dupl pre b).bind
        (rep.fillLoop handle type imported (seenKeys dupl pre) rest) := by
  induction pre generalizing dupl b with
  | nil => rfl
  | cons kv pre ih =>
    rw [List.cons_append, fillLoop, fillLoop, seenKeys, List.foldl_cons]
    cases findConfigMapping kv.key with
    | none => exact ih dupl b
    | some m =>
      dsimp only
      split_ifs
      · rfl
      · rfl
      · cases handle m.config kv.val b with
        | error stop => rfl
        | ok b => exact ih _ b
      · exact ih _ b

end Representation

inductive Related (R : B → B' → Prop) (S : E → E' → Prop) : Except E B → Except E' B' → Prop
  | ok {b : B} {b' : B'} : R b b' → Related R S (.ok b) (.ok b')
  | error {e : E} {e' : E'} : S e e' → Related R S (.error e) (.error e')

theorem Related.check {R : B → B' → Prop} {S : E → E' → Prop} {e : E} {e' : E'}
    {r : Except E B} {r' : Except E' B'} {c c' : Prop} [Decidable c] [Decidable c']
    (same : c ↔ c') (error : S e e') (rest : Related R S r r') :
    Related R S (if c then .error e else r) (if c' then .error e' else r') := by
  by_cases failed : c
  · rw [if_pos failed, if_pos (same.1 failed)]
    exact .error error
  · rw [if_neg failed, if_neg fun failed' => failed (same.2 failed')]
    exact rest

structure Simulates (R : B → B' → Prop) (S : E → E' → Prop) (rep : Representation B E)
    (rep' : Representation B' E') : Prop where
  handle : ∀ key val b b', R b b' → Related R S (rep.handle key val b) (rep'.handle key val b')
  failed : ∀ b b', R b b' → S (rep.failed b) (rep'.failed b')
  undefined : ∀ b b', R b b' → S (rep.undefined b) (rep'.undefined b')

section Simulation

variable {R : B → B' → Prop} {S : E → E' → Prop} {rep : Representation B E}
  {rep' : Representation B' E'} {b : B} {b' : B'}

variable (sim : Simulates R S rep rep')
include sim

theorem fillLoop_related {handle : TaskKey → String → B → Except E B}
    {handle' : TaskKey → String → B' → Except E' B'}
    (handles : ∀ key val b b', R b b' → Related R S (handle key val b) (handle' key val b'))
    (type : TaskType) (imported : TaskKey → Bool) (dupl : List TaskKey) (kvs : List ConfKv)
    (related : R b b') : Related R S (rep.fillLoop handle type imported dupl kvs b)
      (rep'.fillLoop handle' type imported dupl kvs b') := by
  induction kvs generalizing dupl b b' with
  | nil => exact .ok related
  | cons kv kvs ih =>
    unfold Representation.fillLoop
    cases findConfigMapping kv.key with
    | none => exact ih dupl related
    | some m =>
      dsimp only
      split_ifs
      · exact .error (sim.failed b b' related)
      · exact .error (sim.failed b b' related)
      · have step := handles m.config kv.val b b' related
        generalize handle m.config kv.val b = r at step ⊢
        generalize handle' m.config kv.val b' = r' at step ⊢
        cases step with
        | ok next => exact ih _ next
        | error stopped => exact .error stopped
      · exact ih _ related

theorem fillFrom_related {handle : TaskKey → String → B → Except E B}
    {handle' : TaskKey → String → B' → Except E' B'}
    (handles : ∀ key val b b', R b b' → Related R S (handle key val b) (handle' key val b'))
    (src : ConfList) (type : TaskType) (importList : Option String) (related : R b b') :
    Related R S (rep.fillFrom handle src type importList b)
      (rep'.fillFrom handle' src type importList b') := by
  unfold Representation.fillFrom
  cases importArr type importList with
  | none => exact .error (sim.failed b b' related)
  | some imported =>
    cases src with
    | unset => exact .error (sim.undefined b b' related)
    | entries kvs => exact fillLoop_related sim handles type imported [] kvs related

theorem mergeInclude_related (files : InclFiles) (src : String) (importList : Option String)
    (related : R b b') :
    Related R S (rep.mergeInclude files src importList b)
      (rep'.mergeInclude files src importList b') := by
  unfold Representation.mergeInclude
  cases files.parse (files.inclDir ++ "/" ++ src ++ files.inclSuffix) with
  | none => exact .error (sim.failed b b' related)
  | some c => exact fillFrom_related sim sim.handle c .incl importList related

theorem handleKey_related (files : InclFiles) (key : TaskKey) (val : String) (related : R b b') :
    Related R S (rep.handleKey files key val b) (rep'.handleKey files key val b') := by
  unfold Representation.handleKey
  split_ifs
  · unfold Representation.includeHandler
    split
    · exact mergeInclude_related sim files _ none related
    · exact mergeInclude_related sim files _ _ related
    · exact .error (sim.failed b b' related)
  · exact sim.handle key val b b' related

theorem fill_related (files : InclFiles) (c : ConfList) (related : R b b') :
    Related R S (rep.fill files c b) (rep'.fill files c b') :=
  fillFrom_related sim (fun key val _ _ related => handleKey_related sim files key val related) c
    .standard none related

end Simulation

/-! ### The task as strings and lists -/

section Values

variable {Env Redir Cgroup : Type} (env : ConfEnv Env Redir Cgroup)

def ConfEnv.inclFiles : InclFiles := ⟨env.inclDir, env.inclSuffix, env.parse⟩

def valueTask : Representation (Build Env Redir Cgroup) BuildStop where
  handle := handlePlain env
  failed := fun b => .failed b.pool
  undefined := fun _ => .undefined

theorem valueTask_fillLoop (handle : TaskKey → String → Build Env Redir Cgroup →
      Building Env Redir Cgroup)
    (type : TaskType) (imported : TaskKey → Bool) (dupl : List TaskKey) (kvs : List ConfKv)
    (b : Build Env Redir Cgroup) :
    (valueTask env).fillLoop handle type imported dupl kvs b =
      setLoop handle type imported dupl kvs b := by
  induction kvs generalizing dupl b with
  | nil => rfl
  | cons kv kvs ih =>
    unfold Representation.fillLoop setLoop
    cases findConfigMapping kv.key with
    | none => exact ih dupl b
    | some m =>
      dsimp only
      split_ifs
      · rfl
      · rfl
      · cases handle m.config kv.val b with
        | error stop => rfl
        | ok b => exact ih _ b
      · exact ih _ b

theorem valueTask_fillFrom (handle : TaskKey → String → Build Env Redir Cgroup →
      Building Env Redir Cgroup)
    (src : ConfList) (type : TaskType) (importList : Option String) (b : Build Env Redir Cgroup) :
    (valueTask env).fillFrom handle src type importList b =
      taskSetFromConfKvList handle src type importList b := by
  unfold Representation.fillFrom taskSetFromConfKvList
  cases importArr type importList with
  | none => rfl
  | some imported =>
    cases src with
    | unset => rfl
    | entries kvs => exact valueTask_fillLoop env handle type imported [] kvs b

theorem valueTask_mergeInclude (src : String) (importList : Option String)
    (b : Build Env Redir Cgroup) :
    (valueTask env).mergeInclude env.inclFiles src importList b =
      taskMergeInclude env src importList b := by
  simp only [Representation.mergeInclude, taskMergeInclude, ConfEnv.inclFiles, inclPath]
  cases env.parse (env.inclDir ++ "/" ++ src ++ env.inclSuffix) with
  | none => rfl
  | some c => exact valueTask_fillFrom env _ c .incl importList b

theorem valueTask_handleKey (key : TaskKey) (val : String) (b : Build Env Redir Cgroup) :
    (valueTask env).handleKey env.inclFiles key val b = cfgHandler env key val b := by
  unfold Representation.handleKey cfgHandler
  split_ifs
  · unfold Representation.includeHandler taskIncludeHandler
    rcases confConvToStrArr val true with _ | _ | ⟨src, _ | ⟨importList, _ | ⟨more, rest⟩⟩⟩
    · rfl
    · rfl
    · exact valueTask_mergeInclude env src none b
    · exact valueTask_mergeInclude env src importList b
    · rfl
  · rfl

theorem valueTask_fill (c : ConfList) (b : Build Env Redir Cgroup) :
    (valueTask env).fill env.inclFiles c b =
      taskSetFromConfKvList (cfgHandler env) c .standard none b := by
  have handlers : (valueTask env).handleKey env.inclFiles = cfgHandler env :=
    funext fun key => funext fun val => funext fun b => valueTask_handleKey env key val b
  unfold Representation.fill
  rw [handlers, valueTask_fillFrom]

end Values

/-! ### What the handlers leave alone -/

def TaskKey.makesBlock : TaskKey → Bool
  | .command | .stopCommand | .depends | .trigger => true
  | _ => false

def TaskKey.aboutCgroup : TaskKey → Bool
  | .cgroupName | .cgroupParams => true
  | _ => false

section Frame

variable {Env Redir Cgroup : Type} {key : TaskKey} {b b' : Build Env Redir Cgroup}

structure SameBlocks (d d' : TaskDraft Env Redir Cgroup) : Prop where
  cmds : d'.cmds = d.cmds
  stopCmds : d'.stopCmds = d.stopCmds
  deps : d'.deps = d.deps
  trig : d'.trig = d.trig

structure KeyFrame (key : TaskKey) (d d' : TaskDraft Env Redir Cgroup) : Prop where
  blocks : key.makesBlock = false → SameBlocks d d'
  cgroup : key.aboutCgroup = false → d'.cgroup = d.cgroup

theorem set_frame {draft : Option (TaskDraft Env Redir Cgroup)} (ok : b.set draft = .ok b')
    (frame : ∀ d ∈ draft, KeyFrame key b.draft d) : KeyFrame key b.draft b'.draft :=
  frame b'.draft (set_ok ok).1

theorem map_frame {A : Type} {d : TaskDraft Env Redir Cgroup} {x : Option A}
    {f : A → TaskDraft Env Redir Cgroup} (frame : ∀ a, KeyFrame key d (f a)) :
    ∀ d' ∈ x.map f, KeyFrame key d d' := by
  intro d' mem
  obtain ⟨a, -, rfl⟩ := Option.map_eq_some_iff.1 mem
  exact frame a

theorem handlePlain_frame {env : ConfEnv Env Redir Cgroup} {val : String}
    (ok : handlePlain env key val b = .ok b') : KeyFrame key b.draft b'.draft := by
  cases key with
  | incl => cases ok
  | name =>
    cases ok
    exact ⟨fun _ => ⟨rfl, rfl, rfl, rfl⟩, fun _ => rfl⟩
  | depends | trigger =>
    simp only [handlePlain, handleDepends, handleTrigger] at ok
    split_ifs at ok
    cases ok
    exact ⟨(fun plain => by cases plain), fun _ => rfl⟩
  | command | stopCommand =>
    exact set_frame ok (map_frame fun _ => ⟨(fun plain => by cases plain), fun _ => rfl⟩)
  | cgroupName | cgroupParams =>
    exact set_frame ok (map_frame fun _ =>
      ⟨fun _ => ⟨rfl, rfl, rfl, rfl⟩, fun other => by cases other⟩)
  | filterDefine =>
    refine set_frame ok ?_
    unfold cfgFilterHandler
    split_ifs
    · exact fun d mem => by cases mem
    · exact map_frame fun _ => ⟨fun _ => ⟨rfl, rfl, rfl, rfl⟩, fun _ => rfl⟩
  | provides =>
    refine set_frame ok fun d mem => ?_
    obtain ⟨toks, prv, -, -, rfl⟩ := cfgPrvHandler_iff.1 mem
    exact ⟨fun _ => ⟨rfl, rfl, rfl, rfl⟩, fun _ => rfl⟩
  | respawnRetries =>
    refine set_frame ok ?_
    unfold cfgRespRetHandler
    dsimp only
    split_ifs
    · exact fun d mem => by cases mem
    · rintro d ⟨⟩
      exact ⟨fun _ => ⟨rfl, rfl, rfl, rfl⟩, fun _ => rfl⟩
  | capClear | capSet | envSet | group | ioRedir | respawn | triggerRearm | user =>
    exact set_frame ok (map_frame fun _ => ⟨fun _ => ⟨rfl, rfl, rfl, rfl⟩, fun _ => rfl⟩)

end Frame

end Crinit
