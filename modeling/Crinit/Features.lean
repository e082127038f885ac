import Crinit.NotifyKeys

/-! The features that a task provides: the hooks of `optfeat.c`, and which of them
`crinitTaskDBProvideFeature` runs when a state of the task is announced. -/
namespace Crinit

open List

inductive HookType where
  | init | exit | start | stop | taskAdded
  deriving DecidableEq, Repr

/-- The functions that the table of `crinitFeatureHook` points to. -/
inductive Activation where
  | activateSyslog | elosdepActivate | elosdepDeactivate | elosdepTaskAdded | eloslogInit
  | eloslogActivate | eloslogDeactivate
  deriving DecidableEq, Repr

inductive FeatOpt where
  | useSyslog | useElos
  deriving DecidableEq, Repr

structure OptFeat where
  name : String
  type : HookType
  af : Activation
  option : FeatOpt
  deriving DecidableEq, Repr

def elosFeatureName : String := "elos"

def optFeatMap (enableElos : Bool) : List OptFeat :=
  ⟨"syslog", .start, .activateSyslog, .useSyslog⟩ ::
    if enableElos then
      [⟨elosFeatureName, .start, .elosdepActivate, .useElos⟩,
        ⟨elosFeatureName, .stop, .elosdepDeactivate, .useElos⟩,
        ⟨elosFeatureName, .taskAdded, .elosdepTaskAdded, .useElos⟩,
        ⟨elosFeatureName, .init, .eloslogInit, .useElos⟩,
        ⟨elosFeatureName, .start, .eloslogActivate, .useElos⟩,
        ⟨elosFeatureName, .stop, .eloslogDeactivate, .useElos⟩]
    else []

structure FeatEnv where
  enableElos : Bool := true
  /-- `crinitGlobOptGetBoolean`, which may fail. -/
  option : FeatOpt → Option Bool := fun _ => some true
  activateOk : Activation → Bool := fun _ => true

/-- Without a name every entry of the type matches. -/
def featureHookLoop (env : FeatEnv) (sysFeatName : Option String) (type : HookType) :
    List OptFeat → Int → Int × List Activation
  | [], res => (res, [])
  | f :: rest, res =>
    if (sysFeatName = none ∨ sysFeatName = some f.name) ∧ f.type = type then
      match env.option f.option with
      | none => (-1, [])
      | some false => featureHookLoop env sysFeatName type rest res
      | some true =>
        let r := featureHookLoop env sysFeatName type rest (if env.activateOk f.af then res else -1)
        (r.1, f.af :: r.2)
    else featureHookLoop env sysFeatName type rest res

def featureHook (env : FeatEnv) (sysFeatName : Option String) (type : HookType) :
    Int × List Activation :=
  featureHookLoop env sysFeatName type (optFeatMap env.enableElos) 0

/-! ### The announcement of a state -/

structure Hook where
  name : String
  type : HookType
  deriving DecidableEq, Repr

def Hook.ok (env : FeatEnv) (h : Hook) : Bool := (featureHook env (some h.name) h.type).1 ≠ -1

/-- The whole words are compared. -/
def prvHook (newState : TaskState) (p : TaskPrv) : Hook :=
  ⟨p.name, if p.stateReq = newState then .start else .stop⟩

def provideFeatureHooks (env : FeatEnv) (newState : TaskState) : List TaskPrv → Int × List Hook
  | [] => (0, [])
  | p :: rest =>
    if (prvHook newState p).ok env then
      let r := provideFeatureHooks env newState rest
      (r.1, prvHook newState p :: r.2)
    else (-1, [prvHook newState p])

/-- The hooks decide how far the loop over the features gets. -/
theorem provideFeature_hooks (env : FeatEnv) (newState : TaskState) (prv : List TaskPrv)
    (w : World) :
    ((provideFeature newState (fun p => (prvHook newState p).ok env) prv).run machine w).1 =
      (provideFeatureHooks env newState prv).1 := by
  induction prv generalizing w with
  | nil => rfl
  | cons p rest ih =>
    unfold provideFeature provideFeatureHooks
    by_cases required : p.stateReq = newState
    · rw [if_pos required, run_dbCall]
      have fulfils (dep : TaskDep) : ((DbOp.fulfillDep dep none).apply w.db).ret ≠ -1 := by
        simp only [DbOp.apply, TaskDB.fulfillDep]
        decide
      rw [if_neg (fulfils _)]
      cases (prvHook newState p).ok env with
      | true => exact ih _
      | false => rfl
    · rw [if_neg required]
      cases (prvHook newState p).ok env with
      | true => exact ih _
      | false => rfl

structure Announcement where
  state : TaskState
  env : FeatEnv := {}

def Announcement.hooks (a : Announcement) (prv : List TaskPrv) : List Hook :=
  (provideFeatureHooks a.env a.state prv).2

def Announcement.Reaches (a : Announcement) (prv : List TaskPrv) (q : TaskPrv) : Prop :=
  ∃ before after, prv = before ++ q :: after ∧ ∀ p ∈ before, (prvHook a.state p).ok a.env = true

theorem mem_hooks {a : Announcement} {prv : List TaskPrv} {h : Hook} :
    h ∈ a.hooks prv ↔ ∃ q, a.Reaches prv q ∧ prvHook a.state q = h := by
  unfold Announcement.hooks Announcement.Reaches
  induction prv with
  | nil => simp [provideFeatureHooks]
  | cons p rest ih =>
    have here : ∃ before after, p :: rest = before ++ p :: after ∧
        ∀ p ∈ before, (prvHook a.state p).ok a.env = true := ⟨[], rest, rfl, by simp⟩
    unfold provideFeatureHooks
    split_ifs with ok
    · dsimp only
      rw [mem_cons, ih]
      constructor
      · rintro (rfl | ⟨q, ⟨before, after, rfl, passed⟩, same⟩)
        · exact ⟨p, here, rfl⟩
        · refine ⟨q, ⟨p :: before, after, rfl, ?_⟩, same⟩
          rintro other (_ | ⟨_, mem⟩)
          · exact ok
          · exact passed other mem
      · rintro ⟨q, ⟨before, after, split, passed⟩, same⟩
        cases before with
        | nil =>
          obtain ⟨rfl, rfl⟩ := List.cons.inj split
          exact .inl same.symm
        | cons p' before =>
          obtain ⟨rfl, rfl⟩ := List.cons.inj split
          exact .inr ⟨q, ⟨before, after, rfl, fun other mem =>
            passed other (mem_cons_of_mem _ mem)⟩, same⟩
    · rw [mem_singleton]
      constructor
      · rintro rfl
        exact ⟨p, here, rfl⟩
      · rintro ⟨q, ⟨before, after, split, passed⟩, same⟩
        cases before with
        | nil =>
          obtain ⟨rfl, rfl⟩ := List.cons.inj split
          exact same.symm
        | cons p' before =>
          obtain ⟨rfl, rfl⟩ := List.cons.inj split
          exact absurd (passed _ mem_cons_self) ok

/-! ### Sequences of announcements -/

def baseState (s : TaskState) : TaskState := s &&& ~~~stateNotified

def activeAfter (feature : String) (hooks : List Hook) : Bool :=
  hooks.foldl (fun active h => if h.name = feature then h.type = .start else active) false

def hooksOfAll (prv : List TaskPrv) (as : List Announcement) : List Hook :=
  as.flatMap fun a => a.hooks prv

/-- The STOP hook of a feature runs only for another base state, and what the state has activated
stays active when it is announced again. -/
structure StaysActive (prv : List TaskPrv) (feature : String) (base : TaskState)
    (as : List Announcement) : Prop where
  stop : ∀ a ∈ as, ⟨feature, .stop⟩ ∈ a.hooks prv → baseState a.state ≠ base
  lasting : ∀ before a after, as = before ++ a :: after → baseState a.state = base →
    activeAfter feature (hooksOfAll prv before) = true →
      activeAfter feature (hooksOfAll prv (before ++ [a])) = true

def SameWord (prv : List TaskPrv) (feature : String) (base : TaskState) (as : List Announcement) :
    Prop :=
  ∀ a ∈ as, baseState a.state = base → ∀ q, a.Reaches prv q → q.name = feature →
    q.stateReq = a.state

theorem active_kept {feature : String} {earlier hooks : List Hook}
    (active : activeAfter feature earlier = true)
    (started : ∀ h ∈ hooks, h.name = feature → h.type = .start) :
    activeAfter feature (earlier ++ hooks) = true := by
  unfold activeAfter at active ⊢
  rw [foldl_append, active]
  induction hooks with
  | nil => rfl
  | cons h hooks ih =>
    rw [foldl_cons]
    have later := ih fun other mem => started other (mem_cons_of_mem _ mem)
    by_cases named : h.name = feature
    · rw [if_pos named, decide_eq_true (started h mem_cons_self named), later]
    · rw [if_neg named, later]

theorem prvHook_type (newState : TaskState) (p : TaskPrv) :
    (prvHook newState p).type = .start ∨ (prvHook newState p).type = .stop := by
  unfold prvHook
  dsimp only
  split_ifs
  · exact .inl rfl
  · exact .inr rfl

/-- A feature stays active while its state lasts exactly if the state is always announced by the
same word. -/
theorem stays_active_iff (prv : List TaskPrv) (feature : String) (base : TaskState)
    (as : List Announcement) :
    StaysActive prv feature base as ↔ SameWord prv feature base as := by
  constructor
  · intro stays a mem same q reached named
    by_contra other
    refine stays.stop a mem (mem_hooks.2 ⟨q, reached, ?_⟩) same
    rw [prvHook, if_neg other, named]
  · intro word
    have stop (a : Announcement) (mem : a ∈ as) (stops : ⟨feature, .stop⟩ ∈ a.hooks prv) :
        baseState a.state ≠ base := by
      intro same
      obtain ⟨q, reached, hook⟩ := mem_hooks.1 stops
      have named : q.name = feature := congrArg Hook.name hook
      rw [prvHook, if_pos (word a mem same q reached named)] at hook
      have types : HookType.start = .stop := congrArg Hook.type hook
      cases types
    refine ⟨stop, ?_⟩
    rintro before a after rfl same active
    rw [hooksOfAll, flatMap_append, flatMap_singleton]
    refine active_kept active fun h mem named => ?_
    obtain ⟨q, _, rfl⟩ := mem_hooks.1 mem
    refine (prvHook_type a.state q).resolve_right fun stops => ?_
    refine stop a (by simp) ?_ same
    rw [← named, ← stops]
    exact mem

/-- The dispatch thread announces RUNNING and the elos connection is activated; then the task
reports READY, and the connection is deactivated. -/
theorem ready_deactivates :
    hooksOfAll [⟨"elos", stateRunning⟩] [⟨stateRunning, {}⟩, ⟨stateRunning ||| stateNotified, {}⟩] =
      [⟨"elos", .start⟩, ⟨"elos", .stop⟩] ∧
    featureHook {} (some "elos") .stop = (0, [.elosdepDeactivate, .eloslogDeactivate]) ∧
    ¬ StaysActive [⟨"elos", stateRunning⟩] "elos" stateRunning
      [⟨stateRunning, {}⟩, ⟨stateRunning ||| stateNotified, {}⟩] := by
  refine ⟨by decide, by decide, fun stays => ?_⟩
  exact stays.stop ⟨stateRunning ||| stateNotified, {}⟩ (by simp) (by decide) (by decide)

end Crinit
