import Crinit.Commands

/-! Which arguments of NOTIFY have an effect. A key is compared only as far as the argument spells
it. -/
namespace Crinit

open List

inductive NotifyKey where
  | mainPid | ready | stopping
  deriving DecidableEq, Repr

def NotifyKey.text : NotifyKey → List Char
  | .mainPid => "MAINPID".toList
  | .ready => "READY".toList
  | .stopping => "STOPPING".toList

def argKey (arg : String) : List Char := arg.toList.takeWhile (· ≠ '=')

def argNumber (arg : String) : Int := toInt (strtol (arg.toList.drop ((argKey arg).length + 1)))

def hasKey (k : NotifyKey) (arg : String) : Bool := '=' ∈ arg.toList && argKey arg = k.text

/-- The argument has a key, which may be empty, that the key starts with. -/
def abbreviates (k : NotifyKey) (arg : String) : Bool :=
  '=' ∈ arg.toList && (argKey arg).isPrefixOf k.text

def hasOwnKey (arg : String) : Bool :=
  hasKey .mainPid arg || hasKey .ready arg || hasKey .stopping arg

def lastNumber (p : String → Bool) (args : List String) : Int :=
  args.foldl (fun v arg => if p arg then argNumber arg else v) (-1)

def NotifyArgs.number (n : NotifyArgs) : NotifyKey → Int
  | .mainPid => n.pid
  | .ready => n.ready
  | .stopping => n.stopping

def notifyEffects (env : NotifyEnv) (n : NotifyArgs) (name : String) : Handling RtimCmd := do
  if 0 < n.pid then
    if (← dbCall (.setTaskPID n.pid name)) = -1 then
      return errAnswer .notify "Could not set main PID of task."
    else notifyReady env n name
  else notifyReady env n name

theorem execRtimCmdNotify_eq (op : RtimOp) (env : NotifyEnv) (name arg : String)
    (rest : List String) : execRtimCmdNotify env ⟨op, name :: arg :: rest⟩ =
      notifyEffects env ((arg :: rest).foldl notifyArg {}) name := rfl

section Loop

variable {k : NotifyKey} {args : List String} {arg : String}

def NotifyArgs.put (n : NotifyArgs) (named : NotifyKey → Bool) (v : Int) : NotifyArgs :=
  let n := if named .mainPid then { n with pid := v } else n
  let n := if named .ready then { n with ready := v } else n
  if named .stopping then { n with stopping := v } else n

theorem put_number (n : NotifyArgs) (named : NotifyKey → Bool) (v : Int) (k : NotifyKey) :
    (n.put named v).number k = if named k then v else n.number k := by
  unfold NotifyArgs.put
  cases k <;> cases named .mainPid <;> cases named .ready <;> cases named .stopping <;> rfl

theorem notifyArg_number (n : NotifyArgs) (arg : String) (k : NotifyKey) :
    (notifyArg n arg).number k = if abbreviates k arg then argNumber arg else n.number k := by
  have turn : notifyArg n arg = if '=' ∈ arg.toList then
      n.put (fun k => (argKey arg).isPrefixOf k.text) (argNumber arg) else n := rfl
  rw [turn, abbreviates]
  by_cases sign : '=' ∈ arg.toList
  · rw [if_pos sign, put_number, decide_eq_true sign, Bool.true_and]
  · rw [if_neg sign, decide_eq_false sign, Bool.false_and]
    rfl

theorem notifyArgs_number (args : List String) (k : NotifyKey) :
    (args.foldl notifyArg {}).number k = lastNumber (abbreviates k) args := by
  have run (n : NotifyArgs) : (args.foldl notifyArg n).number k =
      args.foldl (fun v arg => if abbreviates k arg then argNumber arg else v) (n.number k) := by
    induction args generalizing n with
    | nil => rfl
    | cons arg args ih => rw [foldl_cons, foldl_cons, ih, notifyArg_number]
  rw [run {}]
  cases k <;> rfl

theorem text_prefix (k k' : NotifyKey) : k.text.isPrefixOf k'.text = decide (k.text = k'.text) := by
  cases k <;> cases k' <;> decide

theorem abbreviates_own (own : hasOwnKey arg = true) : abbreviates k arg = hasKey k arg := by
  have spelled : ∃ k' : NotifyKey, argKey arg = k'.text := by
    simp only [hasOwnKey, hasKey, Bool.or_eq_true, Bool.and_eq_true, decide_eq_true_iff] at own
    rcases own with (own | own) | own
    · exact ⟨_, own.2⟩
    · exact ⟨_, own.2⟩
    · exact ⟨_, own.2⟩
  obtain ⟨k', spelled⟩ := spelled
  rw [abbreviates, hasKey, spelled, text_prefix]

theorem hasKey_own (key : hasKey k arg = true) : hasOwnKey arg = true := by
  cases k <;> simp [hasOwnKey, key]

theorem ownArgs_number (args : List String) (k : NotifyKey) :
    ((args.filter hasOwnKey).foldl notifyArg {}).number k = lastNumber (hasKey k) args := by
  rw [notifyArgs_number]
  unfold lastNumber
  generalize (-1 : Int) = v
  induction args generalizing v with
  | nil => rfl
  | cons arg args ih =>
    rw [foldl_cons]
    by_cases own : hasOwnKey arg = true
    · rw [filter_cons_of_pos own, foldl_cons, abbreviates_own own, ih]
    · have other : ¬ hasKey k arg = true := fun key => own (hasKey_own key)
      rw [filter_cons_of_neg own, if_neg other, ih]

theorem lastNumber_none {p : String → Bool} (none : ∀ arg ∈ args, p arg = false) :
    lastNumber p args = -1 := by
  unfold lastNumber
  generalize (-1 : Int) = v
  induction args generalizing v with
  | nil => rfl
  | cons arg args ih =>
    rw [foldl_cons, none arg mem_cons_self]
    exact ih (fun other mem => none other (mem_cons_of_mem _ mem)) v

end Loop

/-- The number decides whether the key has an effect; only MAINPID passes it on. -/
def NotifyKey.effect (k : NotifyKey) (v : Int) : Option Int :=
  if 0 < v then some (if k = .mainPid then v else 1) else none

theorem effect_isSome (k : NotifyKey) (v : Int) : (k.effect v).isSome = decide (0 < v) := by
  unfold NotifyKey.effect
  by_cases positive : 0 < v
  · rw [if_pos positive, decide_eq_true positive]
    rfl
  · rw [if_neg positive, decide_eq_false positive]
    rfl

theorem effect_positive {k : NotifyKey} {v v' : Int} (same : k.effect v = k.effect v') :
    0 < v ↔ 0 < v' := by
  have both := congrArg Option.isSome same
  rwa [effect_isSome, effect_isSome, decide_eq_decide] at both

section Effects

variable {env : NotifyEnv} {n n' : NotifyArgs} {name : String}

theorem notifyEffects_congr (same : ∀ k : NotifyKey, k.effect (n.number k) =
    k.effect (n'.number k)) : notifyEffects env n name = notifyEffects env n' name := by
  have stopping : notifyStopping env n name = notifyStopping env n' name := by
    have positive : 0 < n.stopping ↔ 0 < n'.stopping := effect_positive (same .stopping)
    unfold notifyStopping
    rw [if_congr positive rfl rfl]
  have ready : notifyReady env n name = notifyReady env n' name := by
    have positive : 0 < n.ready ↔ 0 < n'.ready := effect_positive (same .ready)
    unfold notifyReady
    rw [if_congr positive rfl rfl, stopping]
  unfold notifyEffects
  rw [ready]
  by_cases positive : 0 < n'.pid
  · have first : 0 < n.pid := (effect_positive (same .mainPid)).2 positive
    have pids := same .mainPid
    simp only [NotifyKey.effect, NotifyArgs.number, first, positive, if_true] at pids
    rw [Option.some.inj pids]
  · have first : ¬ 0 < n.pid := mt (effect_positive (same .mainPid)).1 positive
    rw [if_neg first, if_neg positive]

section Follows

variable {A : Type} {allowed : Call → Prop}

theorem db_follows {op : DbOp} {next : Int → Handling A} (first : allowed (.db op))
    (rest : ∀ r, (next r).Follows (Script.only allowed) ()) :
    (dbCall op >>= next).Follows (Script.only allowed) () := ⟨first, fun r => rest r.ret⟩

variable (fulfils : ∀ dep, allowed (.db (.fulfillDep dep none)))
    (looks : ∀ n ok, allowed (.look n ok))

include fulfils in
theorem provideFeature_follows (state : TaskState) (hookOk : TaskPrv → Bool) (prv : List TaskPrv) :
    (provideFeature state hookOk prv).Follows (Script.only allowed) () := by
  induction prv with
  | nil => trivial
  | cons p rest ih =>
    unfold provideFeature
    by_cases required : p.stateReq = state
    · rw [if_pos required]
      refine db_follows (fulfils _) fun r => ?_
      split_ifs
      · trivial
      · exact ih
      · trivial
    · rw [if_neg required]
      split_ifs
      · exact ih
      · trivial

include fulfils looks in
theorem notifyState_follows {base : TaskState} {now : Timespec}
    (stores : allowed (.db (.setTaskState (base ||| stateNotified) name now)))
    (event msg : String) (hookOk : TaskPrv → Bool) :
    (notifyState base event msg now hookOk name).Follows (Script.only allowed) () := by
  unfold notifyState
  refine db_follows stores fun r => ?_
  split_ifs
  · trivial
  · refine db_follows (fulfils _) fun r => ?_
    split_ifs
    · trivial
    · refine Script.follows_bind ?_ fun r g => ?_
      · unfold provideFeatureByTaskName
        simp only [follows_look]
        refine ⟨looks _ _, fun r => ?_⟩
        split
        · trivial
        · exact provideFeature_follows fulfils _ _ _
      · split_ifs <;> trivial

include fulfils looks in
/-- The calls that NOTIFY may make, by the numbers it has read. -/
theorem notifyEffects_follows (pid : 0 < n.pid → allowed (.db (.setTaskPID n.pid name)))
    (ready : 0 < n.ready →
      allowed (.db (.setTaskState (stateRunning ||| stateNotified) name env.readyNow)))
    (stopping : 0 < n.stopping →
      allowed (.db (.setTaskState (stateDone ||| stateNotified) name env.stoppingNow))) :
    (notifyEffects env n name).Follows (Script.only allowed) () := by
  have last : (notifyStopping env n name).Follows (Script.only allowed) () := by
    unfold notifyStopping
    split_ifs with positive
    · refine Script.follows_bind
        (notifyState_follows fulfils looks (stopping positive) _ _ _) fun r g => ?_
      split <;> trivial
    · trivial
  have second : (notifyReady env n name).Follows (Script.only allowed) () := by
    unfold notifyReady
    split_ifs with positive
    · refine Script.follows_bind
        (notifyState_follows fulfils looks (ready positive) _ _ _) fun r g => ?_
      split
      · trivial
      · exact last
    · exact last
  unfold notifyEffects
  split_ifs with positive
  · refine db_follows (pid positive) fun r => ?_
    split_ifs
    · trivial
    · exact second
  · exact second

end Follows

end Effects

/-! ### The keys that NOTIFY reacts to -/

def Call.SetsPid (c : Call) : Prop := ∃ pid n, c = .db (.setTaskPID pid n)

def Call.SetsState (base : TaskState) (c : Call) : Prop :=
  ∃ s n now, c = .db (.setTaskState s n now) ∧ s &&& ~~~stateNotified = base

/-- The documented behaviour: arguments with another key are ignored, once they are counted. -/
def notifyOwnKeys (env : NotifyEnv) (name : String) (args : List String) : Handling RtimCmd :=
  if args = [] then return errAnswer .notify "Wrong number of arguments."
  else notifyEffects env ((args.filter hasOwnKey).foldl notifyArg {}) name

/-- Whatever the calls of NOTIFY are answered, it goes on as if there were no argument with another
key. -/
structure OwnKeysOnly (args : List String) : Prop where
  pid : (∀ arg ∈ args, hasKey .mainPid arg = false) → ∀ op env name,
    (execRtimCmdNotify env ⟨op, name :: args⟩).Follows (Script.only fun c => ¬ c.SetsPid) ()
  running : (∀ arg ∈ args, hasKey .ready arg = false) → ∀ op env name,
    (execRtimCmdNotify env ⟨op, name :: args⟩).Follows
      (Script.only fun c => ¬ c.SetsState stateRunning) ()
  done : (∀ arg ∈ args, hasKey .stopping arg = false) → ∀ op env name,
    (execRtimCmdNotify env ⟨op, name :: args⟩).Follows
      (Script.only fun c => ¬ c.SetsState stateDone) ()
  others : ∀ op env name, execRtimCmdNotify env ⟨op, name :: args⟩ = notifyOwnKeys env name args

def Unabbreviated (args : List String) : Prop :=
  ∀ k : NotifyKey, k.effect (lastNumber (abbreviates k) args) =
    k.effect (lastNumber (hasKey k) args)

def oneTask (t : Task) : World := { db := { taskSet := [t] } }

structure Bare (name : String) (t : Task) : Prop where
  named : t.name = name
  deps : t.deps = []
  trig : t.trig = []
  prv : t.prv = []

section OneTask

variable {name : String} {t : Task}

theorem Bare.withState (bare : Bare name t) (s : TaskState) (now : Timespec) :
    Bare name (t.withState s now) := by
  obtain ⟨_, _, _, frame⟩ := withState_frame t s now
  rw [frame]
  exact ⟨bare.named, bare.deps, bare.trig, bare.prv⟩

theorem oneTask_find (named : t.name = name) : (oneTask t).db.findTask name = some t := by
  simp [oneTask, TaskDB.findTask, named]

theorem oneTask_setState (named : t.name = name) (s : TaskState) (now : Timespec) :
    (oneTask t).db.setTaskState s name now = ⟨0, (oneTask (t.withState s now)).db, true, []⟩ := by
  rw [TaskDB.setTaskState, oneTask_find named]
  simp [oneTask, TaskDB.update, updateFirst, named]

theorem oneTask_fulfillDep (bare : Bare name t) (dep : TaskDep) :
    (oneTask t).db.fulfillDep dep none = ⟨0, (oneTask t).db, true, []⟩ := by
  have same : removeDepFromTaskStruct dep t = t := by
    obtain ⟨_, deps, trig, _⟩ := bare
    cases t
    cases deps
    cases trig
    simp [removeDepFromTaskStruct, removeDeps, removeLoop]
  simp [TaskDB.fulfillDep, oneTask, same]

theorem notifyState_run (bare : Bare name t) (base : TaskState) (event msg : String)
    (now : Timespec) (hookOk : TaskPrv → Bool) :
    (notifyState base event msg now hookOk name).run machine (oneTask t) =
      (none, oneTask (t.withState (base ||| stateNotified) now)) := by
  have bare' := bare.withState (base ||| stateNotified) now
  have stored : (oneTask t).after (.db (.setTaskState (base ||| stateNotified) name now)) =
      oneTask (t.withState (base ||| stateNotified) now) := by
    simp only [World.after, DbOp.apply, oneTask_setState bare.named]
    rfl
  have fulfilled (dep : TaskDep) :
      (oneTask (t.withState (base ||| stateNotified) now)).after (.db (.fulfillDep dep none)) =
        oneTask (t.withState (base ||| stateNotified) now) := by
    simp only [World.after, DbOp.apply, oneTask_fulfillDep bare' dep]
    rfl
  have stores : ((DbOp.setTaskState (base ||| stateNotified) name now).apply
      (oneTask t).db).ret ≠ -1 := by
    simp only [DbOp.apply, oneTask_setState bare.named]
    decide
  have fulfils (dep : TaskDep) (w : World) : ((DbOp.fulfillDep dep none).apply w.db).ret ≠ -1 := by
    simp only [DbOp.apply, TaskDB.fulfillDep]
    decide
  unfold notifyState
  rw [run_dbCall, if_neg stores, stored, run_dbCall, if_neg (fulfils _ _), fulfilled,
    Script.run_bind]
  unfold provideFeatureByTaskName
  rw [run_look, if_pos rfl, oneTask_find bare'.named]
  simp only [bare'.prv, provideFeature]
  rfl

variable (env : NotifyEnv) (n : NotifyArgs)

theorem notifyStopping_run (bare : Bare name t) :
    ((notifyStopping env n name).run machine (oneTask t)).2 = oneTask
      (if 0 < n.stopping then t.withState (stateDone ||| stateNotified) env.stoppingNow
      else t) := by
  unfold notifyStopping
  split_ifs
  · rw [Script.run_bind, notifyState_run bare]
    rfl
  · rfl

theorem notifyReady_run (bare : Bare name t) :
    ((notifyReady env n name).run machine (oneTask t)).2 =
      ((notifyStopping env n name).run machine (oneTask
        (if 0 < n.ready then t.withState (stateRunning ||| stateNotified) env.readyNow
          else t))).2 := by
  unfold notifyReady
  split_ifs
  · rw [Script.run_bind, notifyState_run bare]
  · rfl

theorem notifyEffects_run (named : t.name = name) :
    ((notifyEffects env n name).run machine (oneTask t)).2 =
      ((notifyReady env n name).run machine (oneTask
        (if 0 < n.pid then t.setPid n.pid else t))).2 := by
  unfold notifyEffects
  split_ifs
  · simp [run_dbCall, World.after, DbOp.apply, TaskDB.setTaskPID, oneTask, TaskDB.findTask,
      TaskDB.update, updateFirst, named]
  · rfl

end OneTask

def toldEnv : NotifyEnv := { readyNow := ⟨1, 0⟩, stoppingNow := ⟨2, 0⟩ }

def told (m : Handling RtimCmd) : List (Int × Timespec × Timespec) :=
  (m.run machine (oneTask { name := "" })).2.db.taskSet.map fun t =>
    (t.pid, t.startTime, t.endTime)

/-- The numbers can be read off the task. -/
theorem told_effects (n : NotifyArgs) : told (notifyEffects toldEnv n "") =
    [(if 0 < n.pid then n.pid else -1, if 0 < n.ready then ⟨1, 0⟩ else {},
      if 0 < n.stopping then ⟨2, 0⟩ else {})] := by
  have bare : Bare "" { name := "" } := ⟨rfl, rfl, rfl, rfl⟩
  have bare' : Bare "" (if 0 < n.pid then Task.setPid n.pid { name := "" }
  else { name := "" }) := by
    split_ifs
    · exact ⟨rfl, rfl, rfl, rfl⟩
    · exact bare
  unfold told
  rw [notifyEffects_run _ _ bare.named, notifyReady_run _ _ bare']
  by_cases ready : 0 < n.ready
  · rw [if_pos ready, if_pos ready, notifyStopping_run _ _ (bare'.withState _ _)]
    split_ifs <;> rfl
  · rw [if_neg ready, if_neg ready, notifyStopping_run _ _ bare']
    split_ifs <;> rfl

theorem time_told {v v' : Int} {now : Timespec} (set : now ≠ {})
    (same : (if 0 < v then now else {}) = if 0 < v' then now else {}) : 0 < v ↔ 0 < v' := by
  split_ifs at same with first second second
  · exact iff_of_true first second
  · exact absurd same set
  · exact absurd same.symm set
  · exact iff_of_false first second

theorem told_same {n n' : NotifyArgs} (same : ∀ env name, notifyEffects env n name =
    notifyEffects env n' name) (k : NotifyKey) :
    k.effect (n.number k) = k.effect (n'.number k) := by
  have seen := congrArg told (same toldEnv "")
  rw [told_effects, told_effects] at seen
  simp only [List.cons.injEq, Prod.mk.injEq, and_true] at seen
  obtain ⟨pid, ready, stopping⟩ := seen
  cases k with
  | mainPid =>
    change (if 0 < n.pid then some n.pid else none) = if 0 < n'.pid then some n'.pid else none
    split_ifs at pid ⊢ with first second second
    · rw [pid]
    · omega
    · omega
    · rfl
  | ready => exact if_congr (time_told (by decide) ready) rfl rfl
  | stopping => exact if_congr (time_told (by decide) stopping) rfl rfl

theorem notify_numbers {args : List String} (some : args ≠ []) (op : RtimOp) (env : NotifyEnv)
    (name : String) : execRtimCmdNotify env ⟨op, name :: args⟩ =
      notifyEffects env (args.foldl notifyArg {}) name := by
  cases args with
  | nil => exact absurd rfl some
  | cons arg rest => exact execRtimCmdNotify_eq op env name arg rest

/-- Without an argument that has the key itself, the number is not positive. -/
theorem unasked {args : List String} (plain : Unabbreviated args) {k : NotifyKey}
    (none : ∀ arg ∈ args, hasKey k arg = false) : ¬ 0 < (args.foldl notifyArg {}).number k := by
  rw [notifyArgs_number, effect_positive (plain k), lastNumber_none none]
  decide

/-- NOTIFY reacts to its own keys only exactly if abbreviations change nothing. -/
theorem own_keys_only_iff (args : List String) : OwnKeysOnly args ↔ Unabbreviated args := by
  constructor
  · intro only k
    by_cases some : args = []
    · rw [some]
      rfl
    · have same (env : NotifyEnv) (name : String) :
          notifyEffects env (args.foldl notifyArg {}) name =
            notifyEffects env ((args.filter hasOwnKey).foldl notifyArg {}) name := by
        have others := only.others (.c .notify) env name
        rwa [notify_numbers some, notifyOwnKeys, if_neg some] at others
      rw [← notifyArgs_number, ← ownArgs_number]
      exact told_same same k
  · intro plain
    by_cases some : args = []
    · rw [some]
      exact ⟨fun _ _ _ _ => trivial, fun _ _ _ _ => trivial, fun _ _ _ _ => trivial,
        fun _ _ _ => rfl⟩
    · constructor
      · intro none op env name
        have idle := unasked plain none
        rw [notify_numbers some]
        exact notifyEffects_follows (by rintro _ ⟨_, _, ⟨⟩⟩) (by rintro _ _ ⟨_, _, ⟨⟩⟩)
          (fun positive => absurd positive idle) (by rintro _ ⟨_, _, ⟨⟩⟩) (by rintro _ ⟨_, _, ⟨⟩⟩)
      · intro none op env name
        have idle := unasked plain none
        rw [notify_numbers some]
        exact notifyEffects_follows (by rintro _ ⟨_, _, _, ⟨⟩, _⟩) (by rintro _ _ ⟨_, _, _, ⟨⟩, _⟩)
          (by rintro _ ⟨_, _, _, ⟨⟩, _⟩) (fun positive => absurd positive idle)
          (by rintro _ ⟨_, _, _, ⟨⟩, base⟩; exact absurd base (by decide))
      · intro none op env name
        have idle := unasked plain none
        rw [notify_numbers some]
        exact notifyEffects_follows (by rintro _ ⟨_, _, _, ⟨⟩, _⟩) (by rintro _ _ ⟨_, _, _, ⟨⟩, _⟩)
          (by rintro _ ⟨_, _, _, ⟨⟩, _⟩)
          (by rintro _ ⟨_, _, _, ⟨⟩, base⟩; exact absurd base (by decide))
          (fun positive => absurd positive idle)
      · intro op env name
        rw [notify_numbers some, notifyOwnKeys, if_neg some]
        refine notifyEffects_congr fun k => ?_
        rw [notifyArgs_number, ownArgs_number]
        exact plain k

/-- The argument `=1` gives the task the PID 1 and makes it DONE. -/
theorem empty_key_notifies :
    ((execRtimCmdNotify {} ⟨.c .notify, ["net", "=1"]⟩).run machine
        (oneTask { name := "net", pid := 7, state := stateRunning })).2.db.taskSet =
      [{ name := "net", pid := 1, state := stateDone ||| stateNotified }] ∧
    ¬ OwnKeysOnly ["=1"] := by
  refine ⟨by decide, fun only => ?_⟩
  have other : ∀ arg ∈ ["=1"], hasKey .mainPid arg = false := by decide
  have calls := only.pid other (.c .notify) {} "net"
  exact calls.1 ⟨1, "net", rfl⟩

end Crinit
