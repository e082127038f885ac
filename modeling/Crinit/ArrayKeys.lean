import Crinit.Includes

/-! Array-like keys whose values are lists of words, given more than once. -/
namespace Crinit

open List

variable {Env Redir Cgroup : Type}

/-! ### The options of a series file -/

/-- What a handler of a series file does: it may also read or write where there is no array. -/
inductive Handled (A : Type)
  | ok (a : A)
  | failed
  | undefined

def Handled.bind {A B : Type} : Handled A → (A → Handled B) → Handled B
  | .ok a, f => f a
  | .failed, _ => .failed
  | .undefined, _ => .undefined

variable {A : Type}

theorem ok_ne_failed (a : A) : Handled.ok a ≠ .failed := by
  intro same
  cases same

structure GlobCgroup where
  name : String
  params : List String := []
  deriving DecidableEq, Repr

structure GlobOpts where
  defaultCaps : String := ""
  tasks : Option (List String) := none
  globCgroups : Option (List GlobCgroup) := none
  globCgroupsCount : Nat := 0
  deriving DecidableEq, Repr

def cfgDefaultCapsHandler (val : String) (o : GlobOpts) : Handled GlobOpts :=
  .ok { o with defaultCaps := val }

def cfgTasksHandler (val : String) (o : GlobOpts) : Handled GlobOpts :=
  match confConvToStrArr val true with
  | none => .failed
  | some parsedVal =>
    match o.tasks with
    | none => .ok { o with tasks := some parsedVal }
    | some tasks =>
      if tasks = [] ∨ parsedVal = [] then .undefined
      else .ok { o with tasks := some (tasks ++ parsedVal) }

/-- The array is allocated once; whatever the value, it is written from the start. -/
def cfgCgroupGlobalNameHandler (val : String) (o : GlobOpts) : Handled GlobOpts :=
  match confConvToStrArr val true with
  | none => .failed
  | some parsedVal =>
    if parsedVal = [] then .failed
    else
      let named : List GlobCgroup := parsedVal.map fun name => { name := name }
      match o.globCgroups with
      | none => .ok { o with globCgroups := some named, globCgroupsCount := named.length }
      | some globConfigs =>
        if globConfigs.length < named.length then .undefined
        else .ok { o with
          globCgroups := some (named ++ globConfigs.drop named.length)
          globCgroupsCount := named.length }

inductive ArrayKey
  | depends
  | trigger
  | provides
  | group
  | capabilitySet
  | capabilityClear
  | tasks
  | defaultCaps
  | cgroupGlobalName
  deriving DecidableEq, Repr

structure ConfStore (Env Redir Cgroup : Type) where
  build : Build Env Redir Cgroup
  opts : GlobOpts

def ConfStore.setTask (s : ConfStore Env Redir Cgroup) :
    Building Env Redir Cgroup → Handled (ConfStore Env Redir Cgroup)
  | .ok b => .ok { s with build := b }
  | .error (.failed _) => .failed
  | .error .undefined => .undefined

def ConfStore.setOpts (s : ConfStore Env Redir Cgroup) (r : Handled GlobOpts) :
    Handled (ConfStore Env Redir Cgroup) :=
  r.bind fun o => .ok { s with opts := o }

section Processing

variable (env : ConfEnv Env Redir Cgroup)

def processKey (key : ArrayKey) (val : String) (s : ConfStore Env Redir Cgroup) :
    Handled (ConfStore Env Redir Cgroup) :=
  match key with
  | .depends => s.setTask (handlePlain env .depends val s.build)
  | .trigger => s.setTask (handlePlain env .trigger val s.build)
  | .provides => s.setTask (handlePlain env .provides val s.build)
  | .group => s.setTask (handlePlain env .group val s.build)
  | .capabilitySet => s.setTask (handlePlain env .capSet val s.build)
  | .capabilityClear => s.setTask (handlePlain env .capClear val s.build)
  | .tasks => s.setOpts (cfgTasksHandler val s.opts)
  | .defaultCaps => s.setOpts (cfgDefaultCapsHandler val s.opts)
  | .cgroupGlobalName => s.setOpts (cfgCgroupGlobalNameHandler val s.opts)

def processTwice (key : ArrayKey) (v v' : String) (s : ConfStore Env Redir Cgroup) :
    Handled (ConfStore Env Redir Cgroup) :=
  (processKey env key v s).bind (processKey env key v')

def Appends (key : ArrayKey) (v v' : String) (s : ConfStore Env Redir Cgroup) : Prop :=
  ∃ s', processTwice env key v v' s = .ok s' ∧ processKey env key (v ++ " " ++ v') s = .ok s'

variable {env} {key : ArrayKey} {v v' : String} {s : ConfStore Env Redir Cgroup}

theorem appends_task {handle : String → Build Env Redir Cgroup → Building Env Redir Cgroup}
    (handles : ∀ val s, processKey env key val s = s.setTask (handle val s.build))
    (defined : ∀ val b, handle val b ≠ .error .undefined)
    (accepted : processTwice env key v v' s ≠ .failed) :
    ∃ b₁ b₂, handle v s.build = .ok b₁ ∧ handle v' b₁ = .ok b₂ ∧
      (Appends env key v v' s ↔ handle (v ++ " " ++ v') s.build = .ok b₂) := by
  unfold Appends
  unfold processTwice at accepted ⊢
  rw [handles] at accepted ⊢
  match first : handle v s.build with
  | .error .undefined => exact absurd first (defined v _)
  | .error (.failed _) =>
    rw [first] at accepted
    exact absurd rfl accepted
  | .ok b₁ =>
    rw [first] at accepted
    simp only [ConfStore.setTask, Handled.bind, handles] at accepted ⊢
    match second : handle v' b₁ with
    | .error .undefined => exact absurd second (defined v' _)
    | .error (.failed _) =>
      rw [second] at accepted
      exact absurd rfl accepted
    | .ok b₂ =>
      refine ⟨b₁, b₂, rfl, second, ?_⟩
      match handle (v ++ " " ++ v') s.build with
      | .error .undefined => simp
      | .error (.failed _) => simp
      | .ok b => simp [eq_comm]

theorem appends_set (store : String → TaskDraft Env Redir Cgroup →
      Option (TaskDraft Env Redir Cgroup))
    (handles : ∀ val s, processKey env key val s =
      s.setTask (s.build.set (store val s.build.draft)))
    (accepted : processTwice env key v v' s ≠ .failed) :
    ∃ d₁ d₂, store v s.build.draft = some d₁ ∧ store v' d₁ = some d₂ ∧
      (Appends env key v v' s ↔ store (v ++ " " ++ v') s.build.draft = some d₂) := by
  obtain ⟨b₁, b₂, first, second, appends⟩ :=
    appends_task handles (fun val b => set_defined b (store val b.draft)) accepted
  obtain ⟨stored₁, pool₁⟩ := set_ok first
  obtain ⟨stored₂, pool₂⟩ := set_ok second
  have pools : b₂.pool = s.build.pool := pool₂.trans pool₁
  refine ⟨b₁.draft, b₂.draft, stored₁, stored₂,
    appends.trans ⟨fun ok => (set_ok ok).1, fun stored => ?_⟩⟩
  rw [stored]
  change Except.ok _ = _
  rw [← pools]

theorem depListHandler_loop (enableElos : Bool) (ds : List DepEntry) (list : List TaskDep)
    (p : TimerDB) :
    depListHandler enableElos (some ds) true list p = depListLoop enableElos ds list p := by
  cases ds <;> rfl

theorem depListLoop_append {enableElos : Bool} {ds ds' : List DepEntry} {list : List TaskDep}
    {p : TimerDB} (ok : (depListLoop enableElos ds list p).ret ≠ -1) :
    depListLoop enableElos (ds ++ ds') list p =
      depListLoop enableElos ds' (depListLoop enableElos ds list p).list
        (depListLoop enableElos ds list p).pool := by
  induction ds generalizing list p with
  | nil => rfl
  | cons d ds ih =>
    cases parsed : parseDep d.text with
    | none => simp [depListLoop, parsed] at ok
    | some dep =>
      simp only [cons_append, depListLoop, parsed] at ok ⊢
      split_ifs at ok ⊢
      all_goals first
        | exact absurd rfl ok
        | exact ih ok

theorem depListHandler_join {env : HandlerEnv Env Redir Cgroup} {enableElos : Bool}
    {list : List TaskDep} {p : TimerDB}
    (first : (depListHandler enableElos (depEntries env v) true list p).ret ≠ -1)
    (second : (depListHandler enableElos (depEntries env v') true
      (depListHandler enableElos (depEntries env v) true list p).list
      (depListHandler enableElos (depEntries env v) true list p).pool).ret ≠ -1) :
    depListHandler enableElos (depEntries env (v ++ " " ++ v')) true list p =
      depListHandler enableElos (depEntries env v') true
        (depListHandler enableElos (depEntries env v) true list p).list
        (depListHandler enableElos (depEntries env v) true list p).pool := by
  unfold depEntries at first second ⊢
  cases toks : confConvToStrArr v false with
  | none =>
    rw [toks] at first
    exact absurd rfl first
  | some as =>
    cases toks' : confConvToStrArr v' false with
    | none =>
      rw [toks'] at second
      exact absurd rfl second
    | some bs =>
      rw [toks] at first
      simp only [strArr_join toks toks', Option.map_some, map_append,
        depListHandler_loop] at first ⊢
      exact depListLoop_append first

/-- DEPENDS and TRIGGER: the handler reads one list of dependencies of the task and puts the longer
one in its place. -/
theorem deps_appends (list : TaskDraft Env Redir Cgroup → List TaskDep)
    (put : TaskDraft Env Redir Cgroup → List TaskDep → TaskDraft Env Redir Cgroup)
    {handle : String → Build Env Redir Cgroup → Building Env Redir Cgroup}
    (reads : ∀ val b, handle val b =
      let r := depListHandler env.enableElos (depEntries env.toHandlerEnv val) true
        (list b.draft) b.pool
      if r.ret = -1 then .error (.failed r.pool) else .ok ⟨put b.draft r.list, r.pool⟩)
    (stored : ∀ d deps, list (put d deps) = deps) (replaces : ∀ d deps deps',
      put (put d deps) deps' = put d deps')
    (handles : ∀ val s, processKey env key val s = s.setTask (handle val s.build))
    (accepted : processTwice env key v v' s ≠ .failed) : Appends env key v v' s := by
  have defined : ∀ val b, handle val b ≠ .error .undefined := fun val b => by
    rw [reads]
    dsimp only
    split_ifs <;> exact fun undefined => nomatch undefined
  obtain ⟨b₁, b₂, first, second, appends⟩ := appends_task handles defined accepted
  refine appends.2 ?_
  rw [reads] at first second ⊢
  dsimp only at first second ⊢
  split_ifs at first with failed
  cases first
  rw [stored, replaces] at second
  split_ifs at second with failed'
  cases second
  rw [depListHandler_join failed failed', if_neg failed']

theorem provides_appends (accepted : processTwice env .provides v v' s ≠ .failed) :
    Appends env .provides v v' s := by
  obtain ⟨d₁, d₂, first, second, appends⟩ := appends_set cfgPrvHandler (fun _ _ => rfl) accepted
  obtain ⟨as, prv, toks, parsed, rfl⟩ := cfgPrvHandler_iff.1 first
  obtain ⟨bs, prv', toks', parsed', rfl⟩ := cfgPrvHandler_iff.1 second
  refine appends.2 (cfgPrvHandler_iff.2 ⟨as ++ bs, prv ++ prv', strArr_join toks toks',
    Collect.mapM_append parsed parsed', ?_⟩)
  rw [append_assoc]

/-! ### Masks that are built anew -/

def capMask (caps : List (Fin 64)) : BitVec 64 :=
  caps.foldl (fun mask cap => mask ||| 1#64 <<< cap.val) 0#64

theorem foldl_mask_bit (caps : List (Fin 64)) (mask : BitVec 64) (i : Fin 64) :
    (caps.foldl (fun mask cap => mask ||| 1#64 <<< cap.val) mask).getLsbD i.val =
    (mask.getLsbD i.val || decide (i ∈ caps)) := by
  induction caps generalizing mask with
  | nil => simp
  | cons cap caps ih =>
    have bit : (1#64 <<< cap.val).getLsbD i.val = decide (i = cap) := by
      rw [BitVec.getLsbD_shiftLeft, BitVec.getLsbD_one, Bool.eq_iff_iff]
      simp only [Bool.and_eq_true, Bool.not_eq_true', decide_eq_true_eq, decide_eq_false_iff_not,
        Fin.ext_iff]
      omega
    rw [foldl_cons, ih, BitVec.getLsbD_or, bit, Bool.or_assoc]
    simp only [mem_cons, Bool.decide_or]

theorem capMask_bit (caps : List (Fin 64)) (i : Fin 64) :
    (capMask caps).getLsbD i.val = decide (i ∈ caps) := by
  rw [capMask, foldl_mask_bit]
  simp

theorem capMask_append_iff {caps caps' : List (Fin 64)} :
    capMask (caps ++ caps') = capMask caps' ↔ caps ⊆ caps' := by
  constructor
  · intro same cap mem
    have bit := capMask_bit (caps ++ caps') cap
    rw [same, capMask_bit, decide_eq_decide, mem_append] at bit
    exact bit.2 (.inl mem)
  · intro sub
    refine BitVec.eq_of_getLsbD_eq fun i low => ?_
    have bit := capMask_bit (caps ++ caps') ⟨i, low⟩
    rw [bit, capMask_bit caps' ⟨i, low⟩, decide_eq_decide, mem_append]
    exact ⟨fun mem => mem.elim (fun here => sub here) id, .inr⟩

def wordsOf (val : String) : List String := (confConvToStrArr val true).getD []

variable {val : String}

theorem wordsOf_eq {words : List String} (toks : confConvToStrArr val true = some words) :
    wordsOf val = words := by
  rw [wordsOf, toks, Option.getD_some]

def SubCaps (capFromName : String → Option (Fin 64)) (v v' : String) : Prop :=
  ∀ name ∈ wordsOf v, ∃ name' ∈ wordsOf v', capFromName name = capFromName name'

instance (capFromName : String → Option (Fin 64)) (v v' : String) :
    Decidable (SubCaps capFromName v v') :=
  inferInstanceAs (Decidable (∀ name ∈ wordsOf v, ∃ name' ∈ wordsOf v',
    capFromName name = capFromName name'))

variable {capFromName : String → Option (Fin 64)}

theorem capConvertToBitmask_iff {mask : BitVec 64} :
    capConvertToBitmask capFromName val = some mask ↔
      ∃ names caps, confConvToStrArr val true = some names ∧ names.mapM capFromName = some caps ∧
        capMask caps = mask := by
  simp [capConvertToBitmask, capMask, Option.bind_eq_some_iff]

theorem subCaps_iff {names names' : List String} {caps caps' : List (Fin 64)}
    (found : names.mapM capFromName = some caps) (found' : names'.mapM capFromName = some caps') :
    caps ⊆ caps' ↔ ∀ name ∈ names, ∃ name' ∈ names', capFromName name = capFromName name' := by
  have maps := Collect.mapM_some_iff.1 found
  have maps' := Collect.mapM_some_iff.1 found'
  constructor
  · intro sub name mem
    obtain ⟨cap, here, named⟩ := Collect.forall₂_left maps mem
    obtain ⟨name', mem', named'⟩ := Collect.forall₂_right maps' (sub here)
    exact ⟨name', mem', named.trans named'.symm⟩
  · intro sub cap here
    obtain ⟨name, mem, named⟩ := Collect.forall₂_right maps here
    obtain ⟨name', mem', same⟩ := sub name mem
    obtain ⟨cap', there, named'⟩ := Collect.forall₂_left maps' mem'
    have equal : cap = cap' := Option.some.inj (named.symm.trans (same.trans named'))
    rwa [equal]

theorem capConvert_join {mask mask' : BitVec 64}
    (first : capConvertToBitmask capFromName v = some mask)
    (second : capConvertToBitmask capFromName v' = some mask') :
    ∃ both, capConvertToBitmask capFromName (v ++ " " ++ v') = some both ∧
      (both = mask' ↔ SubCaps capFromName v v') := by
  obtain ⟨names, caps, toks, found, rfl⟩ := capConvertToBitmask_iff.1 first
  obtain ⟨names', caps', toks', found', rfl⟩ := capConvertToBitmask_iff.1 second
  refine ⟨capMask (caps ++ caps'), ?_, ?_⟩
  · exact capConvertToBitmask_iff.2 ⟨_, _, strArr_join toks toks', Collect.mapM_append found found',
      rfl⟩
  · rw [capMask_append_iff, subCaps_iff found found', SubCaps, wordsOf_eq toks, wordsOf_eq toks']

/-- CAPABILITY_SET and CAPABILITY_CLEAR: the second mask replaces the first one. -/
theorem caps_appends_iff (put : TaskDraft Env Redir Cgroup → BitVec 64 → TaskDraft Env Redir Cgroup)
    (handles : ∀ val s, processKey env key val s =
      s.setTask (s.build.set ((capConvertToBitmask env.capFromName val).map (put s.build.draft))))
    (replaces : ∀ d mask mask', put (put d mask) mask' = put d mask')
    (injective : ∀ d mask mask', put d mask = put d mask' → mask = mask')
    (accepted : processTwice env key v v' s ≠ .failed) :
    Appends env key v v' s ↔ SubCaps env.capFromName v v' := by
  obtain ⟨d₁, d₂, first, second, appends⟩ :=
    appends_set (fun val d => (capConvertToBitmask env.capFromName val).map (put d))
      handles accepted
  obtain ⟨mask, converted, rfl⟩ := Option.map_eq_some_iff.1 first
  obtain ⟨mask', converted', rfl⟩ := Option.map_eq_some_iff.1 second
  obtain ⟨both, joined, same⟩ := capConvert_join converted converted'
  rw [appends, joined, Option.map_some, Option.some.injEq, replaces, ← same]
  exact ⟨injective _ _ _, congrArg _⟩

variable {db : IdDb} {t : Credentials}

theorem cfgGroupHandler_congr {val' : String}
    (same : confConvToStrArr val true = confConvToStrArr val' true) :
    cfgGroupHandler db t val = cfgGroupHandler db t val' := by
  unfold cfgGroupHandler
  rw [same]

theorem cfgGroupHandler_nothing {t' : Credentials} (empty : confConvToStrArr val true = some [])
    (ok : cfgGroupHandler db t val = some t') : t' = t := by
  unfold cfgGroupHandler at ok
  rw [empty] at ok
  simp only [length_nil, Nat.not_lt_zero, if_false, groupLoop] at ok
  split_ifs at ok
  exact (Option.some.inj ok).symm

theorem granted_sup_length (t : Credentials) (r : Option (Id × String))
    {rs : List (Option (Id × String))} (some : rs ≠ []) :
    (granted t r rs).supGroups.length = rs.length := by
  simp [granted, some]

/-- Two values with entries, in one value and one after the other: the second one takes the place of
the first, unless it says what the task has already. -/
theorem granted_join_iff (t : Credentials) (r r' : Option (Id × String))
    (rs rs' : List (Option (Id × String))) :
    granted t r (rs ++ r' :: rs') = granted (granted t r rs) r' rs' ↔
      rs = [] ∧ rs' = [] ∧ t.supGroups = [supGroupOf r'] ∧
        granted (granted t r []) r' [] = granted t r [] := by
  constructor
  · intro same
    have lengths := congrArg (fun t => t.supGroups.length) same
    rw [granted_sup_length t r (by simp), length_append, length_cons] at lengths
    by_cases none' : rs' = []
    · by_cases none : rs = []
      · cases none
        cases none'
        have sup : [supGroupOf r'] = t.supGroups := congrArg Credentials.supGroups same
        refine ⟨rfl, rfl, sup.symm, ?_⟩
        rw [← show granted t r ([] ++ [r']) = _ from same]
        simp [granted, sup]
      · have replaced : (granted (granted t r rs) r' rs').supGroups = (granted t r rs).supGroups :=
          if_pos none'
        rw [replaced, granted_sup_length t r none] at lengths
        omega
    · rw [granted_sup_length _ r' none'] at lengths
      omega
  · rintro ⟨rfl, rfl, sup, main⟩
    rw [main]
    simp [granted, sup]

/-- The token is the name or the number of a group. -/
def NamesGroup (db : IdDb) (tok : String) (gid : Id) (name : String) : Prop :=
  if startsAlpha tok then db.id tok = some gid ∧ name = tok
  else idNumber tok = some gid ∧ db.name gid = some name

/-- A name without a group is passed over. -/
def UnknownGroup (db : IdDb) (tok : String) : Prop := startsAlpha tok = true ∧ db.id tok = none

/-- The task has the second group as its only supplementary group already, and it is the first one
too, or that one is unknown and the task is in the second. -/
def SaysTheSame (db : IdDb) (t : Credentials) (g g' : String) : Prop :=
  UnknownGroup db g' ∧ t.supGroups = [0#32] ∨
    ∃ gid name, NamesGroup db g' gid name ∧ t.supGroups = [gid] ∧
      (NamesGroup db g gid name ∨
        UnknownGroup db g ∧ t.group = gid ∧ t.groupname = some name)

/-- One of the values has no entry, or both have one and the second says nothing new. -/
def GroupAppends (db : IdDb) (t : Credentials) (v v' : String) : Prop :=
  wordsOf v = [] ∨ wordsOf v' = [] ∨
    ∃ g g', wordsOf v = [g] ∧ wordsOf v' = [g'] ∧ SaysTheSame db t g g'

theorem groupToken_none {tok : String} : groupToken db tok = some none ↔ UnknownGroup db tok := by
  unfold groupToken UnknownGroup
  split_ifs with alpha
  · simp [alpha]
  · cases idNumber tok <;> simp [alpha]

theorem groupToken_some {tok name : String} {gid : Id} :
    groupToken db tok = some (some (gid, name)) ↔ NamesGroup db tok gid name := by
  unfold groupToken NamesGroup
  split_ifs with alpha
  · simp [eq_comm]
  · cases idNumber tok with
    | none => simp
    | some n =>
      simp only [Option.map_eq_some_iff, Option.some.injEq, Prod.mk.injEq]
      constructor
      · rintro ⟨_, found, rfl, rfl⟩
        exact ⟨rfl, found⟩
      · rintro ⟨rfl, found⟩
        exact ⟨name, found, rfl, rfl⟩

theorem saysTheSame_iff {g g' : String} {r r' : Option (Id × String)}
    (taken : groupToken db g = some r) (taken' : groupToken db g' = some r') :
    SaysTheSame db t g g' ↔
      t.supGroups = [supGroupOf r'] ∧ granted (granted t r []) r' [] = granted t r [] := by
  simp only [SaysTheSame, ← groupToken_none, ← groupToken_some, taken, taken']
  cases r' with
  | none => simp [supGroupOf, granted]
  | some p' =>
    obtain ⟨gid', name'⟩ := p'
    cases r with
    | none => simp [supGroupOf, granted, eq_comm]
    | some p => simp [supGroupOf, granted, Prod.ext_iff, eq_comm]

theorem mapM_nil_iff {B : Type} {f : A → Option B} {xs : List A} {ys : List B}
    (found : xs.mapM f = some ys) : ys = [] ↔ xs = [] := by
  have lengths := (Collect.mapM_some_iff.1 found).length_eq
  rw [← length_eq_zero_iff, ← lengths, length_eq_zero_iff]

theorem group_join_iff {t₁ t₂ : Credentials} (first : cfgGroupHandler db t v = some t₁)
    (second : cfgGroupHandler db t₁ v' = some t₂) :
    cfgGroupHandler db t (v ++ " " ++ v') = some t₂ ↔ GroupAppends db t v v' := by
  have split : ∃ as bs, confConvToStrArr v true = some as ∧ confConvToStrArr v' true = some bs := by
    cases toks : confConvToStrArr v true with
    | none => simp [cfgGroupHandler, toks] at first
    | some as =>
      cases toks' : confConvToStrArr v' true with
      | none => simp [cfgGroupHandler, toks'] at second
      | some bs => exact ⟨as, bs, rfl, rfl⟩
  obtain ⟨as, bs, toks, toks'⟩ := split
  have joined := strArr_join toks toks'
  unfold GroupAppends
  rw [wordsOf_eq toks, wordsOf_eq toks']
  cases as with
  | nil =>
    rw [cfgGroupHandler_congr (joined.trans toks'.symm), ← cfgGroupHandler_nothing toks first]
    exact iff_of_true second (.inl rfl)
  | cons g gs =>
    cases bs with
    | nil =>
      rw [append_nil] at joined
      rw [cfgGroupHandler_congr (joined.trans toks.symm), cfgGroupHandler_nothing toks' second]
      exact iff_of_true first (.inr (.inl rfl))
    | cons g' gs' =>
      obtain ⟨r, rs, taken, found, named, rfl⟩ := (cfgGroupHandler_iff toks).1 first
      obtain ⟨r', rs', taken', found', named', rfl⟩ := (cfgGroupHandler_iff toks').1 second
      have rest : (gs ++ g' :: gs').mapM (groupToken db) = some (rs ++ r' :: rs') :=
        Collect.mapM_append found (by rw [mapM_cons, taken', found']; rfl)
      have once : cfgGroupHandler db t (v ++ " " ++ v') = some (granted t r (rs ++ r' :: rs')) :=
        (cfgGroupHandler_iff joined).2 ⟨r, _, taken, rest, named, rfl⟩
      rw [once, Option.some.injEq, granted_join_iff, mapM_nil_iff found, mapM_nil_iff found']
      constructor
      · rintro ⟨rfl, rfl, same⟩
        exact .inr (.inr ⟨g, g', rfl, rfl, (saysTheSame_iff taken taken').2 same⟩)
      · rintro (none | none | ⟨_, _, single, single', same⟩)
        · cases none
        · cases none
        · cases single
          cases single'
          exact ⟨rfl, rfl, (saysTheSame_iff taken taken').1 same⟩

theorem group_appends_iff (accepted : processTwice env .group v v' s ≠ .failed) :
    Appends env .group v v' s ↔ GroupAppends env.groups s.build.draft.creds v v' := by
  obtain ⟨d₁, d₂, first, second, appends⟩ :=
    appends_set (handleGroup env.toHandlerEnv) (fun _ _ => rfl) accepted
  obtain ⟨t₁, handled, rfl⟩ := Option.map_eq_some_iff.1 first
  obtain ⟨t₂, handled', rfl⟩ := Option.map_eq_some_iff.1 second
  rw [appends, ← group_join_iff handled handled', handleGroup, Option.map_eq_some_iff]
  constructor
  · rintro ⟨t, joined, same⟩
    have equal : t = t₂ := congrArg TaskDraft.creds same
    rwa [← equal]
  · exact fun joined => ⟨t₂, joined, rfl⟩

/-! ### Options of the series file -/

theorem appends_opts (handle : String → GlobOpts → Handled GlobOpts)
    (handles : ∀ val (s : ConfStore Env Redir Cgroup), processKey env key val s =
      s.setOpts (handle val s.opts))
    (accepted : processTwice env key v v' s ≠ .failed) :
    (handle v s.opts).bind (handle v') ≠ .failed ∧
      (Appends env key v v' s ↔
        ∃ o, (handle v s.opts).bind (handle v') = .ok o ∧
          handle (v ++ " " ++ v') s.opts = .ok o) := by
  have twice : processTwice env key v v' s = s.setOpts ((handle v s.opts).bind (handle v')) := by
    unfold processTwice
    rw [handles]
    cases handle v s.opts with
    | ok o => exact handles v' _
    | failed => rfl
    | undefined => rfl
  have stored : ∀ r s', s.setOpts r = .ok s' ↔ ∃ o, r = .ok o ∧ { s with opts := o } = s' :=
    fun r s' => by
    cases r <;> simp [ConfStore.setOpts, Handled.bind]
  rw [twice] at accepted
  unfold Appends
  rw [twice, handles]
  refine ⟨fun failed => accepted (by rw [failed]; rfl), ?_⟩
  · simp only [stored]
    constructor
    · rintro ⟨s', ⟨o, first, rfl⟩, o', second, same⟩
      have equal : o' = o := congrArg ConfStore.opts same
      exact ⟨o, first, equal ▸ second⟩
    · rintro ⟨o, first, second⟩
      exact ⟨_, ⟨o, first, rfl⟩, o, second, rfl⟩

theorem bind_ok {B : Type} {r : Handled A} {f : A → Handled B} {b : B} :
    r.bind f = .ok b ↔ ∃ a, r = .ok a ∧ f a = .ok b := by
  cases r <;> simp [Handled.bind]

theorem cfgTasksHandler_iff {o o' : GlobOpts} : cfgTasksHandler val o = .ok o' ↔
    ∃ toks, confConvToStrArr val true = some toks ∧
      (o.tasks = none ∨ o.tasks ≠ some [] ∧ toks ≠ []) ∧
      o' = { o with tasks := some (o.tasks.getD [] ++ toks) } := by
  unfold cfgTasksHandler
  cases confConvToStrArr val true with
  | none => simp
  | some toks =>
    cases old : o.tasks with
    | none => simp [eq_comm]
    | some tasks =>
      by_cases gap : tasks = [] ∨ toks = []
      · rcases gap with rfl | rfl <;> simp
      · obtain ⟨some, some'⟩ := not_or.1 gap
        simp [some, some', eq_comm]

theorem words_some (some : wordsOf val ≠ []) :
    ∃ toks, confConvToStrArr val true = Option.some toks ∧ wordsOf val = toks := by
  unfold wordsOf at some ⊢
  cases toks : confConvToStrArr val true with
  | none =>
    rw [toks] at some
    exact absurd rfl some
  | some toks' => exact ⟨toks', rfl, rfl⟩

theorem tasks_appends_iff (accepted : processTwice env .tasks v v' s ≠ .failed) :
    Appends env .tasks v v' s ↔ s.opts.tasks ≠ some [] ∧ wordsOf v ≠ [] ∧ wordsOf v' ≠ [] := by
  obtain ⟨-, appends⟩ := appends_opts cfgTasksHandler (fun _ _ => rfl) accepted
  rw [appends]
  constructor
  · rintro ⟨o, twice, -⟩
    obtain ⟨o₁, first, second⟩ := bind_ok.1 twice
    obtain ⟨as, toks, room, rfl⟩ := cfgTasksHandler_iff.1 first
    obtain ⟨bs, toks', room', -⟩ := cfgTasksHandler_iff.1 second
    have second' : some (s.opts.tasks.getD [] ++ as) ≠ some [] ∧ bs ≠ [] :=
      room'.resolve_left fun none => nomatch none
    rw [wordsOf_eq toks, wordsOf_eq toks']
    rcases room with none | ⟨old, some⟩
    · rw [none] at second' ⊢
      exact ⟨fun same => (nomatch same), fun empty => second'.1 (congrArg some empty), second'.2⟩
    · exact ⟨old, some, second'.2⟩
  · rintro ⟨old, some, some'⟩
    obtain ⟨as, toks, words⟩ := words_some some
    obtain ⟨bs, toks', words'⟩ := words_some some'
    rw [words] at some
    rw [words'] at some'
    refine ⟨_, bind_ok.2 ⟨_, cfgTasksHandler_iff.2 ⟨as, toks, .inr ⟨old, some⟩, rfl⟩,
      cfgTasksHandler_iff.2 ⟨bs, toks', .inr ⟨?_, some'⟩, rfl⟩⟩,
      cfgTasksHandler_iff.2 ⟨as ++ bs, strArr_join toks toks', .inr ⟨old, by simp [some]⟩, ?_⟩⟩
    · simp [some]
    · simp

theorem defaultCaps_not_appends (accepted : processTwice env .defaultCaps v v' s ≠ .failed) :
    ¬Appends env .defaultCaps v v' s := by
  obtain ⟨-, appends⟩ := appends_opts cfgDefaultCapsHandler (fun _ _ => rfl) accepted
  rw [appends]
  rintro ⟨o, second, joined⟩
  have same : Handled.ok _ = Handled.ok _ := second.trans joined.symm
  have texts : v' = v ++ " " ++ v' := congrArg GlobOpts.defaultCaps (Handled.ok.inj same)
  have lengths := congrArg String.length texts
  rw [String.length_append, String.length_append] at lengths
  have blank : " ".length = 1 := rfl
  omega

theorem cgroupNames_count {o o' : GlobOpts} (ok : cfgCgroupGlobalNameHandler val o = .ok o') :
    ∃ toks, confConvToStrArr val true = some toks ∧ toks ≠ [] ∧
      o'.globCgroupsCount = toks.length := by
  unfold cfgCgroupGlobalNameHandler at ok
  cases toks : confConvToStrArr val true with
  | none =>
    rw [toks] at ok
    cases ok
  | some parsedVal =>
    rw [toks] at ok
    dsimp only at ok
    split_ifs at ok with empty
    refine ⟨parsedVal, rfl, empty, ?_⟩
    cases old : o.globCgroups with
    | none =>
      rw [old] at ok
      cases ok
      exact length_map _
    | some globConfigs =>
      rw [old] at ok
      dsimp only at ok
      split_ifs at ok
      cases ok
      exact length_map _

/-- The number of cgroups is that of the last value. -/
theorem cgroupNames_not_appends (accepted : processTwice env .cgroupGlobalName v v' s ≠ .failed) :
    ¬Appends env .cgroupGlobalName v v' s := by
  obtain ⟨-, appends⟩ := appends_opts cfgCgroupGlobalNameHandler (fun _ _ => rfl) accepted
  rw [appends]
  rintro ⟨o, twice, joined⟩
  obtain ⟨o₁, first, second⟩ := bind_ok.1 twice
  obtain ⟨as, toks, some, -⟩ := cgroupNames_count first
  obtain ⟨bs, toks', -, count⟩ := cgroupNames_count second
  obtain ⟨cs, toksBoth, -, countBoth⟩ := cgroupNames_count joined
  cases toksBoth.symm.trans (strArr_join toks toks')
  rw [count, length_append] at countBoth
  exact some (List.length_eq_zero_iff.1 (by omega))

def AppendsWhen (env : ConfEnv Env Redir Cgroup) (v v' : String) (s : ConfStore Env Redir Cgroup) :
    ArrayKey → Prop
  | .depends | .trigger | .provides => True
  | .group => GroupAppends env.groups s.build.draft.creds v v'
  | .capabilitySet | .capabilityClear => SubCaps env.capFromName v v'
  | .tasks => s.opts.tasks ≠ some [] ∧ wordsOf v ≠ [] ∧ wordsOf v' ≠ []
  | .defaultCaps | .cgroupGlobalName => False

theorem repeat_appends_iff (env : ConfEnv Env Redir Cgroup) (key : ArrayKey) (v v' : String)
    (s : ConfStore Env Redir Cgroup) (accepted : processTwice env key v v' s ≠ .failed) :
    Appends env key v v' s ↔ AppendsWhen env v v' s key := by
  cases key with
  | depends =>
    exact iff_of_true (deps_appends (fun d => d.deps) (fun d deps => { d with deps := deps })
      (fun _ _ => rfl) (fun _ _ => rfl) (fun _ _ _ => rfl) (fun _ _ => rfl) accepted) trivial
  | trigger =>
    exact iff_of_true (deps_appends (fun d => d.trig) (fun d trig => { d with trig := trig })
      (fun _ _ => rfl) (fun _ _ => rfl) (fun _ _ _ => rfl) (fun _ _ => rfl) accepted) trivial
  | provides => exact iff_of_true (provides_appends accepted) trivial
  | group => exact group_appends_iff accepted
  | capabilitySet =>
    exact caps_appends_iff (fun d mask => { d with capabilitiesSet := mask }) (fun _ _ => rfl)
      (fun _ _ _ => rfl) (fun _ _ _ same => congrArg TaskDraft.capabilitiesSet same) accepted
  | capabilityClear =>
    exact caps_appends_iff (fun d mask => { d with capabilitiesClear := mask }) (fun _ _ => rfl)
      (fun _ _ _ => rfl) (fun _ _ _ same => congrArg TaskDraft.capabilitiesClear same) accepted
  | tasks => exact tasks_appends_iff accepted
  | defaultCaps => exact iff_of_false (defaultCaps_not_appends accepted) id
  | cgroupGlobalName => exact iff_of_false (cgroupNames_not_appends accepted) id

end Processing

def sampleCaps : ConfEnv (List String) String String := { sampleConf with capFromName := capNumber }

def sampleStore : ConfStore (List String) String String where
  build := ⟨{ taskEnv := [], elosFilters := [] }, {}⟩
  opts := {}

theorem capabilities_repeat : Appends sampleCaps .capabilitySet "CAP_NET_RAW"
      "CAP_SYS_ADMIN CAP_NET_RAW" sampleStore := by
  have accepted : processTwice sampleCaps .capabilitySet "CAP_NET_RAW" "CAP_SYS_ADMIN CAP_NET_RAW"
    sampleStore ≠ .failed :=
    ok_ne_failed _
  have sub : SubCaps sampleCaps.capFromName "CAP_NET_RAW" "CAP_SYS_ADMIN CAP_NET_RAW" := by decide
  exact (repeat_appends_iff _ _ _ _ _ accepted).2 sub

def Handled.toOption {A : Type} : Handled A → Option A
  | .ok a => some a
  | .failed | .undefined => none

theorem not_appends {env : ConfEnv Env Redir Cgroup} {key : ArrayKey} {v v' : String}
    {s : ConfStore Env Redir Cgroup} (look : ConfStore Env Redir Cgroup → A)
    (differ : (processTwice env key v v' s).toOption.map look ≠
      (processKey env key (v ++ " " ++ v') s).toOption.map look) : ¬Appends env key v v' s := by
  rintro ⟨s', twice, once⟩
  rw [twice, once] at differ
  exact differ rfl

/-- Six of the keys forget the first value or run over the end of an array. -/
theorem later_value_replaces :
    (processTwice sampleCaps .group "users" "audio" sampleStore).toOption.map
    (fun s => s.build.draft.creds) =
      some { group := 29#32, groupname := some "audio" } ∧
    (processKey sampleCaps .group "users audio" sampleStore).toOption.map
    (fun s => s.build.draft.creds) =
      some { group := 100#32, groupname := some "users", supGroups := [29#32] } ∧
    ¬Appends sampleCaps .group "users" "audio" sampleStore ∧
    ¬Appends sampleCaps .capabilitySet "CAP_SYS_ADMIN" "CAP_NET_RAW" sampleStore ∧
    ¬Appends sampleCaps .capabilityClear "CAP_SYS_ADMIN" "CAP_NET_RAW" sampleStore ∧
    ¬Appends sampleCaps .defaultCaps "CAP_SYS_ADMIN" "CAP_NET_RAW" sampleStore ∧
    processTwice sampleCaps .tasks "" "net.crinit" sampleStore = .undefined ∧
    processTwice sampleCaps .tasks "net.crinit" "" sampleStore = .undefined ∧
    ¬Appends sampleCaps .cgroupGlobalName "a" "b" sampleStore ∧
    processTwice sampleCaps .cgroupGlobalName "a" "b c" sampleStore = .undefined := by
  refine ⟨rfl, rfl, not_appends (fun s => s.build.draft.creds.group) (by decide),
    not_appends (fun s => s.build.draft.capabilitiesSet) (by decide),
    not_appends (fun s => s.build.draft.capabilitiesClear) (by decide),
    not_appends (fun s => s.opts.defaultCaps) (by decide), rfl, rfl,
    not_appends (fun s => s.opts.globCgroupsCount) (by decide), rfl⟩

end Crinit
