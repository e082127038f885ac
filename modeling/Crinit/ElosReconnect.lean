import Mathlib.Data.List.Count
import Crinit.ElosRegister
import Crinit.Frame
import Crinit.Removal

/-! The elos filters of the tasks over the life of the elos feature (`elosdep.c`). After each call
the listener runs to its next sleep or to its end. -/
namespace Crinit

open List

/-- `crinitElosdepFilterTask_t`. The pointer to the task dangles once the array of tasks has
moved. -/
structure ListedTask where
  task : String
  filterList : List TaskFilter
  dangling : Bool := false
  deriving DecidableEq

structure ElosDeps where
  useElos : Bool := true
  db : TaskDB := {}
  elosFilters : String → EnvSet := fun _ => .empty
  filterTasks : List ListedTask := []
  elosActivated : Bool := false
  elosStarted : Bool := false
  listening : Bool := false

inductive ElosCall where
  | insert (t : ElosTask) (overwrite : Bool) (env : InsertEnv) (moves : Bool)
      (answers : Nat → RegisterAnswers)
  | activate (e : Bool)

structure ElosTurn where
  call : ElosCall
  version : Bool := true
  subscribes : Bool := true
  events : List Bool := []

def filterDeps (started : Bool) (answers : Nat → RegisterAnswers) (deps : List TaskDep) :
    List FilterDep :=
  deps.mapIdx fun i dep => ⟨dep, { answers i with elosStarted := started }⟩

def ElosDeps.grows (s : ElosDeps) (t : Task) : Bool :=
  (s.db.findTask t.name).isNone && s.db.taskSet.length = s.db.taskSetSize

def ElosDeps.relocated (s : ElosDeps) (t : Task) (env : InsertEnv) (moves : Bool) :
    List ListedTask :=
  s.filterTasks.map fun ft =>
    { ft with dangling := ft.dangling || (s.grows t && env.growOk && moves) }

def ElosDeps.hookEntry (s : ElosDeps) (t : ElosTask) (answers : Nat → RegisterAnswers) :
    List ListedTask :=
  let deps := filterDeps s.elosStarted answers t.task.deps
  let trig := filterDeps s.elosStarted (fun i => answers (t.task.deps.length + i)) t.task.trig
  if s.useElos then
    ((elosdepTaskAdded t.elosFilters deps trig).2.map fun filters =>
      ⟨t.task.name, filters, false⟩).toList
  else []

def ElosDeps.insert (s : ElosDeps) (t : ElosTask) (overwrite : Bool) (env : InsertEnv)
    (moves : Bool) (answers : Nat → RegisterAnswers) : Option ElosDeps :=
  if s.db.corrupt then none
  else
    let r := s.db.insert t.task overwrite { env with hookOk := true }
    let moved := s.relocated t.task env moves
    if r.ret = -1 then
      -- a copy that fails is destroyed, and the filters that the task defines with it
      some { s with
        db := r.db
        elosFilters := fun n =>
          if n = t.task.name ∧ r.db.corrupt = true then .empty else s.elosFilters n
        filterTasks := moved }
    else some { s with
      db := r.db
      elosFilters := fun n => if n = t.task.name then t.elosFilters else s.elosFilters n
      filterTasks := moved ++ s.hookEntry t answers }

def elosDep (f : String) : TaskDep := ⟨elosDepName, f⟩

/-- A read through a dangling pointer or of a name that is NULL has no result. -/
def pollTask (ft : ListedTask) : List TaskFilter → TaskDB → List Bool →
    Option (TaskDB × List TaskFilter × List Bool)
  | [], db, events => some (db, [], events)
  | f :: fs, db, events =>
    if events.headD false && f.subscribed then
      if ft.dangling then none
      else f.name.bind fun name =>
        let db' := (db.fulfillDep (elosDep name) (some ft.task)).db
        (pollTask ft fs db' events.tail).map fun r =>
          (r.1, if rearmed db' ft.task then f :: r.2.1 else r.2.1, r.2.2)
    else (pollTask ft fs db events.tail).map fun r => (r.1, f :: r.2.1, r.2.2)

def pollAll : List ListedTask → TaskDB → List Bool → Option (TaskDB × List ListedTask)
  | [], db, _ => some (db, [])
  | ft :: fts, db, events =>
    (pollTask ft ft.filterList db events).bind fun r =>
      (pollAll fts r.1 r.2.2).map fun r' => (r'.1, { ft with filterList := r.2.1 } :: r'.2)

def ElosDeps.exit (s : ElosDeps) : ElosDeps :=
  { s with filterTasks := [], elosStarted := false, listening := false }

def ElosDeps.poll (s : ElosDeps) (events : List Bool) : Option ElosDeps :=
  if s.elosActivated then
    (pollAll s.filterTasks s.db events).map fun r =>
      { s with db := r.1, filterTasks := r.2, listening := true }
  else some s.exit

def ListedTask.subscribeAll (ft : ListedTask) : ListedTask :=
  { ft with filterList := ft.filterList.map fun f => { f with subscribed := true } }

def ElosTurn.connects (turn : ElosTurn) (filterTasks : List ListedTask) : Bool :=
  turn.version && (turn.subscribes || filterTasks.all (·.filterList.isEmpty))

def ElosDeps.listen (s : ElosDeps) (turn : ElosTurn) : Option ElosDeps :=
  if turn.connects s.filterTasks then
    ElosDeps.poll { s with
      elosStarted := true
      filterTasks := s.filterTasks.map ListedTask.subscribeAll } turn.events
  else some s.exit

def ElosDeps.step (s : ElosDeps) (turn : ElosTurn) : Option ElosDeps :=
  match turn.call with
  | .insert t overwrite env moves answers =>
    (s.insert t overwrite env moves answers).bind fun s' =>
      if s'.listening then s'.poll turn.events else some s'
  | .activate e =>
    if s.useElos = false then some s
    else if e && !s.elosActivated then ElosDeps.listen { s with elosActivated := true } turn
    else
      let s' := { s with elosActivated := e }
      if s'.listening then s'.poll turn.events else some s'

inductive ElosRun (guard : ElosDeps → ElosTurn → Prop) (useElos : Bool) :
    List ElosTurn → ElosDeps → Prop where
  | boot : ElosRun guard useElos [] { useElos := useElos }
  | next {turns : List ElosTurn} {s s' : ElosDeps} (turn : ElosTurn) :
      ElosRun guard useElos turns s → guard s turn → s.step turn = some s' →
        ElosRun guard useElos (turns ++ [turn]) s'

/-! ### Filters for what is outstanding -/

structure AwaitsFilter (s : ElosDeps) (t : Task) (f : String) (rule : List Char) : Prop where
  inDb : t ∈ s.db.taskSet
  waits : elosDep f ∈ t.deps
  defined : (s.elosFilters t.name).get f.toList = some rule

def Watched (s : ElosDeps) (n f : String) (rule : List Char) : Prop :=
  ∃ ft ∈ s.filterTasks, ft.task = n ∧ ft.dangling = false ∧
    ∃ x ∈ ft.filterList, x.name = some f ∧ x.filter = some rule ∧ x.subscribed = true

def FiltersLive (s : ElosDeps) : Prop :=
  s.elosActivated = true → s.listening = true →
    ∀ t f rule, AwaitsFilter s t f rule → Watched s t.name f rule

def DefinedRegistered (es : EnvSet) : Bool → List FilterDep → Prop
  | _, [] => True
  | listed, e :: rest =>
    (e.elos = true → (es.get e.dep.event.toList).isSome = true →
      Passes es listed e ∧ CopiesMade e) ∧
      if Passes es listed e then DefinedRegistered es (listedBehind listed e) rest
      else ∀ e' ∈ rest, e'.elos = true → es.get e'.dep.event.toList = none

instance decidableDefinedRegistered (es : EnvSet) :
    ∀ listed entries, Decidable (DefinedRegistered es listed entries)
  | _, [] => isTrue trivial
  | listed, e :: rest =>
    have := decidableDefinedRegistered es (listedBehind listed e) rest
    inferInstanceAs (Decidable (_ ∧ _))

structure Placed (db : TaskDB) (t : Task) (overwrite : Bool) (env : InsertEnv) : Prop where
  copied : env.copies t = true
  replaces : (db.findTask t.name).isSome = true → overwrite = true
  room : db.findTask t.name = none → db.taskSet.length = db.taskSetSize → env.growOk = true

/-- An insertion registers what it defines and leaves the pointers of other tasks that wait intact,
and the listener ends only while no task waits. -/
def KeepsFilters (s : ElosDeps) (turn : ElosTurn) : Prop :=
  match turn.call with
  | .insert t overwrite env moves answers =>
    s.useElos = true →
      (Placed s.db t.task overwrite env →
        DefinedRegistered t.elosFilters false (filterDeps s.elosStarted answers t.task.deps)) ∧
      (s.grows t.task = true → env.growOk = true → moves = true →
        ∀ u f rule, ¬ AwaitsFilter s u f rule)
  | .activate e =>
    (e = false ∧ s.listening = true ∨
      e = true ∧ s.elosActivated = false ∧ turn.connects s.filterTasks = false) →
        ∀ u f rule, ¬ AwaitsFilter s u f rule

def isGood (started : Bool) (f : String) (rule : List Char) (x : TaskFilter) : Bool :=
  x.name = some f && x.filter = some rule && (!started || x.subscribed)

def ListedTask.covers (started : Bool) (n f : String) (rule : List Char) (ft : ListedTask) : Nat :=
  if ft.task = n ∧ ft.dangling = false then ft.filterList.countP (isGood started f rule) else 0

def covers (started : Bool) (n f : String) (rule : List Char) (fts : List ListedTask) : Nat :=
  (fts.map (ListedTask.covers started n f rule)).sum

theorem covers_append (started : Bool) (n f : String) (rule : List Char)
    (fts fts' : List ListedTask) :
    covers started n f rule (fts ++ fts') =
      covers started n f rule fts + covers started n f rule fts' := by
  simp [covers]

theorem covers_cons (started : Bool) (n f : String) (rule : List Char) (ft : ListedTask)
    (fts : List ListedTask) : covers started n f rule (ft :: fts) =
      ft.covers started n f rule + covers started n f rule fts := by
  simp [covers]

variable {n f : String} {rule : List Char}

theorem covers_found {started : Bool} {fts : List ListedTask}
    (positive : 0 < covers started n f rule fts) :
    ∃ ft ∈ fts, ft.task = n ∧ ft.dangling = false ∧
      ∃ x ∈ ft.filterList, isGood started f rule x = true := by
  induction fts with
  | nil => exact absurd positive (Nat.lt_irrefl 0)
  | cons ft fts ih =>
    by_cases here : 0 < ft.covers started n f rule
    · unfold ListedTask.covers at here
      split_ifs at here with same
      · obtain ⟨x, member, good⟩ := List.countP_pos_iff.mp here
        exact ⟨ft, mem_cons_self, same.1, same.2, x, member, good⟩
      · exact absurd here (Nat.lt_irrefl 0)
    · have later : 0 < covers started n f rule fts := by
        rw [covers_cons] at positive
        omega
      obtain ⟨ft', member, rest⟩ := ih later
      exact ⟨ft', mem_cons_of_mem _ member, rest⟩

theorem newFilters_cover {es : EnvSet} {started : Bool} (defined : es.get f.toList = some rule)
    (listed : Bool) (entries : List FilterDep)
    (answered : ∀ e ∈ entries, e.answers.elosStarted = started)
    (registered : DefinedRegistered es listed entries) :
    (entries.map FilterDep.dep).count (elosDep f) ≤
      (newFilters es listed entries).countP (isGood started f rule) := by
  induction entries generalizing listed with
  | nil => exact Nat.le_refl 0
  | cons e rest ih =>
    obtain ⟨own, later⟩ := registered
    have behind := ih (listedBehind listed e)
      (fun e' member => answered e' (mem_cons_of_mem _ member))
    have here := answered e mem_cons_self
    simp only [map_cons, newFilters, countP_append]
    by_cases same : e.dep = elosDep f
    · have elos : e.elos = true := (elos_iff e).mpr (by rw [same]; rfl)
      have event : e.dep.event = f := by rw [same]; rfl
      obtain ⟨passes, copied⟩ := own elos (by rw [event, defined]; rfl)
      obtain ⟨gets, subscribed⟩ := passes elos
      rw [if_pos passes] at later ⊢
      have mine : (ownFilter es listed e).countP (isGood started f rule) = 1 := by
        rw [ownFilter, if_pos ⟨elos, gets⟩, event, copied.1, copied.2, defined, here]
        cases started with
        | false => simp [isGood]
        | true => simp [isGood, subscribed here]
      rw [same, count_cons_self, mine]
      have := behind later
      omega
    · rw [count_cons_of_ne same]
      by_cases passes : Passes es listed e
      · rw [if_pos passes] at later ⊢
        have := behind later
        omega
      · rw [if_neg passes] at later
        have none : (rest.map FilterDep.dep).count (elosDep f) = 0 := by
          refine List.count_eq_zero.mpr fun member => ?_
          obtain ⟨e', inside, named⟩ := List.mem_map.mp member
          have undefined := later e' inside ((elos_iff e').mpr (by rw [named]; rfl))
          rw [named] at undefined
          exact absurd (defined.symm.trans undefined) (Option.some_ne_none rule)
        omega

structure FiltersKept (s : ElosDeps) : Prop where
  distinct : s.db.names.Nodup
  armed : s.elosActivated = true → s.useElos = true
  listens : s.listening = true → s.elosStarted = true ∧ s.elosActivated = true
  covered : s.useElos = true → ∀ n t f rule, s.db.findTask n = some t →
    (s.elosFilters n).get f.toList = some rule →
      t.deps.count (elosDep f) ≤ covers s.elosStarted n f rule s.filterTasks

variable {s : ElosDeps}

theorem FiltersKept.live (kept : FiltersKept s) : FiltersLive s := by
  intro active listening t f rule out
  have found := find_of_mem kept.distinct out.inDb
  have bound := kept.covered (kept.armed active) t.name t f rule found out.defined
  have one : 0 < t.deps.count (elosDep f) := List.count_pos_iff.mpr out.waits
  obtain ⟨ft, member, task, intact, x, inside, good⟩ := covers_found (Nat.lt_of_lt_of_le one bound)
  simp only [isGood, Bool.and_eq_true, decide_eq_true_eq, (kept.listens listening).1, Bool.not_true,
    Bool.false_or] at good
  exact ⟨ft, member, task, intact, x, inside, good.1.1, good.1.2, good.2⟩

variable {t : Task}

theorem none_counted (none : ∀ t f rule, ¬ AwaitsFilter s t f rule)
    (found : s.db.findTask n = some t) (defined : (s.elosFilters n).get f.toList = some rule) :
    t.deps.count (elosDep f) = 0 := by
  refine List.count_eq_zero.mpr fun waits => none t f rule ⟨find_mem found, waits, ?_⟩
  rw [findTask_name found]
  exact defined

theorem kept_exit (kept : FiltersKept s) (none : ∀ t f rule, ¬ AwaitsFilter s t f rule) :
    FiltersKept s.exit := by
  refine ⟨kept.distinct, kept.armed, fun listening => ?_, fun _ n t f rule found defined => ?_⟩
  · cases listening
  · rw [none_counted (s := s) none found defined]
    exact Nat.zero_le _

theorem removeLoop_le (dep : TaskDep) (turns j : Nat) (deps : List TaskDep) :
    (removeLoop dep turns j deps).count dep ≤ deps.count dep := by
  induction turns generalizing j deps with
  | zero => exact Nat.le_refl _
  | succ turns ih =>
    rw [removeLoop]
    split_ifs
    · refine (ih (j + 1) _).trans ?_
      by_cases hit : deps[j]? = some dep
      · rw [← (removeAt_perm dep deps j hit).count_eq, count_cons_self]
        exact Nat.le_succ _
      · rw [removeAt, if_neg hit]
    · exact Nat.le_refl _

theorem removeLoop_lt (dep : TaskDep) (turns j k : Nat) (deps : List TaskDep) (ahead : j ≤ k)
    (there : deps[k]? = some dep) (enough : deps.length ≤ j + turns) :
    (removeLoop dep turns j deps).count dep < deps.count dep := by
  have inside := (List.getElem?_eq_some_iff.mp there).1
  induction turns generalizing j deps with
  | zero => omega
  | succ turns ih =>
    rw [removeLoop, if_pos (by omega)]
    by_cases hit : deps[j]? = some dep
    · refine Nat.lt_of_le_of_lt (removeLoop_le dep turns (j + 1) _) ?_
      rw [← (removeAt_perm dep deps j hit).count_eq, count_cons_self]
      exact Nat.lt_succ_self _
    · have apart : j ≠ k := fun same => hit (same ▸ there)
      rw [removeAt, if_neg hit]
      exact ih (j + 1) deps (by omega) there (by omega) inside

theorem removeDeps_count (dep : TaskDep) (deps : List TaskDep) :
    (removeDeps dep deps).count dep ≤ deps.count dep - 1 := by
  by_cases member : dep ∈ deps
  · obtain ⟨k, there⟩ := getElem?_of_mem member
    have less := removeLoop_lt dep deps.length 0 k deps (Nat.zero_le k) there (by omega)
    rw [removeDeps]
    omega
  · have zero := List.count_eq_zero.mpr member
    have bound := removeLoop_le dep deps.length 0 deps
    rw [removeDeps]
    omega

section
variable {defs : String → EnvSet} {started : Bool}

def WaitsWithin (defs : String → EnvSet) (E : String → String → List Char → Nat) (db : TaskDB) :
    Prop :=
  ∀ n t f rule, db.findTask n = some t → (defs n).get f.toList = some rule →
    t.deps.count (elosDep f) ≤ E n f rule

variable {E : String → String → List Char → Nat}

theorem WaitsWithin.mono {E' : String → String → List Char → Nat} {db : TaskDB}
    (within : WaitsWithin defs E db) (more : ∀ n f rule, E n f rule ≤ E' n f rule) :
    WaitsWithin defs E' db :=
  fun n t f rule found defined => (within n t f rule found defined).trans (more n f rule)

theorem fulfil_names (db : TaskDB) (dep : TaskDep) (n : String) :
    (db.fulfillDep dep (some n)).db.names = db.names :=
  updateFirst_names n (removeDepFromTaskStruct dep) (fun _ same => same) db.taskSet

/-- The event of a filter takes one dependency on it away from its task. -/
theorem fulfil_within {db : TaskDB} (task name : String) (within : WaitsWithin defs E db) :
    WaitsWithin defs (fun n f rule => E n f rule - if n = task ∧ f = name then 1 else 0)
      (db.fulfillDep (elosDep name) (some task)).db := by
  intro n t f rule found defined
  have find := update_find db task n (removeDepFromTaskStruct (elosDep name)) fun _ same => same
  rw [TaskDB.fulfillDep] at found
  rw [find] at found
  by_cases same : task = n
  · subst same
    rw [if_pos rfl] at found
    obtain ⟨u, before, rfl⟩ := Option.map_eq_some_iff.mp found
    have bound := within task u f rule before defined
    change (removeDeps (elosDep name) u.deps).count (elosDep f) ≤ _
    by_cases named : f = name
    · subst named
      have less := removeDeps_count (elosDep f) u.deps
      simp only [and_self, if_true]
      omega
    · have other : elosDep f ≠ elosDep name := fun equal => named (congrArg TaskDep.event equal)
      rw [removeDeps, removeLoop_count other]
      simpa [named] using bound
  · rw [if_neg same] at found
    have bound := within n t f rule found defined
    simpa [Ne.symm same] using bound

theorem covers_filters_cons (started : Bool) (n f : String) (rule : List Char) (ft : ListedTask)
    (x : TaskFilter) (xs : List TaskFilter) :
    { ft with filterList := x :: xs }.covers started n f rule =
      { ft with filterList := [x] }.covers started n f rule +
        { ft with filterList := xs }.covers started n f rule := by
  unfold ListedTask.covers
  split_ifs
  · rw [← singleton_append, countP_append]
  · rfl

theorem covers_single (started : Bool) {x : TaskFilter} {name : String}
    (named : x.name = some name) (ft : ListedTask) (n f : String) (rule : List Char) :
    { ft with filterList := [x] }.covers started n f rule ≤
      if n = ft.task ∧ f = name then 1 else 0 := by
  unfold ListedTask.covers
  by_cases mine : ft.task = n ∧ ft.dangling = false
  · by_cases same : f = name
    · rw [if_pos mine, if_pos ⟨mine.1.symm, same⟩]
      exact countP_le_length
    · have unlike : isGood started f rule x = false := by
        simp [isGood, named, Ne.symm same]
      simp [unlike]
  · rw [if_neg mine]
    exact Nat.zero_le _

theorem pollTask_within {ft : ListedTask} (xs : List TaskFilter) {db db' : TaskDB}
    {events rest : List Bool} {stay : List TaskFilter}
    (polled : pollTask ft xs db events = some (db', stay, rest)) (within : WaitsWithin defs
      (fun n f rule => E n f rule + { ft with filterList := xs }.covers started n f rule) db) :
    db'.names = db.names ∧ WaitsWithin defs
      (fun n f rule => E n f rule + { ft with filterList := stay }.covers started n f rule)
      db' := by
  induction xs generalizing db db' events rest stay E with
  | nil =>
    cases polled
    exact ⟨rfl, within⟩
  | cons x xs ih =>
    have whole : ∀ n f rule, E n f rule +
        { ft with filterList := x :: xs }.covers started n f rule =
          E n f rule + { ft with filterList := [x] }.covers started n f rule +
            { ft with filterList := xs }.covers started n f rule := by
      intro n f rule
      rw [covers_filters_cons, Nat.add_assoc]
    simp only [whole] at within
    rw [pollTask] at polled
    split_ifs at polled with event dangles
    · obtain ⟨name, named, polled⟩ := Option.bind_eq_some_iff.mp polled
      obtain ⟨⟨db₁, stay₁, rest₁⟩, later, result⟩ := Option.map_eq_some_iff.mp polled
      cases result
      have fulfilled := fulfil_within ft.task name within
      have names := fulfil_names db (elosDep name) ft.task
      by_cases rearm : rearmed (db.fulfillDep (elosDep name) (some ft.task)).db ft.task = true
      · obtain ⟨names', done⟩ := ih later (fulfilled.mono fun n f rule => Nat.sub_le _ _)
        refine ⟨names'.trans names, done.mono fun n f rule => ?_⟩
        have split := covers_filters_cons started n f rule ft x stay₁
        rw [if_pos rearm]
        dsimp only at split ⊢
        omega
      · have gone : ∀ n f rule, E n f rule + { ft with filterList := [x] }.covers started n f rule +
            { ft with filterList := xs }.covers started n f rule -
              (if n = ft.task ∧ f = name then 1 else 0) ≤
            E n f rule + { ft with filterList := xs }.covers started n f rule := by
          intro n f rule
          have single := covers_single started named ft n f rule
          omega
        obtain ⟨names', done⟩ := ih later (fulfilled.mono gone)
        rw [if_neg rearm]
        exact ⟨names'.trans names, done⟩
    · obtain ⟨⟨db₁, stay₁, rest₁⟩, later, result⟩ := Option.map_eq_some_iff.mp polled
      cases result
      obtain ⟨names, done⟩ := ih later within
      refine ⟨names, done.mono fun n f rule => ?_⟩
      have split := covers_filters_cons started n f rule ft x stay₁
      dsimp only at split ⊢
      omega

theorem pollAll_within (fts : List ListedTask) {db db' : TaskDB} {events : List Bool}
    {fts' : List ListedTask} (polled : pollAll fts db events = some (db', fts'))
    (within : WaitsWithin defs (fun n f rule => E n f rule + covers started n f rule fts) db) :
    db'.names = db.names ∧
      WaitsWithin defs (fun n f rule => E n f rule + covers started n f rule fts') db' := by
  induction fts generalizing db events fts' E with
  | nil =>
    cases polled
    exact ⟨rfl, within⟩
  | cons ft fts ih =>
    rw [pollAll] at polled
    obtain ⟨⟨db₁, stay, rest⟩, own, polled⟩ := Option.bind_eq_some_iff.mp polled
    obtain ⟨⟨db₂, fts₂⟩, later, result⟩ := Option.map_eq_some_iff.mp polled
    cases result
    have mine : WaitsWithin defs (fun n f rule => (E n f rule + covers started n f rule fts) +
        { ft with filterList := ft.filterList }.covers started n f rule) db := by
      refine within.mono fun n f rule => ?_
      rw [covers_cons]
      omega
    obtain ⟨names, done⟩ := pollTask_within ft.filterList own mine
    have others : WaitsWithin defs (fun n f rule => (E n f rule +
        { ft with filterList := stay }.covers started n f rule) + covers started n f rule fts)
        db₁ := by
      refine done.mono fun n f rule => ?_
      omega
    obtain ⟨names', all⟩ := ih later others
    refine ⟨names'.trans names, all.mono fun n f rule => ?_⟩
    rw [covers_cons]
    dsimp only
    omega

end

variable {s' : ElosDeps} {events : List Bool}

theorem kept_poll (kept : FiltersKept s) (started : s.elosStarted = true)
    (active : s.elosActivated = true) (polled : s.poll events = some s') : FiltersKept s' := by
  rw [ElosDeps.poll, if_pos active] at polled
  obtain ⟨⟨db, fts⟩, walked, rfl⟩ := Option.map_eq_some_iff.mp polled
  have within : WaitsWithin s.elosFilters
      (fun n f rule => 0 + covers s.elosStarted n f rule s.filterTasks) s.db := by
    intro n t f rule found defined
    have bound := kept.covered (kept.armed active) n t f rule found defined
    rwa [← Nat.zero_add (covers _ _ _ _ _)] at bound
  obtain ⟨names, done⟩ := pollAll_within s.filterTasks walked within
  refine ⟨?_, kept.armed, fun _ => ⟨started, active⟩, fun _ n t f rule found defined => ?_⟩
  · change db.names.Nodup
    rw [names]
    exact kept.distinct
  · have bound := done n t f rule found defined
    dsimp only at bound
    rwa [Nat.zero_add] at bound

theorem filterDeps_dep (started : Bool) (answers : Nat → RegisterAnswers) (deps : List TaskDep) :
    (filterDeps started answers deps).map FilterDep.dep = deps := by
  refine ext_getElem? fun i => ?_
  rw [filterDeps, getElem?_map, getElem?_mapIdx, Option.map_map]
  exact Option.map_id_fun' ▸ rfl

variable {answers : Nat → RegisterAnswers}

theorem filterDeps_started {started : Bool} {deps : List TaskDep} {e : FilterDep}
    (member : e ∈ filterDeps started answers deps) : e.answers.elosStarted = started := by
  obtain ⟨i, inside, rfl⟩ := List.mem_mapIdx.mp member
  rfl

variable {db : TaskDB} {overwrite : Bool} {env : InsertEnv}

theorem slotted_nodup {db₁ : TaskDB} (slotted : Slotted db t overwrite db₁)
    (distinct : db.names.Nodup) : db₁.names.Nodup := by
  cases slotted with
  | replaced =>
    rw [TaskDB.names, TaskDB.update, updateFirst_names _ _ (fun _ _ => rfl)]
    exact distinct
  | appended size absent =>
    rw [TaskDB.names, map_append, map_singleton, ← concat_eq_append]
    refine List.Nodup.concat (fun member => ?_) distinct
    obtain ⟨u, found⟩ := (find_isSome_iff db t.name).mpr member
    rw [absent] at found
    cases found

theorem added_covers {es : EnvSet} {deps : List FilterDep} {started : Bool}
    (trig : List FilterDep) (defined : es.get f.toList = some rule)
    (answered : ∀ e ∈ deps, e.answers.elosStarted = started)
    (registered : DefinedRegistered es false deps) :
    (deps.map FilterDep.dep).count (elosDep f) ≤ covers started n f rule
      (((elosdepTaskAdded es deps trig).2.map fun filters => ⟨n, filters, false⟩).toList) := by
  have own := newFilters_cover defined false deps answered registered
  have first := loop_done es deps (0, none)
  have second := loop_done es trig (registerLoop es deps (0, none))
  have filters : (elosdepTaskAdded es deps trig).2.getD [] =
      newFilters es false deps ++ newFilters es (listedAfter es false deps) trig := by
    rw [elosdepTaskAdded, second.filters, first.filters, first.listed]
    rfl
  have all : covers started n f rule
      (((elosdepTaskAdded es deps trig).2.map fun filters => ⟨n, filters, false⟩).toList) =
        ((elosdepTaskAdded es deps trig).2.getD []).countP (isGood started f rule) := by
    cases (elosdepTaskAdded es deps trig).2 with
    | none => rfl
    | some filters => simp [covers, ListedTask.covers]
  rw [all, filters, countP_append]
  omega

variable {moves : Bool}

theorem relocated_covers (still : (s.grows t && env.growOk && moves) = false) (started : Bool)
    (n f : String) (rule : List Char) :
    covers started n f rule (s.relocated t env moves) = covers started n f rule s.filterTasks := by
  have same : s.relocated t env moves = s.filterTasks := by
    simp [ElosDeps.relocated, still]
  rw [same]

theorem insert_placed (accepted : (db.insert t overwrite { env with hookOk := true }).ret = 0) :
    Placed db t overwrite env := by
  obtain ⟨db₁, -, result⟩ := insert_slotted accepted
  have copied : env.copies t = true := by
    rw [result] at accepted
    cases made : env.copies t with
    | true => rfl
    | false =>
      have failed := (copied_refused db₁ t { env with hookOk := true }).2 (by
        rw [show InsertEnv.copies { env with hookOk := true } t = false from made]
        rfl)
      rw [failed] at accepted
      cases accepted
  refine ⟨copied, fun some => ?_, fun absent full => ?_⟩
  · obtain ⟨old, found⟩ := Option.isSome_iff_exists.1 some
    cases keep : overwrite with
    | true => rfl
    | false => simp [TaskDB.insert, found, keep] at accepted
  · cases grows : env.growOk with
    | true => rfl
    | false => simp [TaskDB.insert, absent, full, grows] at accepted

/-- A task that keeps its place and its filters keeps them listed, unless the array moved. -/
theorem relocated_kept {u : Task} (kept : FiltersKept s) (armed : s.useElos = true)
    (intact : s.grows t = true → env.growOk = true → moves = true →
      ∀ u f rule, ¬ AwaitsFilter s u f rule)
    (found : s.db.findTask n = some u) (defined : (s.elosFilters n).get f.toList = some rule) :
    u.deps.count (elosDep f) ≤ covers s.elosStarted n f rule (s.relocated t env moves) := by
  cases moved : s.grows t && env.growOk && moves with
  | false =>
    rw [relocated_covers moved]
    exact kept.covered armed n u f rule found defined
  | true =>
    simp only [Bool.and_eq_true] at moved
    rw [none_counted (intact moved.1.1 moved.1.2 moved.2) found defined]
    exact Nat.zero_le _

theorem kept_refused {t : ElosTask} {r : Result} (kept : FiltersKept s)
    (intact : s.useElos = true → s.grows t.task = true → env.growOk = true → moves = true →
      ∀ u f rule, ¬ AwaitsFilter s u f rule)
    (result : s.db.insert t.task overwrite { env with hookOk := true } = r)
    (refused : r.ret = -1) :
    FiltersKept { s with
      db := r.db
      elosFilters := fun n =>
        if n = t.task.name ∧ r.db.corrupt = true then .empty else s.elosFilters n
      filterTasks := s.relocated t.task env moves } := by
  have find : r.db.names.Nodup ∧ ∀ n u, r.db.findTask n = some u →
      ¬(n = t.task.name ∧ r.db.corrupt = true) → s.db.findTask n = some u := by
    rcases insert_cases s.db t.task overwrite { env with hookOk := true } with
      same | ⟨db₁, slotted, copied⟩
    · rw [same] at result
      subst result
      exact ⟨kept.distinct, fun n u found _ => found⟩
    · rw [copied] at result
      subst result
      have failed := (copied_refused _ _ _).1 refused
      rw [Bool.and_true] at failed
      refine ⟨?_, fun n u found legible => ?_⟩
      · rw [TaskDB.names, copied_set]
        exact slotted_nodup slotted kept.distinct
      · rw [copied_corrupt, failed, Bool.false_and, Bool.not_false, Bool.or_true] at legible
        rw [findTask_congr (copied_set _ _ _), slotted_find slotted,
          if_neg fun same => legible ⟨same, rfl⟩] at found
        exact found
  refine ⟨find.1, kept.armed, kept.listens, fun armed n u f rule found defined => ?_⟩
  dsimp only at defined ⊢
  split_ifs at defined with lost
  · cases (EnvSet.empty_get f.toList).symm.trans defined
  · exact relocated_kept kept armed (intact armed) (find.2 n u found lost) defined

section Insertion

variable {t : ElosTask} (kept : FiltersKept s)
  (met : s.useElos = true →
    (Placed s.db t.task overwrite env →
      DefinedRegistered t.elosFilters false (filterDeps s.elosStarted answers t.task.deps)) ∧
    (s.grows t.task = true → env.growOk = true → moves = true →
      ∀ u f rule, ¬ AwaitsFilter s u f rule))
include kept met

theorem kept_accepted
    (accepted : (s.db.insert t.task overwrite { env with hookOk := true }).ret = 0) :
    FiltersKept { s with
      db := (s.db.insert t.task overwrite { env with hookOk := true }).db
      elosFilters := fun n => if n = t.task.name then t.elosFilters else s.elosFilters n
      filterTasks := s.relocated t.task env moves ++ s.hookEntry t answers } := by
  obtain ⟨db₁, slotted, result⟩ := insert_slotted accepted
  refine ⟨?_, kept.armed, kept.listens, fun armed n u f rule found defined => ?_⟩
  · rw [result, TaskDB.names, copied_set]
    exact slotted_nodup slotted kept.distinct
  · rw [result, findTask_congr (copied_set _ _ _), slotted_find slotted] at found
    dsimp only at defined ⊢
    rw [covers_append]
    by_cases mine : n = t.task.name
    · rw [if_pos mine] at found defined
      obtain rfl := Option.some.inj found
      have own := added_covers (n := t.task.name) (filterDeps s.elosStarted
        (fun i => answers (t.task.deps.length + i)) t.task.trig) defined
        (fun e member => filterDeps_started member) ((met armed).1 (insert_placed accepted))
      rw [filterDeps_dep] at own
      rw [mine, ElosDeps.hookEntry, if_pos armed]
      exact own.trans (Nat.le_add_left _ _)
    · rw [if_neg mine] at found defined
      exact (relocated_kept kept armed (met armed).2 found defined).trans (Nat.le_add_right _ _)

theorem kept_insert (inserted : s.insert t overwrite env moves answers = some s') :
    FiltersKept s' := by
  unfold ElosDeps.insert at inserted
  split_ifs at inserted with corrupt
  dsimp only at inserted
  by_cases refused : (s.db.insert t.task overwrite { env with hookOk := true }).ret = -1
  · rw [if_pos refused] at inserted
    rw [← Option.some.inj inserted]
    exact kept_refused kept (fun armed => (met armed).2) rfl refused
  · rw [if_neg refused] at inserted
    rw [← Option.some.inj inserted]
    exact kept_accepted kept met ((insert_ret _ _ _ _).resolve_right refused)

end Insertion

theorem kept_boot (useElos : Bool) : FiltersKept { useElos := useElos } := by
  refine ⟨nodup_nil, nofun, nofun, fun _ n t f rule found => ?_⟩
  cases found

theorem subscribeAll_covers (started : Bool) (n f : String) (rule : List Char)
    (fts : List ListedTask) :
    covers started n f rule fts ≤ covers true n f rule (fts.map ListedTask.subscribeAll) := by
  induction fts with
  | nil => exact Nat.le_refl 0
  | cons ft fts ih =>
    have here : ft.covers started n f rule ≤ ft.subscribeAll.covers true n f rule := by
      unfold ListedTask.covers
      by_cases mine : ft.task = n ∧ ft.dangling = false
      · have still : ft.subscribeAll.task = n ∧ ft.subscribeAll.dangling = false := mine
        rw [if_pos mine, if_pos still, ListedTask.subscribeAll, countP_map]
        refine countP_mono_left fun x _ good => ?_
        simp only [isGood, Bool.and_eq_true] at good
        simp only [Function.comp, isGood, good.1.1, good.1.2, Bool.or_true, Bool.and_self]
      · rw [if_neg mine]
        exact Nat.zero_le _
    rw [map_cons, covers_cons, covers_cons]
    omega

variable {turn : ElosTurn}

theorem kept_listen (kept : FiltersKept s)
    (met : turn.connects s.filterTasks = false → ∀ u f rule, ¬ AwaitsFilter s u f rule)
    (active : s.elosActivated = true) (listens : s.listen turn = some s') : FiltersKept s' := by
  unfold ElosDeps.listen at listens
  split_ifs at listens with connects
  · refine kept_poll (s := { s with
      elosStarted := true
      filterTasks := s.filterTasks.map ListedTask.subscribeAll }) ?_ rfl active listens
    refine ⟨kept.distinct, kept.armed, fun _ => ⟨rfl, active⟩,
      fun armed n t f rule found defined => ?_⟩
    exact (kept.covered armed n t f rule found defined).trans (subscribeAll_covers _ n f rule _)
  · obtain rfl := Option.some.inj listens
    exact kept_exit kept (met (Bool.eq_false_iff.mpr connects))

theorem kept_deactivate (kept : FiltersKept s)
    (met : s.listening = true → ∀ u f rule, ¬ AwaitsFilter s u f rule)
    (stepped : (if s.listening then ElosDeps.poll { s with elosActivated := false } events
      else some { s with elosActivated := false }) = some s') : FiltersKept s' := by
  have switched : FiltersKept { s with elosActivated := false, listening := false } :=
    ⟨kept.distinct, nofun, nofun, kept.covered⟩
  split_ifs at stepped with listening
  · -- the listener finds the flag cleared and ends
    obtain rfl : ElosDeps.exit { s with elosActivated := false, listening := false } = s' :=
      Option.some.inj stepped
    exact kept_exit switched fun u f rule out =>
      met listening u f rule ⟨out.inDb, out.waits, out.defined⟩
  · obtain rfl := Option.some.inj stepped
    exact ⟨kept.distinct, nofun, fun listens => absurd listens listening, kept.covered⟩

theorem kept_activate (kept : FiltersKept s) (armed : s.useElos = true)
    (active : s.elosActivated = false)
    (met : turn.connects s.filterTasks = false → ∀ u f rule, ¬ AwaitsFilter s u f rule)
    (stepped : ElosDeps.listen { s with elosActivated := true } turn = some s') :
    FiltersKept s' := by
  have idle : s.listening = true → False := fun listens => by
    have still := (kept.listens listens).2
    rw [active] at still
    cases still
  have switched : FiltersKept { s with elosActivated := true } :=
    ⟨kept.distinct, fun _ => armed, fun listens => (idle listens).elim, kept.covered⟩
  exact kept_listen switched
    (fun fails u f rule out => met fails u f rule ⟨out.inDb, out.waits, out.defined⟩) rfl stepped

theorem kept_resumed (kept : FiltersKept s)
    (stepped : (if s.listening then s.poll events else some s) = some s') : FiltersKept s' := by
  split_ifs at stepped with listening
  · obtain ⟨started, active⟩ := kept.listens listening
    exact kept_poll kept started active stepped
  · obtain rfl := Option.some.inj stepped
    exact kept

theorem kept_step (kept : FiltersKept s) (met : KeepsFilters s turn)
    (stepped : s.step turn = some s') : FiltersKept s' := by
  unfold ElosDeps.step at stepped
  unfold KeepsFilters at met
  cases called : turn.call with
  | insert t overwrite env moves answers =>
    rw [called] at stepped met
    obtain ⟨s₁, inserted, stepped⟩ := Option.bind_eq_some_iff.mp stepped
    exact kept_resumed (kept_insert kept met inserted) stepped
  | activate e =>
    rw [called] at stepped met
    dsimp only at stepped met
    by_cases off : s.useElos = false
    · rw [if_pos off] at stepped
      obtain rfl := Option.some.inj stepped
      exact kept
    rw [if_neg off] at stepped
    have armed : s.useElos = true := Bool.not_eq_false _ ▸ off
    cases e with
    | false =>
      rw [if_neg (by simp)] at stepped
      exact kept_deactivate kept (fun listening => met (.inl ⟨rfl, listening⟩)) stepped
    | true =>
      cases active : s.elosActivated with
      | false =>
        rw [active, if_pos (by decide)] at stepped
        exact kept_activate kept armed active (fun fails => met (.inr ⟨rfl, active, fails⟩)) stepped
      | true =>
        have same : { s with elosActivated := true } = s := by rw [← active]
        rw [active, if_neg (by simp)] at stepped
        simp only [same] at stepped
        exact kept_resumed kept stepped

/-- While every insertion registers what it defines and leaves the pointers of tasks that wait
intact, and the listener ends only when no task waits, each task that waits for a filter it defines
has that filter registered and subscribed. -/
theorem filters_survive (useElos : Bool) (turns : List ElosTurn) (s : ElosDeps)
    (run : ElosRun KeepsFilters useElos turns s) : FiltersLive s := by
  have kept : FiltersKept s := by
    induction run with
    | boot => exact kept_boot useElos
    | next turn _ met stepped ih => exact kept_step ih met stepped
  exact kept.live

def sshTurn : ElosTurn where
  call := .insert ⟨{ name := "backup", deps := [elosDep "sshd"] }, sshdFilters⟩ false {} false
    fun _ => {}

def switchTurn (e : Bool) (events : List Bool) : ElosTurn :=
  { call := .activate e, events := events }

def ElosDeps.behind (s : ElosDeps) (turn : ElosTurn) : ElosDeps := (s.step turn).getD s

theorem ElosRun.on {guard : ElosDeps → ElosTurn → Prop} {useElos : Bool} {turns : List ElosTurn}
    (run : ElosRun guard useElos turns s) (turn : ElosTurn) (met : guard s turn)
    (defined : (s.step turn).isSome = true) :
    ElosRun guard useElos (turns ++ [turn]) (s.behind turn) := by
  refine .next turn run met ?_
  obtain ⟨s', stepped⟩ := Option.isSome_iff_exists.mp defined
  rw [ElosDeps.behind, stepped]
  rfl

def sshInserted : ElosDeps := ElosDeps.behind {} sshTurn

def sshFulfilled : ElosDeps := sshInserted.behind (switchTurn true [true])

def sshIdle : ElosDeps := sshFulfilled.behind (switchTurn false [])

theorem switch_on_meets : KeepsFilters s (switchTurn true events) := by
  rintro (⟨off, _⟩ | ⟨_, _, fails⟩)
  · cases off
  · cases fails

theorem switch_off_meets (free : ∀ t ∈ s.db.taskSet, t.deps = []) :
    KeepsFilters s (switchTurn false events) := by
  intro _ u f rule out
  have waits := out.waits
  rw [free u out.inDb] at waits
  cases waits

/-- The event of the filter comes before the feature is switched off and on again. -/
theorem fulfilled_before_switch :
    ElosRun KeepsFilters true
        [sshTurn, switchTurn true [true], switchTurn false [], switchTurn true []]
        (sshIdle.behind (switchTurn true [])) ∧
      FiltersLive (sshIdle.behind (switchTurn true [])) := by
  have inserted : ElosRun KeepsFilters true [sshTurn] sshInserted := by
    refine ElosRun.on .boot sshTurn (fun _ => ⟨fun _ => by decide, fun grows => ?_⟩) (by decide)
    exact absurd grows (by decide)
  have run := ((inserted.on (switchTurn true [true]) switch_on_meets (by decide)).on
    (switchTurn false []) (switch_off_meets (by decide)) (by decide)).on
    (switchTurn true []) switch_on_meets (by decide)
  exact ⟨run, filters_survive true _ _ run⟩

/-- The feature is switched off and on again while the task waits. -/
theorem filter_lost :
    ∃ s, ElosRun (fun _ _ => True) true
        [sshTurn, switchTurn true [], switchTurn false [], switchTurn true []] s ∧
      s.elosActivated = true ∧ s.listening = true ∧ s.filterTasks = [] ∧ ¬ FiltersLive s := by
  have inserted : ElosRun (fun _ _ => True) true [sshTurn] sshInserted :=
    ElosRun.on .boot sshTurn trivial (by decide)
  have run := ((inserted.on (switchTurn true []) trivial (by decide)).on (switchTurn false [])
    trivial (by decide)).on (switchTurn true []) trivial (by decide)
  refine ⟨_, run, by decide, by decide, by decide, fun live => ?_⟩
  obtain ⟨ft, member, _⟩ := live (by decide) (by decide)
    { name := "backup", deps := [elosDep "sshd"] } "sshd" "1 1 EQ".toList
    ⟨by decide, by decide, by decide⟩
  cases member

end Crinit
