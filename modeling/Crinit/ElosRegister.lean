import Mathlib.Data.List.Forall2
import Crinit.ElosFilters

/-! The registration of the elos filters of a task, with every allocation and subscription it can
fail at (`crinitElosdepTaskAdded`). -/
namespace Crinit

open List

/-- `crinitElosdepFilter_t`. The copies of the name and of the rule are not checked, so each may be
NULL. -/
structure TaskFilter where
  name : Option String
  filter : Option (List Char)
  subscribed : Bool := false
  deriving DecidableEq

structure RegisterAnswers where
  filterTaskOk : Bool := true
  filterOk : Bool := true
  nameOk : Bool := true
  ruleOk : Bool := true
  elosStarted : Bool := false
  subscribe : Int := 0
  deriving DecidableEq

structure FilterDep where
  dep : TaskDep
  answers : RegisterAnswers := {}
  deriving DecidableEq

def FilterDep.elos (e : FilterDep) : Bool := isElos e.dep

def elosdepFilterFromEnvSet (es : EnvSet) (e : FilterDep) : Option TaskFilter :=
  (es.get e.dep.event.toList).bind fun rule =>
    if e.answers.filterOk then
      some { name := if e.answers.nameOk then some e.dep.event else none
             filter := if e.answers.ruleOk then some rule else none }
    else none

/-- The second result is `filterTask`: NULL, or in `crinitFilterTasks` with these filters. -/
def elosdepRegisterFilterDep (es : EnvSet) (e : FilterDep) (filterTask : Option (List TaskFilter)) :
    Int × Option (List TaskFilter) :=
  if e.dep.name ≠ elosDepName then (0, filterTask)
  else if filterTask = none ∧ e.answers.filterTaskOk = false then (-1, none)
  else
    let filters := filterTask.getD []
    match elosdepFilterFromEnvSet es e with
    | none => (-1, some filters)
    | some filter =>
      if e.answers.elosStarted then
        if e.answers.subscribe ≠ 0 then (e.answers.subscribe, some (filters ++ [filter]))
        else (0, some (filters ++ [{ filter with subscribed := true }]))
      else (0, some (filters ++ [filter]))

def registerLoop (es : EnvSet) : List FilterDep → Int × Option (List TaskFilter) →
    Int × Option (List TaskFilter)
  | [], r => r
  | e :: rest, r =>
    let r' := elosdepRegisterFilterDep es e r.2
    if r'.1 ≠ 0 then r' else registerLoop es rest r'

def elosdepTaskAdded (es : EnvSet) (deps trig : List FilterDep) : Int × Option (List TaskFilter) :=
  registerLoop es trig (registerLoop es deps (0, none))

def IsFilterOf (es : EnvSet) (e : FilterDep) (f : TaskFilter) : Prop :=
  f.name = some e.dep.event ∧ f.filter ≠ none ∧ f.filter = es.get e.dep.event.toList

def AllRegistered (es : EnvSet) (entries : List FilterDep) (filters : List TaskFilter) : Prop :=
  List.Forall₂ (IsFilterOf es) (entries.filter FilterDep.elos) filters

def GetsFilter (es : EnvSet) (listed : Bool) (e : FilterDep) : Prop :=
  (listed = true ∨ e.answers.filterTaskOk = true) ∧
    (es.get e.dep.event.toList).isSome = true ∧ e.answers.filterOk = true

def Passes (es : EnvSet) (listed : Bool) (e : FilterDep) : Prop :=
  e.elos = true → GetsFilter es listed e ∧ (e.answers.elosStarted = true → e.answers.subscribe = 0)

def CopiesMade (e : FilterDep) : Prop := e.answers.nameOk = true ∧ e.answers.ruleOk = true

instance (es : EnvSet) (listed : Bool) (e : FilterDep) : Decidable (GetsFilter es listed e) :=
  inferInstanceAs (Decidable (_ ∧ _))

instance (es : EnvSet) (listed : Bool) (e : FilterDep) : Decidable (Passes es listed e) :=
  inferInstanceAs (Decidable (_ → _))

instance (e : FilterDep) : Decidable (CopiesMade e) := inferInstanceAs (Decidable (_ ∧ _))

def listedBehind (listed : Bool) (e : FilterDep) : Bool :=
  listed || (e.elos && e.answers.filterTaskOk)

def AllPass (es : EnvSet) : Bool → List FilterDep → Prop
  | _, [] => True
  | listed, e :: rest => Passes es listed e ∧ AllPass es (listedBehind listed e) rest

/-- Every elos entry gets its filter. Only the subscription of the last one may fail. -/
def AllGetFilters (es : EnvSet) : Bool → List FilterDep → Prop
  | _, [] => True
  | listed, e :: rest =>
    (e.elos = true → GetsFilter es listed e ∧ CopiesMade e) ∧
      if Passes es listed e then AllGetFilters es (listedBehind listed e) rest
      else rest.filter FilterDep.elos = []

def listedAfter (es : EnvSet) : Bool → List FilterDep → Bool
  | listed, [] => listed
  | listed, e :: rest =>
    if Passes es listed e then listedAfter es (listedBehind listed e) rest
    else listedBehind listed e

instance decidableAllPass (es : EnvSet) : ∀ listed entries, Decidable (AllPass es listed entries)
  | _, [] => isTrue trivial
  | listed, e :: rest =>
    have := decidableAllPass es (listedBehind listed e) rest
    inferInstanceAs (Decidable (_ ∧ _))

instance decidableAllGetFilters (es : EnvSet) :
    ∀ listed entries, Decidable (AllGetFilters es listed entries)
  | _, [] => isTrue trivial
  | listed, e :: rest =>
    have := decidableAllGetFilters es (listedBehind listed e) rest
    inferInstanceAs (Decidable (_ ∧ _))

def LastLoopPasses (es : EnvSet) (deps trig : List FilterDep) : Prop :=
  if trig = [] then AllPass es false deps else AllPass es (listedAfter es false deps) trig

instance (es : EnvSet) (deps trig : List FilterDep) : Decidable (LastLoopPasses es deps trig) :=
  inferInstanceAs (Decidable (if trig = [] then AllPass es false deps
    else AllPass es (listedAfter es false deps) trig))

section
variable {es : EnvSet} {e : FilterDep} {filterTask : Option (List TaskFilter)}

def ownFilter (es : EnvSet) (listed : Bool) (e : FilterDep) : List TaskFilter :=
  if e.elos = true ∧ GetsFilter es listed e then
    [{ name := if e.answers.nameOk then some e.dep.event else none
       filter := if e.answers.ruleOk then es.get e.dep.event.toList else none
       subscribed := e.answers.elosStarted && e.answers.subscribe = 0 }]
  else []

structure EntryDone (es : EnvSet) (e : FilterDep) (filterTask : Option (List TaskFilter))
    (r : Int × Option (List TaskFilter)) : Prop where
  passes : r.1 = 0 ↔ Passes es filterTask.isSome e
  filters : r.2.getD [] = filterTask.getD [] ++ ownFilter es filterTask.isSome e
  listed : r.2.isSome = listedBehind filterTask.isSome e

theorem elos_iff (e : FilterDep) : e.elos = true ↔ e.dep.name = elosDepName := beq_iff_eq

theorem filterFromEnvSet_eq (es : EnvSet) (e : FilterDep) :
    elosdepFilterFromEnvSet es e =
      if (es.get e.dep.event.toList).isSome = true ∧ e.answers.filterOk = true then
        some { name := if e.answers.nameOk then some e.dep.event else none
               filter := if e.answers.ruleOk then es.get e.dep.event.toList else none }
      else none := by
  unfold elosdepFilterFromEnvSet
  cases es.get e.dep.event.toList with
  | none => rfl
  | some rule => simp

theorem entry_done (es : EnvSet) (e : FilterDep) (filterTask : Option (List TaskFilter)) :
    EntryDone es e filterTask (elosdepRegisterFilterDep es e filterTask) := by
  unfold elosdepRegisterFilterDep
  by_cases named : e.dep.name = elosDepName
  · have elos : e.elos = true := (elos_iff e).mpr named
    rw [if_neg (not_not_intro named)]
    by_cases unlisted : filterTask = none ∧ e.answers.filterTaskOk = false
    · rw [if_pos unlisted]
      obtain ⟨rfl, full⟩ := unlisted
      have left : ¬ GetsFilter es false e := by simp [GetsFilter, full]
      exact ⟨by simp [Passes, elos, left], by simp [ownFilter, left], by simp [listedBehind, full]⟩
    · rw [if_neg unlisted]
      have inList : filterTask.isSome = true ∨ e.answers.filterTaskOk = true := by
        cases filterTask with
        | some filters => exact .inl rfl
        | none => exact .inr (by simpa using unlisted)
      have listed : listedBehind filterTask.isSome e = true := by
        simpa [listedBehind, elos] using inList
      rw [filterFromEnvSet_eq]
      by_cases made : (es.get e.dep.event.toList).isSome = true ∧ e.answers.filterOk = true
      · have gets : GetsFilter es filterTask.isSome e := ⟨inList, made⟩
        rw [if_pos made]
        cases started : e.answers.elosStarted with
        | false =>
          exact ⟨by simp [Passes, gets, started], by simp [ownFilter, elos, gets, started],
            by simp [listed]⟩
        | true =>
          by_cases taken : e.answers.subscribe = 0
          · exact ⟨by simp [Passes, gets, taken], by simp [ownFilter, elos, gets, started, taken],
              by simp [listed, taken]⟩
          · exact ⟨by simp [Passes, elos, started, taken],
              by simp [ownFilter, elos, gets, started, taken], by simp [listed, taken]⟩
      · have left : ¬ GetsFilter es filterTask.isSome e := fun gets => made gets.2
        rw [if_neg made]
        exact ⟨by simp [Passes, elos, left], by simp [ownFilter, left], by simp [listed]⟩
  · have plain : e.elos = false := Bool.eq_false_iff.mpr fun elos => named ((elos_iff e).mp elos)
    rw [if_pos named]
    exact ⟨by simp [Passes, plain], by simp [ownFilter, plain], by simp [listedBehind, plain]⟩

def newFilters (es : EnvSet) : Bool → List FilterDep → List TaskFilter
  | _, [] => []
  | listed, e :: rest =>
    ownFilter es listed e ++
      if Passes es listed e then newFilters es (listedBehind listed e) rest else []

structure LoopDone (es : EnvSet) (entries : List FilterDep)
    (before r : Int × Option (List TaskFilter)) : Prop where
  passes : r.1 = 0 ↔ if entries = [] then before.1 = 0 else AllPass es before.2.isSome entries
  filters : r.2.getD [] = before.2.getD [] ++ newFilters es before.2.isSome entries
  listed : r.2.isSome = listedAfter es before.2.isSome entries

theorem loop_done (es : EnvSet) (entries : List FilterDep)
    (before : Int × Option (List TaskFilter)) :
    LoopDone es entries before (registerLoop es entries before) := by
  induction entries generalizing before with
  | nil => exact ⟨by simp [registerLoop], by simp [registerLoop, newFilters], rfl⟩
  | cons e rest ih =>
    have entry := entry_done es e before.2
    simp only [registerLoop]
    generalize elosdepRegisterFilterDep es e before.2 = r at entry
    by_cases passes : Passes es before.2.isSome e
    · have zero : r.1 = 0 := entry.passes.mpr passes
      have behind := ih r
      rw [if_neg (not_not_intro zero)]
      refine ⟨?_, ?_, ?_⟩
      · rw [behind.passes, if_neg (cons_ne_nil e rest), entry.listed]
        simp only [AllPass, passes, true_and]
        split_ifs with none
        · simp [none, zero, AllPass]
        · rfl
      · rw [behind.filters, entry.filters, entry.listed]
        simp [newFilters, passes]
      · rw [behind.listed, entry.listed]
        simp [listedAfter, passes]
    · have failed : r.1 ≠ 0 := fun zero => passes (entry.passes.mp zero)
      rw [if_pos failed]
      refine ⟨?_, ?_, ?_⟩
      · simp [failed, AllPass, passes]
      · rw [entry.filters]
        simp [newFilters, passes]
      · rw [entry.listed]
        simp [listedAfter, passes]

theorem newFilters_length (es : EnvSet) (listed : Bool) (entries : List FilterDep) :
    (newFilters es listed entries).length ≤ (entries.filter FilterDep.elos).length := by
  induction entries generalizing listed with
  | nil => exact Nat.le_refl 0
  | cons e rest ih =>
    have more := ih (listedBehind listed e)
    unfold newFilters ownFilter
    cases elos : e.elos with
    | false =>
      rw [filter_cons_of_neg (by simp [elos])]
      split_ifs <;> simp_all
    | true =>
      rw [filter_cons_of_pos elos]
      split_ifs <;> simp <;> omega

theorem isFilterOf_iff (defined : (es.get e.dep.event.toList).isSome = true) (subscribed : Bool) :
    IsFilterOf es e
      { name := if e.answers.nameOk then some e.dep.event else none
        filter := if e.answers.ruleOk then es.get e.dep.event.toList else none
        subscribed := subscribed } ↔ CopiesMade e := by
  obtain ⟨rule, found⟩ := Option.isSome_iff_exists.mp defined
  simp only [IsFilterOf, CopiesMade, found]
  cases e.answers.nameOk <;> cases e.answers.ruleOk <;> simp

theorem newFilters_registered (es : EnvSet) (listed : Bool) (entries : List FilterDep) :
    AllRegistered es entries (newFilters es listed entries) ↔ AllGetFilters es listed entries := by
  induction entries generalizing listed with
  | nil => simp [AllRegistered, newFilters, AllGetFilters]
  | cons e rest ih =>
    have more := ih (listedBehind listed e)
    unfold AllRegistered at more ⊢
    unfold newFilters ownFilter AllGetFilters
    cases elos : e.elos with
    | false =>
      have passes : Passes es listed e := by simp [Passes, elos]
      rw [filter_cons_of_neg (by simp [elos])]
      simpa [passes] using more
    | true =>
      rw [filter_cons_of_pos elos]
      by_cases gets : GetsFilter es listed e
      · have own := isFilterOf_iff gets.2.1 (e.answers.elosStarted && e.answers.subscribe = 0)
        rw [if_pos ⟨rfl, gets⟩, singleton_append, List.forall₂_cons, own]
        by_cases passes : Passes es listed e
        · simp [passes, gets, more]
        · simp [passes, gets]
      · have stops : ¬ Passes es listed e := fun passes => gets (passes elos).1
        simp [gets, stops]

/-- The filters of the two loops are those of all entries only if each loop has those of its own. -/
theorem forall₂_parts {α β : Type} {R : α → β → Prop} {as as' : List α} {bs bs' : List β}
    (short : bs.length ≤ as.length) (short' : bs'.length ≤ as'.length) :
    List.Forall₂ R (as ++ as') (bs ++ bs') ↔ List.Forall₂ R as bs ∧ List.Forall₂ R as' bs' := by
  constructor
  · intro all
    have length := all.length_eq
    simp only [length_append] at length
    have same : as.length = bs.length := by omega
    refine ⟨?_, ?_⟩
    · have first := List.forall₂_take as.length all
      rwa [take_left, same, take_left] at first
    · have second := List.forall₂_drop as.length all
      rwa [drop_left, same, drop_left] at second
  · rintro ⟨first, second⟩
    exact rel_append first second

end

theorem taskAdded_zero (es : EnvSet) (deps trig : List FilterDep) :
    (elosdepTaskAdded es deps trig).1 = 0 ↔ LastLoopPasses es deps trig := by
  have first := loop_done es deps (0, none)
  have second := loop_done es trig (registerLoop es deps (0, none))
  rw [elosdepTaskAdded, second.passes, LastLoopPasses, first.passes, first.listed]
  split_ifs with none none'
  · simp [none', AllPass]
  · rfl
  · rfl

theorem taskAdded_filters (es : EnvSet) (deps trig : List FilterDep) :
    AllRegistered es (deps ++ trig) ((elosdepTaskAdded es deps trig).2.getD []) ↔
      AllGetFilters es false deps ∧ AllGetFilters es (listedAfter es false deps) trig := by
  have first := loop_done es deps (0, none)
  have second := loop_done es trig (registerLoop es deps (0, none))
  rw [elosdepTaskAdded, second.filters, first.filters, first.listed, AllRegistered, filter_append]
  refine (forall₂_parts (newFilters_length es _ deps) (newFilters_length es _ trig)).trans ?_
  exact and_congr (newFilters_registered es _ deps) (newFilters_registered es _ trig)

/-- A call that returns 0 has registered every elos entry exactly if, whenever the loop that runs
last goes through, every entry of both loops has got its filter. -/
theorem all_or_error_iff (es : EnvSet) (deps trig : List FilterDep) :
    ((elosdepTaskAdded es deps trig).1 = 0 →
      AllRegistered es (deps ++ trig) ((elosdepTaskAdded es deps trig).2.getD [])) ↔
    (LastLoopPasses es deps trig →
      AllGetFilters es false deps ∧ AllGetFilters es (listedAfter es false deps) trig) := by
  rw [taskAdded_zero, taskAdded_filters]

def sshdFilters : EnvSet where
  envp := ["sshd=1 1 EQ".toList]
  allocSz := 8
  strings := List.forall_mem_singleton.mpr (by decide)

def nfsDep : FilterDep := { dep := ⟨"@elos", "nfs"⟩ }

def ctlTrigger : FilterDep := { dep := ⟨"@ctl", "enable"⟩ }

/-- The filter of the dependency is not defined. The trigger is none of elos, and the loop over the
triggers takes its result over the error of the first loop. -/
theorem missing_filter_accepted :
    (elosdepTaskAdded sshdFilters [nfsDep] [ctlTrigger]).1 = 0 ∧
      ¬ AllRegistered sshdFilters ([nfsDep] ++ [ctlTrigger])
        ((elosdepTaskAdded sshdFilters [nfsDep] [ctlTrigger]).2.getD []) := by
  refine ⟨by decide, ?_⟩
  rw [taskAdded_filters]
  decide

end Crinit
