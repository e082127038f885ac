import Crinit.EnvSet
import Crinit.TimerAdd
import Crinit.Lib.Interleave

/-! The elos filters of `elosdep.c`: the insertion of tasks, which registers their filters with the
lock of the TaskDB held, and the listener, which fulfils dependencies with
`crinitElosdepFilterTaskLock` held. -/
namespace Crinit

open Interleave List

/-! ### The two locks and what they guard -/

/-- A task with its filter definitions, which the record of the TaskDB leaves out. -/
structure ElosTask where
  task : Task
  elosFilters : EnvSet

structure ElosFilter where
  name : String
  filter : List Char

structure FilterTask where
  task : String
  filterList : List ElosFilter

structure Elos where
  db : TaskDB
  useElos : Bool
  dbLocked : Bool := false
  filterTasks : List FilterTask := []
  filterTaskLocked : Bool := false
  elosActivated : Bool := false
  elosStarted : Bool := false

/-- The pointer `filterTask` of `crinitElosdepTaskAdded`: still NULL, allocated and
waiting for `crinitElosdepFilterTaskLock`, or in the list. -/
inductive FilterTaskRef where
  | null
  | locking
  | listed (i : Nat)
  deriving DecidableEq

structure Registration where
  task : ElosTask
  deps : List TaskDep
  trig : List TaskDep
  filterTask : FilterTaskRef := .null
  res : Int := 0

inductive ListenerAt where
  | version
  | subscribe
  | checkActivated
  | lock
  | reading (i j : Nat)
  | fulfilling (i j : Nat)
  | fulfilled (i j : Nat)
  | clear
  | ended
  deriving DecidableEq

/-- `other` is any other caller of the TaskDB, with the operations it has yet to make. -/
inductive ElosThread where
  | insert (task : ElosTask) (overwrite : Bool)
  | hook (r : Registration)
  | returned (ret : Int)
  | activate (e : Bool)
  | listener (place : ListenerAt)
  | other (ops : List (TaskDB → TaskDB))

structure ElosAnswers where
  env : InsertEnv := {}
  ok : Bool := true
  subscribed : Int := 0
  event : Bool := false

def Registration.dep? (r : Registration) : Option TaskDep := (r.deps ++ r.trig).head?

def Registration.behind (r : Registration) (res : Int) : Registration :=
  match r.deps with
  | _ :: ds => { r with deps := ds, res := res }
  | [] => { r with trig := r.trig.tail, res := res }

/-- The loop over the triggers still follows that over the dependencies. -/
def Registration.broken (r : Registration) (res : Int) : Registration :=
  match r.deps with
  | _ :: _ => { r with deps := [], res := res }
  | [] => { r with trig := [], res := res }

def addFilter (filterTasks : List FilterTask) (i : Nat) (filter : ElosFilter) : List FilterTask :=
  filterTasks.modify i fun ft => { ft with filterList := ft.filterList ++ [filter] }

def dropFilter (filterTasks : List FilterTask) (i j : Nat) : List FilterTask :=
  filterTasks.modify i fun ft => { ft with filterList := ft.filterList.eraseIdx j }

def registerFilterDep (s : Elos) (r : Registration) (dep : TaskDep) (o : ElosAnswers) :
    Option (Move Elos ElosThread Unit) :=
  if dep.name ≠ elosDepName then some ⟨(), s, .hook (r.behind 0), []⟩
  else match r.filterTask with
    | .null =>
      if o.ok then some ⟨(), s, .hook { r with filterTask := .locking }, []⟩
      else some ⟨(), s, .hook (r.broken (-1)), []⟩
    | .locking =>
      if s.filterTaskLocked then none
      else
        let entry := { task := r.task.task.name, filterList := [] }
        some ⟨(), { s with filterTasks := s.filterTasks ++ [entry] },
          .hook { r with filterTask := .listed s.filterTasks.length }, []⟩
    | .listed i =>
      -- a list that was cleared in the meantime has freed the entry
      if s.filterTasks.length ≤ i then none
      else match r.task.elosFilters.get dep.event.toList with
        | none => some ⟨(), s, .hook (r.broken (-1)), []⟩
        | some filter =>
          if o.ok = false then some ⟨(), s, .hook (r.broken (-1)), []⟩
          else
            let s' := { s with filterTasks := addFilter s.filterTasks i ⟨dep.event, filter⟩ }
            if s.elosStarted ∧ o.subscribed ≠ 0 then
              some ⟨(), s', .hook (r.broken o.subscribed), []⟩
            else some ⟨(), s', .hook (r.behind 0), []⟩

def hookStep (s : Elos) (r : Registration) (o : ElosAnswers) : Option (Move Elos ElosThread Unit) :=
  match r.dep? with
  | some dep => registerFilterDep s r dep o
  | none => some ⟨(), { s with dbLocked := false }, .returned (if r.res = -1 then -1 else 0), []⟩

/-- `crinitTaskDBInsert` up to the hook: what is in the TaskDB, and whether the hook
of the elos dependencies runs. -/
def insertStep (s : Elos) (t : ElosTask) (overwrite : Bool) (o : ElosAnswers) :
    Option (Move Elos ElosThread Unit) :=
  if s.dbLocked ∨ s.db.corrupt then none
  else
    let r := s.db.insert t.task overwrite { o.env with hookOk := true }
    if r.ret = -1 ∨ o.ok = false then some ⟨(), { s with db := r.db }, .returned (-1), []⟩
    else if s.useElos = false then some ⟨(), { s with db := r.db }, .returned 0, []⟩
    else some ⟨(), { s with db := r.db, dbLocked := true },
      .hook ⟨t, t.task.deps, t.task.trig, .null, 0⟩, []⟩

def rearmed (db : TaskDB) (name : String) : Bool := (db.findTask name).any Task.triggerRearm

def listenerStep (s : Elos) (place : ListenerAt) (o : ElosAnswers) :
    Option (Move Elos ElosThread Unit) :=
  match place with
  | .version =>
    some ⟨(), { s with elosStarted := true }, .listener (if o.ok then .subscribe else .clear), []⟩
  | .subscribe =>
    if s.filterTaskLocked then none
    else some ⟨(), s, .listener (if o.ok then .checkActivated else .clear), []⟩
  | .checkActivated => some ⟨(), s, .listener (if s.elosActivated then .lock else .clear), []⟩
  | .lock =>
    if s.filterTaskLocked then none
    else some ⟨(), { s with filterTaskLocked := true }, .listener (.reading 0 0), []⟩
  | .reading i j =>
    match s.filterTasks[i]? with
    | none =>
      some ⟨(), { s with filterTaskLocked := false },
        .listener (if o.ok then .checkActivated else .clear), []⟩
    | some ft =>
      if ft.filterList.length ≤ j then some ⟨(), s, .listener (.reading (i + 1) 0), []⟩
      else if o.event then some ⟨(), s, .listener (.fulfilling i j), []⟩
      else some ⟨(), s, .listener (.reading i (j + 1)), []⟩
  | .fulfilling i j =>
    if s.dbLocked then none
    else match s.filterTasks[i]? with
      | none => none
      | some ft => (ft.filterList[j]?).map fun filter =>
        ⟨(), { s with db := (s.db.fulfillDep ⟨elosDepName, filter.name⟩ (some ft.task)).db },
          .listener (.fulfilled i j), []⟩
  | .fulfilled i j =>
    match s.filterTasks[i]? with
    | none => none
    | some ft =>
      if rearmed s.db ft.task then some ⟨(), s, .listener (.reading i (j + 1)), []⟩
      else some ⟨(), { s with filterTasks := dropFilter s.filterTasks i j },
        .listener (.reading i j), []⟩
  | .clear =>
    if s.filterTaskLocked then none
    else some ⟨(), { s with filterTasks := [], elosStarted := false }, .listener .ended, []⟩
  | .ended => none

def activateStep (s : Elos) (e : Bool) : Move Elos ElosThread Unit :=
  ⟨(), { s with elosActivated := e }, .returned 0,
    if e && !s.elosActivated then [.listener .version] else []⟩

def elosProgram : Program Elos ElosThread ElosAnswers Unit
  | s, .insert t overwrite, o => insertStep s t overwrite o
  | s, .hook r, o => hookStep s r o
  | _, .returned _, _ => none
  | s, .activate e, _ => some (activateStep s e)
  | s, .listener place, o => listenerStep s place o
  | _, .other [], _ => none
  | s, .other (op :: ops), _ =>
    if s.dbLocked then none else some ⟨(), { s with db := op s.db }, .other ops, []⟩

structure ElosBoot where
  db : TaskDB
  useElos : Bool
  inserts : List (ElosTask × Bool)
  switches : List Bool
  others : List (List (TaskDB → TaskDB))

def ElosBoot.conf (b : ElosBoot) : Conf Elos ElosThread :=
  ⟨{ db := b.db, useElos := b.useElos },
    b.inserts.map (fun i => .insert i.1 i.2) ++ b.switches.map .activate ++ b.others.map .other⟩

def isElos (dep : TaskDep) : Bool := dep.name == elosDepName

def Registration.awaits (r : Registration) : Bool :=
  r.filterTask = .locking && r.dep?.any isElos

def Registration.pending (r : Registration) : Bool :=
  (r.filterTask = .null || r.filterTask = .locking) && (r.deps ++ r.trig).any isElos

def ElosThread.holdsTaskDb : ElosThread → Bool
  | .hook _ => true
  | _ => false

def ElosThread.awaitsFilterTask : ElosThread → Bool
  | .hook r => r.awaits
  | .listener .subscribe => true
  | .listener .lock => true
  | .listener .clear => true
  | _ => false

def ElosThread.holdsFilterTask : ElosThread → Bool
  | .listener (.reading _ _) => true
  | .listener (.fulfilling _ _) => true
  | .listener (.fulfilled _ _) => true
  | _ => false

def ElosThread.awaitsTaskDb : ElosThread → Bool
  | .insert _ _ => true
  | .other (_ :: _) => true
  | .listener (.fulfilling _ _) => true
  | _ => false

def LockCycle (c : Conf Elos ElosThread) (i j : Nat) : Prop :=
  ∃ t u, c.threads[i]? = some t ∧ c.threads[j]? = some u ∧
    t.holdsTaskDb = true ∧ t.awaitsFilterTask = true ∧
    u.holdsFilterTask = true ∧ u.awaitsTaskDb = true

def ElosThread.pending : ElosThread → Bool
  | .hook r => r.pending
  | _ => false

def ElosThread.fulfils : ElosThread → Bool
  | .listener (.fulfilling _ _) => true
  | _ => false

def comesToRegister (e : Taken Elos ElosThread ElosAnswers Unit) : Bool :=
  match e.thread with
  | .insert _ _ => e.move.thread.pending
  | _ => false

def findsEvent (e : Taken Elos ElosThread ElosAnswers Unit) : Bool := e.move.thread.fulfils

def ordered (e : Taken Elos ElosThread ElosAnswers Unit) : Bool :=
  !(comesToRegister e && e.before.threads.any ElosThread.fulfils) &&
    !(findsEvent e && e.before.threads.any ElosThread.pending)

theorem behind_left (r : Registration) (res : Int) :
    (r.behind res).deps ++ (r.behind res).trig = (r.deps ++ r.trig).tail ∧
      (r.behind res).filterTask = r.filterTask := by
  unfold Registration.behind
  split
  · rename_i first
    simp [first]
  · rename_i none
    simp [none]

variable {r : Registration}

theorem behind_pending {res : Int} (later : (r.behind res).pending = true) : r.pending = true := by
  obtain ⟨left, ref⟩ := behind_left r res
  unfold Registration.pending at later ⊢
  rw [left, ref, Bool.and_eq_true] at later
  rw [Bool.and_eq_true]
  obtain ⟨dep, member, elos⟩ := List.any_eq_true.mp later.2
  exact ⟨later.1, List.any_eq_true.mpr ⟨dep, mem_of_mem_tail member, elos⟩⟩

theorem broken_pending {res : Int} (later : (r.broken res).pending = true) : r.pending = true := by
  unfold Registration.broken at later
  unfold Registration.pending at later ⊢
  split at later <;> simp_all

/-! ### What a step does to the locks -/

inductive ElosStep (s : Elos) : ElosThread → Move Elos ElosThread Unit → Prop where
  | returns {task : ElosTask} {overwrite : Bool} {s' : Elos} {ret : Int}
      (db : s'.dbLocked = s.dbLocked) (filterTask : s'.filterTaskLocked = s.filterTaskLocked) :
      ElosStep s (.insert task overwrite) ⟨(), s', .returned ret, []⟩
  | enters {task : ElosTask} {overwrite : Bool} {s' : Elos} (free : s.dbLocked = false)
      (db : s'.dbLocked = true) (filterTask : s'.filterTaskLocked = s.filterTaskLocked) :
      ElosStep s (.insert task overwrite)
        ⟨(), s', .hook ⟨task, task.task.deps, task.task.trig, .null, 0⟩, []⟩
  | registers {r r' : Registration} {s' : Elos} (db : s'.dbLocked = s.dbLocked)
      (filterTask : s'.filterTaskLocked = s.filterTaskLocked)
      (origin : r'.pending = true → r.pending = true) :
      ElosStep s (.hook r) ⟨(), s', .hook r', []⟩
  | leaves {r : Registration} {s' : Elos} {ret : Int} (db : s'.dbLocked = false)
      (filterTask : s'.filterTaskLocked = s.filterTaskLocked) :
      ElosStep s (.hook r) ⟨(), s', .returned ret, []⟩
  | switches {e : Bool} {s' : Elos} {started : List ElosThread} (db : s'.dbLocked = s.dbLocked)
      (filterTask : s'.filterTaskLocked = s.filterTaskLocked)
      (fresh : started = [] ∨ started = [.listener .version]) :
      ElosStep s (.activate e) ⟨(), s', .returned 0, started⟩
  | listens {place place' : ListenerAt} {s' : Elos} (db : s'.dbLocked = s.dbLocked)
      (filterTask : LockEffect (E := Unit) Elos.filterTaskLocked ElosThread.holdsFilterTask s
        (.listener place) ⟨(), s', .listener place', []⟩) :
      ElosStep s (.listener place) ⟨(), s', .listener place', []⟩
  | uses {op : TaskDB → TaskDB} {ops : List (TaskDB → TaskDB)} {s' : Elos}
      (db : s'.dbLocked = s.dbLocked) (filterTask : s'.filterTaskLocked = s.filterTaskLocked) :
      ElosStep s (.other (op :: ops)) ⟨(), s', .other ops, []⟩

theorem insertStep_kind (s : Elos) (t : ElosTask) (overwrite : Bool) (o : ElosAnswers)
    (m : Move Elos ElosThread Unit) (taken : insertStep s t overwrite o = some m) :
    ElosStep s (.insert t overwrite) m := by
  revert taken
  fun_cases insertStep s t overwrite o with
  | case1 => rintro ⟨⟩
  | case2 | case3 => rintro ⟨⟩; exact .returns rfl rfl
  | case4 blocked => rintro ⟨⟩; exact .enters (by simpa using (not_or.mp blocked).1) rfl rfl

theorem registerFilterDep_kind (s : Elos) (r : Registration) (dep : TaskDep) (o : ElosAnswers)
    (m : Move Elos ElosThread Unit) (taken : registerFilterDep s r dep o = some m) :
    ElosStep s (.hook r) m := by
  revert taken
  fun_cases registerFilterDep s r dep o with
  | case1 | case10 => rintro ⟨⟩; exact .registers rfl rfl behind_pending
  | case3 | case7 | case8 | case9 => rintro ⟨⟩; exact .registers rfl rfl broken_pending
  | case4 | case6 => rintro ⟨⟩
  | case2 elos null =>
    rintro ⟨⟩
    refine .registers rfl rfl fun later => ?_
    simpa [Registration.pending, null] using later
  | case5 =>
    rintro ⟨⟩
    refine .registers rfl rfl fun later => ?_
    simp [Registration.pending] at later

theorem choice_outside (b : Bool) (p q : ListenerAt)
    (outside : ElosThread.holdsFilterTask (.listener p) = false)
    (outside' : ElosThread.holdsFilterTask (.listener q) = false) :
    ElosThread.holdsFilterTask (.listener (if b then p else q)) = false := by
  cases b
  · exact outside'
  · exact outside

theorem listenerStep_kind (s : Elos) (place : ListenerAt) (o : ElosAnswers)
    (m : Move Elos ElosThread Unit) (taken : listenerStep s place o = some m) :
    ElosStep s (.listener place) m := by
  revert taken
  fun_cases listenerStep s place o with
  | case1 | case3 | case4 =>
    rintro ⟨⟩
    exact .listens rfl (.keeps rfl (choice_outside _ _ _ rfl rfl))
  | case6 free => rintro ⟨⟩; exact .listens rfl (.takes (by simpa using free) rfl rfl rfl)
  | case7 => rintro ⟨⟩; exact .listens rfl (.frees rfl rfl (choice_outside _ _ _ rfl rfl))
  | case8 | case9 | case10 | case15 | case16 | case18 =>
    rintro ⟨⟩
    exact .listens rfl (.keeps rfl rfl)
  | case13 =>
    intro taken
    obtain ⟨filter, _, rfl⟩ := Option.map_eq_some_iff.mp taken
    exact .listens rfl (.keeps rfl rfl)
  | _ => rintro ⟨⟩

theorem elosProgram_kind (s : Elos) (t : ElosThread) (o : ElosAnswers)
    (m : Move Elos ElosThread Unit) (taken : elosProgram s t o = some m) : ElosStep s t m := by
  cases t with
  | insert task overwrite => exact insertStep_kind s task overwrite o m taken
  | hook r =>
    simp only [elosProgram, hookStep] at taken
    split at taken
    · exact registerFilterDep_kind s r _ o m taken
    · cases taken
      exact .leaves rfl rfl
  | returned => cases taken
  | activate e =>
    cases taken
    refine .switches rfl rfl ?_
    cases e && !s.elosActivated
    · exact .inl rfl
    · exact .inr rfl
  | listener place => exact listenerStep_kind s place o m taken
  | other ops =>
    cases ops with
    | nil => cases taken
    | cons op ops =>
      simp only [elosProgram] at taken
      split at taken <;> cases taken
      exact .uses rfl rfl

theorem taskDb_effect (s : Elos) (t : ElosThread) (o : ElosAnswers) (m : Move Elos ElosThread Unit)
    (taken : elosProgram s t o = some m) :
    LockEffect Elos.dbLocked ElosThread.holdsTaskDb s t m ∧
      m.started.countP ElosThread.holdsTaskDb = 0 := by
  cases elosProgram_kind s t o m taken with
  | returns db _ | registers db _ _ | listens db _ | uses db _ => exact ⟨.keeps db rfl, rfl⟩
  | enters free db _ => exact ⟨.takes free db rfl rfl, rfl⟩
  | leaves db _ => exact ⟨.frees db rfl rfl, rfl⟩
  | switches db _ fresh => rcases fresh with rfl | rfl <;> exact ⟨.keeps db rfl, rfl⟩

theorem filterTask_effect (s : Elos) (t : ElosThread) (o : ElosAnswers)
    (m : Move Elos ElosThread Unit) (taken : elosProgram s t o = some m) :
    LockEffect Elos.filterTaskLocked ElosThread.holdsFilterTask s t m ∧
      m.started.countP ElosThread.holdsFilterTask = 0 := by
  cases elosProgram_kind s t o m taken with
  | returns _ same | enters _ _ same | registers _ same _ | leaves _ same | uses _ same =>
    exact ⟨.keeps same rfl, rfl⟩
  | listens _ effect => exact ⟨effect, rfl⟩
  | switches _ same fresh => rcases fresh with rfl | rfl <;> exact ⟨.keeps same rfl, rfl⟩

theorem boot_all (b : ElosBoot) (p : ElosThread → Bool)
    (insert : ∀ t overwrite, p (.insert t overwrite) = false)
    (activate : ∀ e, p (.activate e) = false) (other : ∀ ops, p (.other ops) = false) :
    ∀ t ∈ b.conf.threads, p t = false := by
  intro t member
  simp only [ElosBoot.conf, mem_append, mem_map] at member
  rcases member with (⟨i, _, rfl⟩ | ⟨e, _, rfl⟩) | ⟨ops, _, rfl⟩
  · exact insert _ _
  · exact activate _
  · exact other _

theorem boot_count (b : ElosBoot) (p : ElosThread → Bool)
    (none : ∀ t ∈ b.conf.threads, p t = false) : b.conf.threads.countP p = 0 := by
  refine List.countP_eq_zero.mpr fun t member => ?_
  rw [none t member]
  exact Bool.false_ne_true

structure LocksKept (c : Conf Elos ElosThread) : Prop where
  taskDb : c.threads.countP ElosThread.holdsTaskDb = c.shared.dbLocked.toNat
  filterTask : c.threads.countP ElosThread.holdsFilterTask = c.shared.filterTaskLocked.toNat

variable {tr : List (Taken Elos ElosThread ElosAnswers Unit)} {c : Conf Elos ElosThread}

theorem locks_kept (b : ElosBoot) {guard : Taken Elos ElosThread ElosAnswers Unit → Prop}
    (run : Run elosProgram guard b.conf tr c) : LocksKept c :=
  ⟨run.mutual_exclusion _ _ taskDb_effect (boot_count b _
      (boot_all b _ (fun _ _ => rfl) (fun _ => rfl) (fun _ => rfl))),
    run.mutual_exclusion _ _ filterTask_effect (boot_count b _
      (boot_all b _ (fun _ _ => rfl) (fun _ => rfl) (fun _ => rfl)))⟩

theorem awaits_blocked (s : Elos) (r : Registration) (o : ElosAnswers) (awaits : r.awaits = true)
    (locked : s.filterTaskLocked = true) : hookStep s r o = none := by
  simp only [Registration.awaits, Bool.and_eq_true, decide_eq_true_eq] at awaits
  obtain ⟨locking, next⟩ := awaits
  cases hd : r.dep? with
  | none => simp [hd] at next
  | some dep =>
    have elos : dep.name = elosDepName := by simpa [hd, isElos] using next
    simp [hookStep, hd, registerFilterDep, elos, locking, locked]

variable {i j : Nat}

theorem cycle_blocked (kept : LocksKept c) (cycle : LockCycle c i j) (o : ElosAnswers) :
    c.step elosProgram i o = none ∧ c.step elosProgram j o = none := by
  obtain ⟨t, u, ht, hu, holdsDb, awaitsFilter, holdsFilter, awaitsDb⟩ := cycle
  have dbLocked := held_of_holder kept.taskDb ht holdsDb
  have filterTaskLocked := held_of_holder kept.filterTask hu holdsFilter
  constructor
  · cases t with
    | hook r =>
      simp [Conf.step, ht, elosProgram, awaits_blocked _ r o awaitsFilter filterTaskLocked]
    | _ => cases holdsDb
  · cases u with
    | listener place =>
      cases place with
      | fulfilling i' j' => simp [Conf.step, hu, elosProgram, listenerStep, dbLocked]
      | _ => cases awaitsDb
    | _ => cases holdsFilter

/-- A cycle is for ever: no later step of any thread breaks it up, and none is of its two. -/
theorem cycle_is_deadlock (b : ElosBoot) (run : Run elosProgram (fun _ => True) b.conf tr c)
    (cycle : LockCycle c i j) {later : List (Taken Elos ElosThread ElosAnswers Unit)}
    {c' : Conf Elos ElosThread} (further : Run elosProgram (fun _ => True) c later c') :
    LockCycle c' i j ∧ (∀ e ∈ later, e.index ≠ i ∧ e.index ≠ j) ∧
      ∀ o, c'.step elosProgram i o = none ∧ c'.step elosProgram j o = none := by
  have both : LockCycle c' i j ∧ ∀ e ∈ later, e.index ≠ i ∧ e.index ≠ j := by
    induction further with
    | start => exact ⟨cycle, fun e mem => absurd mem not_mem_nil⟩
    | @next later c' k o e before step _ ih =>
      obtain ⟨⟨t, u, ht, hu, facts⟩, others⟩ := ih
      have blocked := cycle_blocked (locks_kept b (run.append before)) ⟨t, u, ht, hu, facts⟩ o
      have notI : k ≠ i := by
        rintro rfl
        cases blocked.1.symm.trans step
      have notJ : k ≠ j := by
        rintro rfl
        cases blocked.2.symm.trans step
      obtain ⟨t', m, _, _, rfl⟩ := step_iff.mp step
      refine ⟨⟨t, u, after_other ht notI.symm m, after_other hu notJ.symm m, facts⟩, ?_⟩
      intro e mem
      rcases List.mem_append.mp mem with mem | mem
      · exact others e mem
      · cases List.mem_singleton.mp mem
        exact ⟨notI, notJ⟩
  exact ⟨both.1, both.2, cycle_blocked (locks_kept b (run.append further)) both.1⟩

variable {s : Elos} {t : ElosThread} {m : Move Elos ElosThread Unit}

theorem pending_origin (kind : ElosStep s t m) (later : m.thread.pending = true) :
    t.pending = true ∨ ∃ task overwrite, t = .insert task overwrite := by
  cases kind with
  | enters => exact .inr ⟨_, _, rfl⟩
  | registers _ _ origin => exact .inl (origin later)
  | returns | leaves | switches | listens | uses => cases later

theorem fulfils_origin (kind : ElosStep s t m) (later : m.thread.fulfils = true) :
    t.pending = false := by
  cases kind with
  | listens => rfl
  | returns | enters | registers | leaves | switches | uses => cases later

theorem started_fresh (kind : ElosStep s t m) :
    ∀ u ∈ m.started, u.pending = false ∧ u.fulfils = false := by
  cases kind with
  | switches _ _ fresh =>
    rcases fresh with rfl | rfl <;> simp [ElosThread.pending, ElosThread.fulfils]
  | returns | enters | registers | leaves | listens | uses => simp

def Clear (c : Conf Elos ElosThread) : Prop :=
  ∀ t ∈ c.threads, ∀ u ∈ c.threads, t.pending = true → u.fulfils = false

theorem awaits_pending (awaits : r.awaits = true) : r.pending = true := by
  simp only [Registration.awaits, Registration.dep?, Bool.and_eq_true, decide_eq_true_eq] at awaits
  obtain ⟨locking, next⟩ := awaits
  obtain ⟨dep, first, elos⟩ := (Option.any_eq_true _ _).mp next
  simp only [Registration.pending, locking, Bool.and_eq_true]
  exact ⟨by decide, List.any_eq_true.mpr ⟨dep, mem_of_mem_head? first, elos⟩⟩

theorem clear_no_cycle (clear : Clear c) (i j : Nat) : ¬ LockCycle c i j := by
  rintro ⟨t, u, ht, hu, holdsDb, awaitsFilter, holdsFilter, awaitsDb⟩
  have pending : t.pending = true := by
    cases t with
    | hook r => exact awaits_pending awaitsFilter
    | _ => cases holdsDb
  have fulfils : u.fulfils = true := by
    cases u with
    | listener place => cases place <;> first | rfl | cases awaitsDb
    | _ => cases holdsFilter
  have apart := clear t (mem_of_getElem? ht) u (mem_of_getElem? hu) pending
  rw [fulfils] at apart
  cases apart

variable {o : ElosAnswers} {u : ElosThread}

theorem mem_after (ht : c.threads[i]? = some t) (taken : elosProgram c.shared t o = some m)
    (member : u ∈ (c.after i m).threads) :
    u = m.thread ∨ u ∈ c.threads ∨ u.pending = false ∧ u.fulfils = false := by
  obtain ⟨k, hk⟩ := mem_iff_getElem?.mp member
  rcases after_lookup ht hk with ⟨_, rfl⟩ | ⟨_, other⟩ | ⟨_, started⟩
  · exact .inl rfl
  · exact .inr (.inl (mem_of_getElem? other))
  · exact .inr (.inr (started_fresh (elosProgram_kind _ _ _ _ taken) u (mem_of_getElem? started)))

theorem pending_hook (pending : t.pending = true) : ∃ r, t = .hook r ∧ r.pending = true := by
  cases t with
  | hook r => exact ⟨r, rfl, pending⟩
  | _ => cases pending

theorem clear_step (clear : Clear c) (ht : c.threads[i]? = some t)
    (taken : elosProgram c.shared t o = some m) (order : ordered ⟨c, i, o, t, m⟩ = true) :
    Clear (c.after i m) := by
  have kind := elosProgram_kind c.shared t o m taken
  simp only [ordered, Bool.and_eq_true, Bool.not_eq_true', Bool.and_eq_false_iff,
    any_eq_false, Bool.not_eq_true] at order
  obtain ⟨noFulfilling, noPending⟩ := order
  intro u hu v hv pending
  rcases mem_after ht taken hv with rfl | hv | fresh
  · -- the listener has moved: it found an event only if no hook was on its way
    rcases mem_after ht taken hu with rfl | hu | fresh
    · obtain ⟨r, thread, _⟩ := pending_hook pending
      rw [thread]
      rfl
    · rcases noPending with none | none
      · exact none
      · rw [none u hu] at pending
        cases pending
    · rw [fresh.1] at pending
      cases pending
  · rcases mem_after ht taken hu with rfl | hu | fresh
    · rcases pending_origin kind pending with before | ⟨task, overwrite, rfl⟩
      · exact clear t (mem_of_getElem? ht) v hv before
      · rcases noFulfilling with none | none
        · rw [show comesToRegister _ = m.thread.pending from rfl, pending] at none
          cases none
        · exact none v hv
    · exact clear u hu v hv pending
    · rw [fresh.1] at pending
      cases pending
  · exact fresh.2

theorem ordered_clear (b : ElosBoot) (run : Run elosProgram (fun _ => True) b.conf tr c)
    (order : ∀ e ∈ tr, ordered e = true) : Clear c := by
  refine (run.strengthen order).invariant Clear ?_ ?_
  · intro t ht u _ pending
    have fresh := boot_all b ElosThread.pending (fun _ _ => rfl) (fun _ => rfl) (fun _ => rfl) t ht
    rw [fresh] at pending
    cases pending
  · intro c i t m o clear ht taken guard
    exact clear_step clear ht taken guard.2

/-! ### Out of order there is a way into the cycle -/

theorem fulfils_waits (fulfils : u.fulfils = true) :
    u.holdsFilterTask = true ∧ u.awaitsTaskDb = true := by
  cases u with
  | listener place => cases place <;> first | exact ⟨rfl, rfl⟩ | cases fulfils
  | _ => cases fulfils

theorem hook_moves {dep : TaskDep} (hi : c.threads[i]? = some (.hook r))
    (next : r.dep? = some dep) (taken : registerFilterDep c.shared r dep o = some m) :
    Run elosProgram (fun _ => True) c [⟨c, i, o, .hook r, m⟩] (c.after i m) := by
  refine .next i o .start (step_iff.mpr ⟨_, m, hi, ?_, rfl⟩) trivial
  simpa [elosProgram, hookStep, next] using taken

/-- The hook passes over its other dependencies and comes to wait for the listener. -/
theorem cycle_reached (n : Nat) (c : Conf Elos ElosThread) (r : Registration)
    (length : (r.deps ++ r.trig).length = n) (hi : c.threads[i]? = some (.hook r))
    (pending : r.pending = true) (hj : c.threads[j]? = some u) (fulfils : u.fulfils = true) :
    ∃ tr c', Run elosProgram (fun _ => True) c tr c' ∧ LockCycle c' i j := by
  have apart : j ≠ i := by
    rintro rfl
    rw [hi] at hj
    cases hj
    cases fulfils
  have waits := fulfils_waits fulfils
  simp only [Registration.pending, Bool.and_eq_true, Bool.or_eq_true, decide_eq_true_eq] at pending
  obtain ⟨ref, some⟩ := pending
  induction n generalizing c r with
  | zero =>
    rw [List.length_eq_zero_iff.mp length] at some
    cases some
  | succ n ih =>
    obtain ⟨dep, rest, left⟩ := exists_cons_of_length_eq_add_one length
    have next : r.dep? = .some dep := by simp [Registration.dep?, left]
    by_cases elos : dep.name = elosDepName
    · have awaits : Registration.awaits { r with filterTask := .locking } = true := by
        simp [Registration.awaits, Registration.dep?, left, isElos, elos]
      rcases ref with null | locking
      · have step := hook_moves (o := {})
          (m := ⟨(), c.shared, .hook { r with filterTask := .locking }, []⟩)
          hi next (by simp [registerFilterDep, elos, null])
        exact ⟨_, _, step, _, u, after_self hi _, after_other hj apart _, rfl, awaits, waits⟩
      · rw [← locking] at awaits
        exact ⟨[], c, .start, _, u, hi, hj, rfl, awaits, waits⟩
    · have shorter : rest.length = n := by
        rw [left] at length
        exact Nat.succ.inj length
      obtain ⟨tail, same⟩ := behind_left r 0
      rw [left, tail_cons] at tail
      let passed : Move Elos ElosThread Unit := ⟨(), c.shared, .hook (r.behind 0), []⟩
      have step := hook_moves (o := {}) (m := passed) hi next
        (by simp [registerFilterDep, elos, passed])
      rw [left, any_cons, show isElos dep = false by simp [isElos, elos],
        Bool.false_or] at some
      obtain ⟨tr, c', further, cycle⟩ := ih _ (r.behind 0) (tail ▸ shorter)
        (after_self hi passed) (after_other hj apart passed) (same ▸ ref) (tail ▸ some)
      exact ⟨_, c', step.append further, cycle⟩

theorem register_reached {e : Taken Elos ElosThread ElosAnswers Unit}
    (ht : e.before.threads[e.index]? = some e.thread) (registers : comesToRegister e = true)
    {v : ElosThread} (member : v ∈ e.before.threads) (fulfils : v.fulfils = true) :
    ∃ later c' i j, Run elosProgram (fun _ => True) e.result later c' ∧ LockCycle c' i j := by
  have inserted : e.thread.fulfils = false ∧ e.move.thread.pending = true := by
    unfold comesToRegister at registers
    split at registers
    · rename_i insertion
      exact ⟨by rw [insertion]; rfl, registers⟩
    · cases registers
  obtain ⟨r, thread, ahead⟩ := pending_hook inserted.2
  obtain ⟨k, hk⟩ := mem_iff_getElem?.mp member
  have apart : k ≠ e.index := by
    rintro rfl
    rw [ht] at hk
    cases hk
    rw [fulfils] at inserted
    cases inserted.1
  have moved := after_self ht e.move
  rw [thread] at moved
  obtain ⟨later, c', further, cycle⟩ := cycle_reached _ e.result r rfl moved ahead
    (after_other hk apart e.move) fulfils
  exact ⟨later, c', e.index, k, further, cycle⟩

theorem event_reached {e : Taken Elos ElosThread ElosAnswers Unit}
    (ht : e.before.threads[e.index]? = some e.thread)
    (taken : elosProgram e.before.shared e.thread e.answers = some e.move)
    (finds : findsEvent e = true) {v : ElosThread} (member : v ∈ e.before.threads)
    (pending : v.pending = true) :
    ∃ later c' i j, Run elosProgram (fun _ => True) e.result later c' ∧ LockCycle c' i j := by
  obtain ⟨r, rfl, ahead⟩ := pending_hook pending
  obtain ⟨k, hk⟩ := mem_iff_getElem?.mp member
  have apart : k ≠ e.index := by
    rintro rfl
    rw [ht] at hk
    have listener := fulfils_origin (elosProgram_kind _ _ _ _ taken) finds
    rw [Option.some.inj hk, pending] at listener
    cases listener
  obtain ⟨later, c', further, cycle⟩ := cycle_reached _ e.result r rfl
    (after_other hk apart e.move) ahead (after_self ht e.move) finds
  exact ⟨later, c', k, e.index, further, cycle⟩

/-- In a run in which no hook begins while the listener is about to fulfil a
dependency, and no event is found while a hook has yet to register its task, no
state has a cycle. Each step out of this order has a continuation into one. -/
theorem elos_lock_order (b : ElosBoot) (tr : List (Taken Elos ElosThread ElosAnswers Unit))
    (c : Conf Elos ElosThread) (run : Run elosProgram (fun _ => True) b.conf tr c) :
    ((∀ e ∈ tr, ordered e = true) → ∀ i j, ¬ LockCycle c i j) ∧
    (∀ e ∈ tr, ordered e = false → ∃ later c' i j,
      Run elosProgram (fun _ => True) e.result later c' ∧ LockCycle c' i j) := by
  refine ⟨fun order i j => clear_no_cycle (ordered_clear b run order) i j, fun e he out => ?_⟩
  obtain ⟨_, _, ht, taken⟩ := run.taken e he
  simp only [ordered, Bool.and_eq_false_iff, Bool.not_eq_false', Bool.and_eq_true,
    any_eq_true] at out
  rcases out with ⟨registers, v, member, fulfils⟩ | ⟨finds, v, member, pending⟩
  · exact register_reached ht registers member fulfils
  · exact event_reached ht taken finds member pending

def sshTask (name : String) : ElosTask where
  task := { name := name, deps := [⟨"net", eventDone⟩, ⟨elosDepName, "SSHD"⟩] }
  elosFilters := { envp := ["SSHD=1".toList], allocSz := 2 }

def sshBoot : ElosBoot where
  db := {}
  useElos := true
  inserts := [(sshTask "ssh", false), (sshTask "log", false)]
  switches := [true]
  others := []

def elosTurns (i n : Nat) : List (Nat × ElosAnswers) := List.replicate n (i, {})

def insertedFirst : List (Nat × ElosAnswers) :=
  elosTurns 0 6 ++ elosTurns 1 6 ++ elosTurns 2 1 ++ elosTurns 3 4 ++ [(3, { event := true })] ++
    elosTurns 3 6

theorem inserted_first_free :
    ∃ tr c, Run elosProgram (fun _ => True) sshBoot.conf tr c ∧ (∀ e ∈ tr, ordered e = true) ∧
      (∀ i j, ¬ LockCycle c i j) ∧ (c.shared.db.findTask "ssh").any
      (fun t => t.deps.length = 1) := by
  have run := run_of_any_schedule elosProgram insertedFirst sshBoot.conf
  have order : ∀ e ∈ steps elosProgram sshBoot.conf insertedFirst, ordered e = true :=
    List.all_eq_true.mp (by decide)
  exact ⟨_, _, run, order, (elos_lock_order sshBoot _ _ run).1 order, by decide⟩

def insertedLate : List (Nat × ElosAnswers) :=
  elosTurns 0 6 ++ elosTurns 2 1 ++ elosTurns 3 4 ++ [(3, { event := true })] ++ elosTurns 1 3

/-- None of these threads can take a step any more. -/
theorem inserted_late_deadlocks :
    ∃ tr c, Run elosProgram (fun _ => True) sshBoot.conf tr c ∧ LockCycle c 1 3 ∧
      ∀ i o, c.step elosProgram i o = none := by
  have run := run_of_any_schedule elosProgram insertedLate sshBoot.conf
  refine ⟨_, _, run, ⟨_, _, rfl, rfl, by decide, by decide, by decide, by decide⟩, fun i o => ?_⟩
  rcases i with _ | _ | _ | _ | i <;> rfl

theorem inserted_late_for_ever : ∃ tr c, Run elosProgram (fun _ => True) sshBoot.conf tr c ∧
    LockCycle c 1 3 ∧
      ∀ later c', Run elosProgram (fun _ => True) c later c' → LockCycle c' 1 3 := by
  have run := run_of_any_schedule elosProgram insertedLate sshBoot.conf
  have cycle : LockCycle (final sshBoot.conf (steps elosProgram sshBoot.conf insertedLate)) 1 3 :=
    ⟨_, _, rfl, rfl, by decide, by decide, by decide, by decide⟩
  exact ⟨_, _, run, cycle, fun _ _ further => (cycle_is_deadlock sshBoot run cycle further).1⟩

end Crinit
