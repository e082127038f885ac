import Crinit.Frame
import Crinit.Removal
import Crinit.TimerRefs

/-! How long a timer stays in the pool. Loading a task takes a reference for every `@timer` entry;
removing a dependency and the exit of a dispatch thread give one back. -/
namespace Crinit

open List Locks SwapRemove

structure Load where
  task : Task
  started : Bool := false
  released : Bool := false
  deriving DecidableEq, Repr

/-- The newest load comes first. -/
structure TimerLife where
  world : TimerWorld := ⟨{}, {}⟩
  loads : List Load := []
  deriving DecidableEq, Repr

def timerEvents (deps : List TaskDep) : List String :=
  deps.filterMap fun dep => if dep.name = timerDepName then some dep.event else none

structure TaskLoad where
  new : NewTask
  entries : List (TimerSys × String)
  complete : (entries.map Prod.snd).Perm (timerEvents (new.task.deps ++ new.task.trig))

def removeDepFromTaskCalls (dep : TaskDep) (n : String) : Locked Mutex TimerWorld Unit :=
  critical .taskDB do
    let w ← access
    match w.db.findTask n with
    | none => pure ()
    | some t =>
      let t ← removeDepFromTaskStructCalls dep t
      update fun w => { w with db := w.db.update n fun _ => t }

def releaseTimers : List TaskDep → Locked Mutex TimerWorld Unit
  | [] => pure ()
  | dep :: deps => do
    if dep.name = timerDepName then removeTimer dep.event
    releaseTimers deps

def updateDB (f : TaskDB → TaskDB) : Locked Mutex TimerWorld Unit :=
  critical .taskDB (update fun w => { w with db := f w.db })

/-- What the thread fulfils on the way is an event of its own. -/
def threadExit (t : Task) (ok : Bool) (timestamp : Timespec) : Locked Mutex TimerWorld Unit := do
  if ok then updateDB fun db => (db.setTaskState stateDone t.name timestamp).db
  else
    updateDB fun db => (db.setTaskState stateFailed t.name timestamp).db
    updateDB fun db => (db.setTaskPID (-1) t.name).db
  if t.triggerRearm then updateDB fun db => (db.rearmTrigger t.name).db
  else releaseTimers t.trig

inductive TimerEvent where
  | load (l : TaskLoad) (overwrite : Bool) (env : InsertEnv)
  /-- With `@timer` as its name: the timer thread serves a timer. -/
  | fulfil (dep : TaskDep)
  | removeDep (dep : TaskDep) (n : String)
  | start (n : String)
  /-- A thread for the load at the index ends. -/
  | exit (k : Nat) (mode : Mode) (ok : Bool) (timestamp : Timespec)

def Load.start (l : Load) : Load := { l with started := true }

def Load.release (l : Load) : Load := { l with released := l.released || !l.task.triggerRearm }

/-- The task of the name in the TaskDB comes from the newest load of the name. -/
def startFirst (n : String) : List Load → List Load
  | [] => []
  | l :: ls => if l.task.name = n then l.start :: ls else l :: startFirst n ls

def addTimers (entries : List (TimerSys × String)) (p : TimerDB) : TimerDB :=
  entries.foldl (fun p entry => addTimer entry.1 entry.2 p) p

def TimerLife.step (w : TimerLife) : TimerEvent → Option TimerLife
  | .load l overwrite env =>
    let r := w.world.db.insert l.new.task overwrite env
    if r.ret = 0 then
      some ⟨⟨addTimers l.entries w.world.pool, r.db⟩, { task := l.new.task } :: w.loads⟩
    else none
  | .fulfil dep =>
    ((fulfillDepCalls dep).run ⟨[], w.world⟩).map fun r => { w with world := r.2.state }
  | .removeDep dep n =>
    ((removeDepFromTaskCalls dep n).run ⟨[], w.world⟩).map fun r => { w with world := r.2.state }
  | .start n =>
    match w.world.db.findTask n with
    | none => none
    | some t =>
      if taskIsReady t then
        some ⟨{ w.world with db := w.world.db.update n (Task.setState stateStarting) },
          startFirst n w.loads⟩
      else none
  | .exit k mode ok timestamp =>
    match w.loads[k]? with
    | none => none
    | some l =>
      if mode = .start ∧ l.started = false then none
      else ((threadExit l.task ok timestamp).run ⟨[], w.world⟩).map fun r =>
        ⟨r.2.state, w.loads.modify k Load.release⟩

def TimerLife.run (w : TimerLife) : List TimerEvent → Option TimerLife
  | [] => some w
  | event :: events => (w.step event).bind fun w' => w'.run events

def TimerLife.loadOf (w : TimerLife) (n : String) : Option Load :=
  w.loads.find? fun l => l.task.name = n

def TimerLife.hasStarted (w : TimerLife) (n : String) : Bool := (w.loadOf n).any Load.started

def TimerLife.Needs (w : TimerLife) (t : Task) (e : String) : Prop :=
  ⟨timerDepName, e⟩ ∈ t.deps ∨
    ⟨timerDepName, e⟩ ∈ t.trig ∧ (t.triggerRearm = true ∨ w.hasStarted t.name = false)

def TimerLife.Kept (w : TimerLife) : Prop :=
  ∀ t ∈ w.world.db.taskSet, ∀ e, w.Needs t e → w.world.pool.has e = true

/-! ### What the calls trade

`Pays` compares the dependencies that need a reference before and after some calls: what
else the pool has to cover stays covered. -/

def timerCount (e : String) (deps : List TaskDep) : Nat := deps.count ⟨timerDepName, e⟩

structure Pays (before after : List TaskDep) (h h' : Holding Mutex TimerWorld) : Prop where
  held : h'.held = h.held
  db : h'.state.db = h.state.db
  slots : SlotsOk h'.state.pool.timers
  covered : ∀ e rest, rest + timerCount e before ≤ h.state.pool.refs e →
    rest + timerCount e after ≤ h'.state.pool.refs e

section Pays

variable {a b c : List TaskDep} {h h' h'' : Holding Mutex TimerWorld}

theorem pays_refl (ok : SlotsOk h.state.pool.timers) : Pays a a h h :=
  ⟨rfl, rfl, ok, fun _ _ covered => covered⟩

theorem pays_trans (first : Pays a b h h') (second : Pays b c h' h'') : Pays a c h h'' :=
  ⟨second.held.trans first.held, second.db.trans first.db, second.slots,
    fun e rest covered => second.covered e rest (first.covered e rest covered)⟩

theorem pays_frame (pays : Pays a b h h') (pre post : List TaskDep) :
    Pays (pre ++ a ++ post) (pre ++ b ++ post) h h' := by
  refine ⟨pays.held, pays.db, pays.slots, fun e rest covered => ?_⟩
  have inner := pays.covered e (rest + timerCount e pre + timerCount e post)
  simp only [timerCount, count_append] at inner covered ⊢
  omega

theorem pays_perm (perm : a.Perm b) (ok : SlotsOk h.state.pool.timers) : Pays a b h h :=
  ⟨rfl, rfl, ok, fun e rest covered => by rwa [timerCount, ← perm.count_eq]⟩

variable (free : .timerPool ∉ h.held) (ok : SlotsOk h.state.pool.timers)
include free ok

/-- A `@timer` entry is given up for a call of `crinitTimerDBRemoveTimer`, any other one
for nothing. -/
theorem ensures_release {A : Type} {next : Locked Mutex TimerWorld A}
    {post : A → Holding Mutex TimerWorld → Prop} (dep : TaskDep)
    (later : ∀ h', Pays [dep] [] h h' → Ensures next h' post) :
    Ensures (if dep.name = timerDepName then removeTimer dep.event >>= fun _ => next else next)
      h post := by
  split_ifs with timer
  · refine ensures_bind (ensures_mono (ensures_removeTimer free ok) fun _ h' removed => later h' ?_)
    obtain ⟨held, db, slots, refs⟩ := removed
    refine ⟨held, db, slots, fun e rest covered => ?_⟩
    rw [refs]
    by_cases same : e = dep.event
    · have dep_eq : dep = ⟨timerDepName, e⟩ := by rw [same, ← timer]
      rw [timerCount, dep_eq, count_singleton_self] at covered
      rw [timerCount, count_nil, if_pos same]
      omega
    · rw [timerCount, count_nil, if_neg same]
      omega
  · refine later h ⟨rfl, rfl, ok, fun e rest covered => ?_⟩
    rw [timerCount, count_nil]
    omega

theorem ensures_releaseTimers (deps : List TaskDep) :
    Ensures (releaseTimers deps) h fun _ h' => Pays deps [] h h' := by
  induction deps generalizing h with
  | nil => exact ensures_pure (pays_refl ok)
  | cons dep deps ih =>
    refine ensures_release free ok dep fun h' first => ?_
    refine ensures_mono (ih (by rwa [first.held]) first.slots) fun _ h'' rest => ?_
    exact pays_trans (pays_frame first [] deps) rest

theorem ensures_removeLoop (dep : TaskDep) (turns j : Nat) (deps : List TaskDep) :
    Ensures (removeLoopCalls dep turns j deps) h fun deps' h' => Pays deps deps' h h' := by
  induction turns generalizing j deps h with
  | zero => exact ensures_pure (pays_refl ok)
  | succ turns ih =>
    unfold removeLoopCalls
    by_cases inside : j < deps.length
    · rw [if_pos inside]
      by_cases hit : deps[j]? = some dep
      · simp only [hit, true_and]
        refine ensures_release free ok dep fun h' first => ?_
        refine ensures_mono (ih (by rwa [first.held]) first.slots (j + 1) _) fun _ h'' rest => ?_
        exact pays_trans (pays_perm (removeAt_perm dep deps j hit).symm ok)
          (pays_trans (pays_frame first [] (removeAt dep deps j)) rest)
      · simp only [hit, false_and, if_false, removeAt_miss hit]
        exact ih free ok (j + 1) deps
    · rw [if_neg inside]
      exact ensures_pure (pays_refl ok)

end Pays

/-! ### What an event does to the tasks and the pool -/

def Task.identity (t : Task) : String × List TaskDep × TaskOpts := (t.name, t.trig, t.opts)

def allDeps (ts : List Task) : List TaskDep := ts.flatMap Task.deps

theorem allDeps_split (done todo : List Task) (t : Task) :
    allDeps (done ++ t :: todo) = allDeps done ++ t.deps ++ allDeps todo := by
  simp [allDeps]

structure Trades (given : List TaskDep) (w w' : TimerWorld) : Prop where
  same : w'.db.taskSet.map Task.identity = w.db.taskSet.map Task.identity
  slots : SlotsOk w'.pool.timers
  covered : ∀ e rest, rest + timerCount e (allDeps w.db.taskSet ++ given) ≤ w.pool.refs e →
    rest + timerCount e (allDeps w'.db.taskSet) ≤ w'.pool.refs e

section Trades

variable {h : Holding Mutex TimerWorld}

theorem ensures_removeDepStruct (dep : TaskDep) (t : Task) (free : .timerPool ∉ h.held)
    (ok : SlotsOk h.state.pool.timers) :
    Ensures (removeDepFromTaskStructCalls dep t) h fun t' h' =>
      t'.identity = t.identity ∧ Pays t.deps t'.deps h h' :=
  ensures_bind (ensures_mono (ensures_removeLoop free ok dep _ 0 t.deps) fun _ _ pays =>
    ensures_pure ⟨rfl, pays⟩)

theorem ensures_removeDepAll (dep : TaskDep) (ts : List Task) (free : .timerPool ∉ h.held)
    (ok : SlotsOk h.state.pool.timers) :
    Ensures (ts.mapM (removeDepFromTaskStructCalls dep)) h fun ts' h' =>
      ts'.map Task.identity = ts.map Task.identity ∧ Pays (allDeps ts) (allDeps ts') h h' := by
  let inv (done todo : List Task) (s : Holding Mutex TimerWorld) : Prop :=
    (done ++ todo).map Task.identity = ts.map Task.identity ∧
      Pays (allDeps ts) (allDeps (done ++ todo)) h s
  have start : inv [] ts h := ⟨rfl, pays_refl ok⟩
  have loop := ensures_mapM (f := removeDepFromTaskStructCalls dep) ?_ ts [] start
  · simpa [inv] using loop
  · rintro done t todo s ⟨same, pays⟩
    refine ensures_mono (ensures_removeDepStruct dep t (by rwa [pays.held]) pays.slots) fun t'
      s' turn => ?_
    obtain ⟨kept, now⟩ := turn
    refine ⟨?_, ?_⟩
    · rw [← same]
      simp [kept]
    · rw [append_assoc, singleton_append, allDeps_split]
      rw [allDeps_split] at pays
      exact pays_trans pays (pays_frame now _ _)

theorem ensures_fulfillDep (dep : TaskDep) (w : TimerWorld) (ok : SlotsOk w.pool.timers) :
    Ensures (fulfillDepCalls dep) ⟨[], w⟩ fun _ h' => Trades [] w h'.state := by
  have free : Mutex.timerPool ∉ [Mutex.taskDB] := by decide
  refine ensures_critical not_mem_nil (ensures_bind ⟨w, ⟨[.taskDB], w⟩, rfl, ?_⟩)
  refine ensures_bind (ensures_mono (ensures_removeDepAll dep w.db.taskSet free ok) fun ts h' all =>
    ?_)
  obtain ⟨same, pays⟩ := all
  refine ⟨(), _, rfl, same, pays.slots, fun e rest covered => ?_⟩
  rw [append_nil] at covered
  exact pays.covered e rest covered

theorem updateFirst_split {ts : List Task} {n : String} {t : Task} (t' : Task)
    (found : ts.find? (fun t => t.name = n) = some t) :
    ∃ pre post, ts = pre ++ t :: post ∧ updateFirst n (fun _ => t') ts = pre ++ t' :: post := by
  induction ts with
  | nil => cases found
  | cons u us ih =>
    rw [updateFirst]
    by_cases hit : u.name = n
    · have first : u = t := by simpa [hit] using found
      exact ⟨[], us, by rw [first]; rfl, if_pos hit⟩
    · obtain ⟨pre, post, split, updated⟩ := ih (by simpa [hit] using found)
      exact ⟨u :: pre, post, by rw [split]; rfl, by rw [if_neg hit, updated]; rfl⟩

theorem ensures_removeDepFromTask (dep : TaskDep) (n : String) (w : TimerWorld)
    (ok : SlotsOk w.pool.timers) :
    Ensures (removeDepFromTaskCalls dep n) ⟨[], w⟩ fun _ h' => Trades [] w h'.state := by
  have free : Mutex.timerPool ∉ [Mutex.taskDB] := by decide
  refine ensures_critical not_mem_nil (ensures_bind ⟨w, ⟨[.taskDB], w⟩, rfl, ?_⟩)
  cases found : w.db.findTask n with
  | none =>
    simp only [found]
    exact ensures_pure ⟨rfl, ok, fun e rest covered => by rwa [append_nil] at covered⟩
  | some t =>
    simp only [found]
    refine ensures_bind (ensures_mono (ensures_removeDepStruct dep t free ok) fun t' h' removed =>
      ?_)
    obtain ⟨kept, pays⟩ := removed
    obtain ⟨pre, post, split, updated⟩ := updateFirst_split t' found
    have tasks : (h'.state.db.update n fun _ => t').taskSet = pre ++ t' :: post := by
      rw [pays.db]
      exact updated
    refine ⟨(), _, rfl, ?_, pays.slots, fun e rest covered => ?_⟩
    · simp only [tasks, split]
      simp [kept]
    · simp only [tasks, allDeps_split]
      rw [append_nil, split, allDeps_split] at covered
      exact (pays_frame pays _ _).covered e rest covered

structure SameTasks (db db' : TaskDB) : Prop where
  same : db'.taskSet.map Task.identity = db.taskSet.map Task.identity
  deps : allDeps db'.taskSet = allDeps db.taskSet

theorem sameTasks_trans {db db' db'' : TaskDB} (first : SameTasks db db')
    (second : SameTasks db' db'') :
    SameTasks db db'' := ⟨second.same.trans first.same, second.deps.trans first.deps⟩

theorem sameTasks_update (db : TaskDB) (n : String) {f : Task → Task}
    (keeps : ∀ t, (f t).identity = t.identity ∧ (f t).deps = t.deps) :
    SameTasks db (db.update n f) := by
  suffices loop : ∀ ts, (updateFirst n f ts).map Task.identity = ts.map Task.identity ∧
      allDeps (updateFirst n f ts) = allDeps ts from ⟨(loop _).1, (loop _).2⟩
  intro ts
  induction ts with
  | nil => exact ⟨rfl, rfl⟩
  | cons t ts ih =>
    rw [updateFirst]
    split_ifs
    · simp [allDeps, keeps t]
    · simpa [allDeps] using ih

theorem sameTasks_setTaskState (db : TaskDB) (s : TaskState) (n : String) (timestamp : Timespec) :
    SameTasks db (db.setTaskState s n timestamp).db := by
  unfold TaskDB.setTaskState
  split
  · refine sameTasks_update db n fun t => ?_
    obtain ⟨_, _, _, frame⟩ := withState_frame t s timestamp
    rw [frame]
    exact ⟨rfl, rfl⟩
  · exact ⟨rfl, rfl⟩

theorem sameTasks_setTaskPID (db : TaskDB) (pid : Int) (n : String) :
    SameTasks db (db.setTaskPID pid n).db := by
  unfold TaskDB.setTaskPID
  split
  · exact sameTasks_update db n fun _ => ⟨rfl, rfl⟩
  · exact ⟨rfl, rfl⟩

theorem sameTasks_rearm (db : TaskDB) (n : String) : SameTasks db (db.rearmTrigger n).db := by
  unfold TaskDB.rearmTrigger
  split
  · exact sameTasks_update db n fun _ => ⟨rfl, rfl⟩
  · exact ⟨rfl, rfl⟩

theorem ensures_updateDB {w : TimerWorld} (f : TaskDB → TaskDB)
    {post : Unit → Holding Mutex TimerWorld → Prop}
    (holds : post () ⟨[], { w with db := f w.db }⟩) : Ensures (updateDB f) ⟨[], w⟩ post :=
  ensures_critical not_mem_nil ⟨(), _, rfl, holds⟩

def Task.returned (t : Task) : List TaskDep := if t.triggerRearm then [] else t.trig

theorem ensures_threadEnd (t : Task) {w w' : TimerWorld} (ok : SlotsOk w.pool.timers)
    (pool : w'.pool = w.pool) (tasks : SameTasks w.db w'.db) :
    Ensures (if t.triggerRearm then updateDB fun db => (db.rearmTrigger t.name).db
    else releaseTimers t.trig) ⟨[], w'⟩ fun _ h' => Trades t.returned w h'.state := by
  unfold Task.returned
  split_ifs with rearm
  · refine ensures_updateDB _ ?_
    have all := sameTasks_trans tasks (sameTasks_rearm w'.db t.name)
    refine ⟨all.same, by rwa [← pool] at ok, fun e rest covered => ?_⟩
    rw [append_nil] at covered
    simp only [all.deps, pool]
    exact covered
  · refine ensures_mono (ensures_releaseTimers not_mem_nil (by rwa [← pool] at ok) t.trig)
      fun _ h' pays => ?_
    refine ⟨by rw [pays.db]; exact tasks.same, pays.slots, fun e rest covered => ?_⟩
    rw [pays.db]
    have framed := (pays_frame pays (allDeps w'.db.taskSet) []).covered e rest
    simp only [append_nil, tasks.deps, pool] at framed ⊢
    exact framed covered

theorem ensures_threadExit (t : Task) (ok : Bool) (timestamp : Timespec) (w : TimerWorld)
    (slots : SlotsOk w.pool.timers) :
    Ensures (threadExit t ok timestamp) ⟨[], w⟩ fun _ h' => Trades t.returned w h'.state := by
  have done (s : TaskState) := sameTasks_setTaskState w.db s t.name timestamp
  unfold threadExit
  cases ok with
  | true => exact ensures_bind (ensures_updateDB _ (ensures_threadEnd t slots rfl (done stateDone)))
  | false =>
    refine ensures_bind (ensures_updateDB _ (ensures_bind (ensures_updateDB _ ?_)))
    exact ensures_threadEnd t slots rfl
      (sameTasks_trans (done stateFailed) (sameTasks_setTaskPID _ (-1) t.name))

end Trades

def Load.claim (l : Load) : List TaskDep := if l.released then [] else l.task.trig

def claimed (loads : List Load) : List TaskDep := loads.flatMap Load.claim

structure TimerLife.Inv (w : TimerLife) : Prop where
  slots : SlotsOk w.world.pool.timers
  covered : ∀ e, timerCount e (allDeps w.world.db.taskSet) + timerCount e (claimed w.loads) ≤
    w.world.pool.refs e
  names : w.world.db.names.Nodup
  loaded : ∀ t ∈ w.world.db.taskSet, ∃ l, w.loadOf t.name = some l ∧ l.task.identity = t.identity
  released : ∀ l ∈ w.loads, l.released = true → timerEvents l.task.trig ≠ [] →
    l.started = true ∧ l.task.triggerRearm = false

theorem timerEvents_count (e : String) (deps : List TaskDep) :
    (timerEvents deps).count e = timerCount e deps := by
  induction deps with
  | nil => rfl
  | cons dep deps ih =>
    obtain ⟨name, event⟩ := dep
    by_cases timer : name = timerDepName
    · simp_all [timerEvents, timerCount, count_cons]
    · simp_all [timerEvents, timerCount]

theorem timerEvents_ne_nil {e : String} {deps : List TaskDep} (mem : ⟨timerDepName, e⟩ ∈ deps) :
    timerEvents deps ≠ [] := by
  intro empty
  have none := timerEvents_count e deps
  rw [empty, count_nil] at none
  exact (List.count_pos_iff.2 mem).ne none

section Invariant

variable {w : TimerLife}

theorem inv_kept (inv : w.Inv) : w.Kept := by
  intro t mem e needs
  refine has_of_refs (Nat.lt_of_lt_of_le ?_ (inv.covered e))
  rcases needs with dep | ⟨trig, waits⟩
  · have counted : 0 < timerCount e (allDeps w.world.db.taskSet) :=
      List.count_pos_iff.2 (List.mem_flatMap.2 ⟨t, mem, dep⟩)
    omega
  · obtain ⟨l, found, same⟩ := inv.loaded t mem
    obtain ⟨-, triggers, opts⟩ : l.task.name = t.name ∧ l.task.trig = t.trig ∧
      l.task.opts = t.opts := by
      simpa [Task.identity] using same
    have there : l ∈ w.loads := mem_of_find?_eq_some found
    have unreleased : l.released = false := by
      rw [← Bool.not_eq_true]
      intro released
      obtain ⟨started, once⟩ := inv.released l there released
        (timerEvents_ne_nil (by rwa [triggers]))
      rcases waits with rearm | before
      · rw [Task.triggerRearm, opts] at once
        rw [Task.triggerRearm, once] at rearm
        cases rearm
      · rw [TimerLife.hasStarted, found, Option.any_some, started] at before
        cases before
    have claim : ⟨timerDepName, e⟩ ∈ l.claim := by
      rw [Load.claim, unreleased, triggers]
      exact trig
    have counted : 0 < timerCount e (claimed w.loads) :=
      List.count_pos_iff.2 (List.mem_flatMap.2 ⟨l, there, claim⟩)
    omega

variable {loads : List Load} {l : Load}

theorem loadOf_same (same : loads.map Load.task = w.loads.map Load.task) {n : String}
    (found : w.loadOf n = some l) :
    ∃ l', loads.find? (fun l => l.task.name = n) = some l' ∧ l'.task = l.task := by
  have mapped := congrArg (List.find? fun t : Task => decide (t.name = n)) same
  rw [find?_map, find?_map] at mapped
  have old : w.loads.find? ((fun t : Task => decide (t.name = n)) ∘ Load.task) = some l := found
  rw [old, Option.map_some] at mapped
  exact Option.map_eq_some_iff.1 mapped

theorem inv_trade {world : TimerWorld} {given : List TaskDep} (inv : w.Inv)
    (trade : Trades given w.world world) (same : loads.map Load.task = w.loads.map Load.task)
    (claims : ∀ e, timerCount e (claimed loads) + timerCount e given ≤
      timerCount e (claimed w.loads))
    (released : ∀ l ∈ loads, l.released = true → timerEvents l.task.trig ≠ [] →
      l.started = true ∧ l.task.triggerRearm = false) : (⟨world, loads⟩ : TimerLife).Inv := by
  refine ⟨trade.slots, fun e => ?_, ?_, fun t mem => ?_, released⟩
  · have covered := inv.covered e
    have after := trade.covered e (timerCount e (claimed loads))
    have fewer := claims e
    simp only [timerCount, count_append] at after covered fewer ⊢
    omega
  · have names := congrArg (List.map Prod.fst) trade.same
    rw [map_map, map_map] at names
    have kept : world.db.names = w.world.db.names := names
    rw [kept]
    exact inv.names
  · have there : t.identity ∈ w.world.db.taskSet.map Task.identity := by
      rw [← trade.same]
      exact mem_map_of_mem mem
    obtain ⟨old, oldMem, sameTask⟩ := List.mem_map.1 there
    obtain ⟨l, found, identity⟩ := inv.loaded old oldMem
    have name : old.name = t.name := congrArg Prod.fst sameTask
    rw [name] at found
    obtain ⟨l', found', task⟩ := loadOf_same same found
    exact ⟨l', found', by rw [task, identity, sameTask]⟩

theorem addTimers_refs (entries : List (TimerSys × String)) {p : TimerDB} (ok : SlotsOk p.timers)
    (room : p.slots.length + entries.length ≤ timerDbInitialCap)
    (answers : ∀ entry ∈ entries, entry.1.fd ≠ -1 ∧ entry.1.settimeOk = true) :
    SlotsOk (addTimers entries p).timers ∧
      ∀ e, (addTimers entries p).refs e = p.refs e + (entries.map Prod.snd).count e := by
  induction entries generalizing p with
  | nil => exact ⟨ok, fun e => rfl⟩
  | cons entry entries ih =>
    obtain ⟨opened, set⟩ := answers entry mem_cons_self
    rw [length_cons] at room
    obtain ⟨added, length, refs⟩ := addTimer_refs (e := entry.2) ok ⟨by omega, opened, set⟩
    obtain ⟨kept, all⟩ := ih added (by omega) fun later mem =>
      answers later (mem_cons_of_mem _ mem)
    refine ⟨kept, fun e => (all e).trans ?_⟩
    rw [refs, map_cons, count_cons]
    by_cases same : e = entry.2
    · rw [if_pos same, if_pos (beq_iff_eq.2 same.symm)]
      omega
    · rw [if_neg same, if_neg (mt beq_iff_eq.1 (Ne.symm same))]
      omega

theorem timerCount_updateFirst (e n : String) (t : Task) (ts : List Task) :
    timerCount e (allDeps (updateFirst n (fun _ => t) ts)) ≤ timerCount e (allDeps ts) +
      timerCount e t.deps := by
  induction ts with
  | nil => exact Nat.zero_le _
  | cons u us ih =>
    rw [updateFirst]
    simp only [timerCount, allDeps] at ih ⊢
    split_ifs
    · simp only [flatMap_cons, count_append]
      omega
    · simp only [flatMap_cons, count_append]
      omega

theorem insert_count {db : TaskDB} {t : Task} {overwrite : Bool} {env : InsertEnv}
    (ok : (db.insert t overwrite env).ret = 0) (e : String) :
    timerCount e (allDeps (db.insert t overwrite env).db.taskSet) ≤
      timerCount e (allDeps db.taskSet) + timerCount e t.deps := by
  obtain ⟨db₁, slotted, result⟩ := insert_slotted ok
  rw [result, copied_set]
  cases slotted with
  | replaced => exact timerCount_updateFirst e t.name t db.taskSet
  | appended => simp [timerCount, allDeps]

theorem inv_load (inv : w.Inv) (l : TaskLoad) {overwrite : Bool} {env : InsertEnv}
    (ok : (w.world.db.insert l.new.task overwrite env).ret = 0)
    (room : w.world.pool.slots.length + l.entries.length ≤ timerDbInitialCap)
    (answers : ∀ entry ∈ l.entries, entry.1.fd ≠ -1 ∧ entry.1.settimeOk = true) :
    (⟨⟨addTimers l.entries w.world.pool, (w.world.db.insert l.new.task overwrite env).db⟩,
      { task := l.new.task } :: w.loads⟩ : TimerLife).Inv := by
  obtain ⟨slots, refs⟩ := addTimers_refs l.entries inv.slots room answers
  have names : (w.world.db.insert l.new.task overwrite env).db.names.Nodup :=
    nodup_apply (.insert l.new overwrite env) inv.names
  refine ⟨slots, fun e => ?_, names, fun t mem => ?_, fun l' mem released => ?_⟩
  · have before := inv.covered e
    have count := insert_count ok e
    have added : (l.entries.map Prod.snd).count e =
      timerCount e (l.new.task.deps ++ l.new.task.trig) := by
      rw [l.complete.count_eq, timerEvents_count]
    have claims : timerCount e (claimed ({ task := l.new.task } :: w.loads)) =
        timerCount e l.new.task.trig + timerCount e (claimed w.loads) := by
      simp [timerCount, claimed, Load.claim]
    rw [claims, refs, added]
    simp only [timerCount, count_append] at *
    omega
  · have found := find_of_mem names mem
    by_cases same : t.name = l.new.task.name
    · rw [same, insert_found ok] at found
      cases found
      exact ⟨{ task := l.new.task }, by simp [TimerLife.loadOf], rfl⟩
    · have other : l.new.task.name ≠ t.name := Ne.symm same
      have old : t ∈ w.world.db.taskSet := by
        rcases find_before (.insert l.new overwrite env) found with ⟨_, _, _, call, inserted⟩
          | ⟨t', before, change⟩
        · cases call
          exact (same (by rw [inserted])).elim
        · have kept : t = t' := change
          rw [kept]
          exact find_mem before
      obtain ⟨l', there, identity⟩ := inv.loaded t old
      exact ⟨l', by simpa [TimerLife.loadOf, other] using there, identity⟩
  · rcases List.mem_cons.1 mem with rfl | mem
    · cases released
    · exact inv.released l' mem released

theorem startFirst_tasks (n : String) (loads : List Load) :
    (startFirst n loads).map Load.task = loads.map Load.task ∧ claimed
    (startFirst n loads) = claimed loads := by
  induction loads with
  | nil => exact ⟨rfl, rfl⟩
  | cons l ls ih =>
    rw [startFirst]
    split_ifs
    · exact ⟨rfl, rfl⟩
    · exact ⟨congrArg (l.task :: ·) ih.1, congrArg (l.claim ++ ·) ih.2⟩

theorem mem_startFirst {n : String} (mem : l ∈ startFirst n loads) :
    l ∈ loads ∨ ∃ old ∈ loads, l = old.start := by
  induction loads with
  | nil => cases mem
  | cons x xs ih =>
    rw [startFirst] at mem
    split_ifs at mem
    · rcases List.mem_cons.1 mem with rfl | mem
      · exact .inr ⟨x, mem_cons_self, rfl⟩
      · exact .inl (mem_cons_of_mem x mem)
    · rcases List.mem_cons.1 mem with rfl | mem
      · exact .inl mem_cons_self
      · rcases ih mem with old | ⟨old, there, same⟩
        · exact .inl (mem_cons_of_mem x old)
        · exact .inr ⟨old, mem_cons_of_mem x there, same⟩

theorem modify_split {k : Nat} (there : loads[k]? = some l) (f : Load → Load) :
    ∃ pre post, loads = pre ++ l :: post ∧ loads.modify k f = pre ++ f l :: post := by
  induction loads generalizing k with
  | nil => cases there
  | cons x xs ih =>
    cases k with
    | zero =>
      cases there
      exact ⟨[], xs, rfl, rfl⟩
    | succ k =>
      obtain ⟨pre, post, split, modified⟩ := ih there
      exact ⟨x :: pre, post, by rw [split]; rfl, by rw [modify_succ_cons, modified]; rfl⟩

/-- What a thread of the load may give back: it does not release the timers, has none, or
is the first one to do so, after the task was started. -/
def Load.MayExit (l : Load) : Prop :=
  l.task.triggerRearm = true ∨ timerEvents l.task.trig = [] ∨ l.started = true ∧ l.released = false

/-- The pool has room for all timers of a load and the kernel gives them, and a task that
is not rearmed gives its timers back once, after its start. -/
def TimerLife.Orderly (w : TimerLife) : TimerEvent → Prop
  | .load l _ _ => w.world.pool.slots.length + l.entries.length ≤ timerDbInitialCap ∧
      ∀ entry ∈ l.entries, entry.1.fd ≠ -1 ∧ entry.1.settimeOk = true
  | .exit k _ _ _ => ∀ l ∈ w.loads[k]?, l.MayExit
  | _ => True

def TimerLife.OrderlyRun (w : TimerLife) : List TimerEvent → Prop
  | [] => True
  | event :: events => w.Orderly event ∧ ∀ w' ∈ w.step event, w'.OrderlyRun events

instance (l : Load) : Decidable l.MayExit :=
  inferInstanceAs (Decidable (_ ∨ _ ∨ _))

instance TimerLife.decOrderly (w : TimerLife) : (event : TimerEvent) → Decidable (w.Orderly event)
  | .load l _ _ => inferInstanceAs (Decidable (_ ∧ ∀ entry ∈ l.entries, _))
  | .exit k _ _ _ => inferInstanceAs (Decidable (∀ l ∈ w.loads[k]?, l.MayExit))
  | .fulfil _ => .isTrue trivial
  | .removeDep _ _ => .isTrue trivial
  | .start _ => .isTrue trivial

instance TimerLife.decOrderlyRun :
    (w : TimerLife) → (events : List TimerEvent) → Decidable (w.OrderlyRun events)
  | _, [] => .isTrue trivial
  | w, event :: events =>
    have := fun w' => decOrderlyRun w' events
    inferInstanceAs (Decidable (w.Orderly event ∧ ∀ w' ∈ w.step event, w'.OrderlyRun events))

theorem if_nil_count (c : Bool) (deps : List TaskDep) (e : String) :
    timerCount e (if c then [] else deps) ≤ timerCount e deps := by
  cases c with
  | true => exact Nat.zero_le _
  | false => exact Nat.le_refl _

theorem inv_exit (inv : w.Inv) {k : Nat} (there : w.loads[k]? = some l) (may : l.MayExit)
    {world : TimerWorld} (trade : Trades l.task.returned w.world world) :
    (⟨world, w.loads.modify k Load.release⟩ : TimerLife).Inv := by
  obtain ⟨pre, post, split, modified⟩ := modify_split there Load.release
  have old : ∀ l' ∈ w.loads, l'.released = true → timerEvents l'.task.trig ≠ [] →
    l'.started = true ∧ l'.task.triggerRearm = false := inv.released
  rw [split] at old
  rw [modified]
  refine inv_trade inv trade (by rw [split]; simp [Load.release]) (fun e => ?_) fun l' mem released
    timers => ?_
  · have own : timerCount e l.release.claim + timerCount e l.task.returned ≤
      timerCount e l.claim := by
      rcases may with rearm | none | ⟨-, held⟩
      · simp [Load.claim, Load.release, Task.returned, rearm, timerCount]
      · have zero : timerCount e l.task.trig =
          0 := by rw [← timerEvents_count, none, count_nil]
        have claim : timerCount e l.release.claim ≤ timerCount e l.task.trig := if_nil_count _ _ e
        have returned : timerCount e l.task.returned ≤ timerCount e l.task.trig :=
          if_nil_count _ _ e
        omega
      · by_cases rearm : l.task.triggerRearm = true
        · simp [Load.claim, Load.release, Task.returned, rearm, timerCount]
        · simp [Load.claim, Load.release, Task.returned, rearm, held, timerCount]
    rw [split]
    simp only [claimed, flatMap_append, flatMap_cons, timerCount, count_append] at own ⊢
    omega
  · rcases List.mem_append.1 mem with mem | mem
    · exact old l' (mem_append_left _ mem) released timers
    · rcases List.mem_cons.1 mem with rfl | mem
      · have here := old l (mem_append_right _ mem_cons_self)
        by_cases rearm : l.task.triggerRearm = true
        · exact here (by simpa [Load.release, rearm] using released) timers
        · rcases may with again | none | ⟨started, -⟩
          · exact (rearm again).elim
          · exact (timers none).elim
          · exact ⟨started, Bool.eq_false_iff.2 rearm⟩
      · exact old l' (mem_append_right _ (mem_cons_of_mem l mem)) released timers

theorem inv_step (inv : w.Inv) {event : TimerEvent} (orderly : w.Orderly event) {w' : TimerLife}
    (stepped : w.step event = some w') : w'.Inv := by
  have unchanged {world : TimerWorld} (trade : Trades [] w.world world) :
    ({ w with world := world } : TimerLife).Inv :=
    inv_trade inv trade rfl (fun _ => Nat.le_refl _) inv.released
  cases event with
  | load l overwrite env =>
    rw [TimerLife.step] at stepped
    split_ifs at stepped with ok
    cases stepped
    exact inv_load inv l ok orderly.1 orderly.2
  | fulfil dep =>
    obtain ⟨r, ran, same⟩ := Option.map_eq_some_iff.1 stepped
    cases same
    exact unchanged (ensures_result (ensures_fulfillDep dep w.world inv.slots) ran)
  | removeDep dep n =>
    obtain ⟨r, ran, same⟩ := Option.map_eq_some_iff.1 stepped
    cases same
    exact unchanged (ensures_result (ensures_removeDepFromTask dep n w.world inv.slots) ran)
  | start n =>
    rw [TimerLife.step] at stepped
    split at stepped
    · cases stepped
    · split_ifs at stepped
      cases stepped
      have tasks := sameTasks_update w.world.db n (f := Task.setState stateStarting) fun _ =>
        ⟨rfl, rfl⟩
      obtain ⟨same, claims⟩ := startFirst_tasks n w.loads
      have trade : Trades [] w.world
        { w.world with db := w.world.db.update n (Task.setState stateStarting) } := by
        refine ⟨tasks.same, inv.slots, fun e rest covered => ?_⟩
        rw [append_nil] at covered
        rw [tasks.deps]
        exact covered
      refine inv_trade inv trade same (fun e => by rw [claims]; exact Nat.le_refl _) fun l mem
        released timers => ?_
      · rcases mem_startFirst mem with old | ⟨old, there, rfl⟩
        · exact inv.released l old released timers
        · exact ⟨rfl, (inv.released old there released timers).2⟩
  | exit k mode ok timestamp =>
    rw [TimerLife.step] at stepped
    split at stepped
    · cases stepped
    · rename_i l there
      split_ifs at stepped
      obtain ⟨r, ran, same⟩ := Option.map_eq_some_iff.1 stepped
      cases same
      exact inv_exit inv there (orderly l there)
        (ensures_result (ensures_threadExit l.task ok timestamp w.world inv.slots) ran)

theorem inv_run (inv : w.Inv) (events : List TimerEvent) (orderly : w.OrderlyRun events)
    {w' : TimerLife} (ran : w.run events = some w') : w'.Inv := by
  induction events generalizing w with
  | nil =>
    cases ran
    exact inv
  | cons event events ih =>
    obtain ⟨next, stepped, rest⟩ := Option.bind_eq_some_iff.1 ran
    exact ih (inv_step inv orderly.1 stepped) (orderly.2 next stepped) rest

end Invariant

/-- A part of a run is a run, so this speaks of every state on the way. -/
theorem timers_kept {events : List TimerEvent} {w : TimerLife}
    (orderly : ({} : TimerLife).OrderlyRun events)
    (ran : ({} : TimerLife).run events = some w) : w.Kept := by
  have initial : ({} : TimerLife).Inv := {
    slots := ⟨nodup_nil, fun _ mem => nomatch mem⟩
    covered := fun _ => Nat.zero_le _
    names := nodup_nil
    loaded := fun _ mem => nomatch mem
    released := fun _ mem => nomatch mem }
  exact inv_kept (inv_run initial events orderly ran)

def dailyDep : TaskDep := ⟨timerDepName, "daily"⟩

def syncTask : Task where
  name := "sync"
  cmds := [["/bin/sync"]]
  trig := [dailyDep]
  triggered := false
  opts := optRespawn

def sync : TaskLoad where
  new := ⟨syncTask, rfl, rfl, rfl, rfl, rfl⟩
  entries := [({}, "daily")]
  complete := .refl _

def reportTask : Task where
  name := "report"
  cmds := [["/bin/report"]]
  deps := [⟨provideDepName, "network"⟩]
  trig := [dailyDep]
  triggered := false

def report : TaskLoad where
  new := ⟨reportTask, rfl, rfl, rfl, rfl, rfl⟩
  entries := [({}, "daily")]
  complete := .refl _

def firstRun : List TimerEvent :=
  [.load sync false {}, .load report false {}, .fulfil dailyDep, .start "sync",
    .exit 1 .start true {}]

def afterFirstRun : TimerLife := (({} : TimerLife).run firstRun).getD {}

/-- The timer is kept for `report`, which was not started. -/
theorem timers_kept_first_run : ({} : TimerLife).OrderlyRun firstRun ∧
    ({} : TimerLife).run firstRun = some afterFirstRun ∧ afterFirstRun.Kept := by
  have orderly : ({} : TimerLife).OrderlyRun firstRun := by decide +kernel
  have ran : ({} : TimerLife).run firstRun = some afterFirstRun := by decide +kernel
  exact ⟨orderly, ran, timers_kept orderly ran⟩

def secondRun : List TimerEvent := firstRun ++ [.start "sync", .exit 1 .start true {}]

def afterSecondRun : TimerLife := (({} : TimerLife).run secondRun).getD {}

/-- Both ends of `sync` give a reference back although it took one only, so `report` loses
its timer. -/
theorem respawn_drops_timer : ({} : TimerLife).run secondRun = some afterSecondRun ∧
      ¬ afterSecondRun.Kept := by
  refine ⟨by decide +kernel, fun kept => ?_⟩
  have waiting : ∃ t ∈ afterSecondRun.world.db.taskSet, dailyDep ∈ t.trig ∧
    afterSecondRun.hasStarted t.name = false := by
    decide +kernel
  obtain ⟨t, mem, trig, before⟩ := waiting
  have gone : afterSecondRun.world.pool.has "daily" = false := by decide +kernel
  rw [kept t mem "daily" (.inr ⟨trig, .inr before⟩)] at gone
  cases gone

end Crinit
