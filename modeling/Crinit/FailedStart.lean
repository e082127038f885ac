import Crinit.Frame

/-! A dispatch thread that does not start. `crinitTaskDBSpawnReady` stores STARTING before it asks
for the thread, and clears that bit when there is none. -/
namespace Crinit

open List

structure ThreadStart where
  mallocOk : Bool := true
  attrInitOk : Bool := true
  detachOk : Bool := true
  stackSizeOk : Bool := true
  createOk : Bool := true
  deriving DecidableEq, Repr

def procDispatchSpawnFunc (sys : Task → ThreadStart) (t : Task) (_mode : Mode) : Bool :=
  if !(sys t).mallocOk then false
  else if !(sys t).attrInitOk then false
  else if !(sys t).detachOk then false
  else if !(sys t).stackSizeOk then false
  else (sys t).createOk

structure StartFails (db : TaskDB) (mode : Mode) (spawnFunc : Task → Mode → Bool) (i : Nat)
    (t : Task) : Prop where
  allowed : db.spawnInhibit = false
  slot : db.taskSet[i]? = some t
  ready : taskIsReady t = true
  refused : spawnFunc (t.setState stateStarting) mode = false
  started : ∀ u ∈ db.taskSet.take i, taskIsReady u = true →
    spawnFunc (u.setState stateStarting) mode = true

def afterStart (u : Task) : Task := if taskIsReady u then u.setState stateStarting else u

section Loop

variable {f : Task → Bool} {ts : List Task} {i : Nat} {t : Task}

theorem spawnLoop_passed (started : ∀ u ∈ ts, taskIsReady u = true →
    f (u.setState stateStarting) = true) (rest : List Task) :
    (spawnLoop f (ts ++ rest)).1 = (spawnLoop f rest).1 ∧
      (spawnLoop f (ts ++ rest)).2.1 = ts.map afterStart ++ (spawnLoop f rest).2.1 := by
  induction ts with
  | nil => exact ⟨rfl, rfl⟩
  | cons u us ih =>
    obtain ⟨ret, slots⟩ := ih fun v mem => started v (mem_cons_of_mem _ mem)
    rw [cons_append, map_cons, cons_append]
    cases ready : taskIsReady u with
    | false =>
      rw [spawnLoop_skip f u _ ready, afterStart, if_neg (by rw [ready]; decide)]
      exact ⟨ret, congrArg (u :: ·) slots⟩
    | true =>
      rw [spawnLoop_start f u _ ready (started u mem_cons_self ready), afterStart, if_pos ready]
      exact ⟨ret, congrArg (u.setState stateStarting :: ·) slots⟩

theorem spawnLoop_refused (slot : ts[i]? = some t) (ready : taskIsReady t = true)
    (refused : f (t.setState stateStarting) = false)
    (started : ∀ u ∈ ts.take i, taskIsReady u = true → f (u.setState stateStarting) = true) :
    (spawnLoop f ts).1 = -1 ∧
      (spawnLoop f ts).2.1 =
        (ts.take i).map afterStart ++ t.setState stateLoaded :: ts.drop (i + 1) := by
  obtain ⟨within, rfl⟩ := List.getElem?_eq_some_iff.1 slot
  have split : ts = ts.take i ++ ts[i] :: ts.drop (i + 1) := by
    rw [← drop_eq_getElem_cons within, take_append_drop]
  obtain ⟨ret, slots⟩ := spawnLoop_passed started (ts[i] :: ts.drop (i + 1))
  rw [← split, spawnLoop_fail f _ _ ready refused] at ret slots
  have undone : stateStarting &&& ~~~stateStarting = stateLoaded := by decide
  rw [undone] at slots
  exact ⟨ret, slots⟩

end Loop

/-- What a failed start should leave: its slot with the state word it had, and all slots behind
it as they were. -/
structure LeftAsBefore (db : TaskDB) (r : Result) (i : Nat) : Prop where
  ret : r.ret = -1
  state : (r.db.taskSet[i]?).map Task.state = (db.taskSet[i]?).map Task.state
  later : ∀ j, i < j → r.db.taskSet[j]? = db.taskSet[j]?

section Slots

variable {db : TaskDB} {mode : Mode} {spawnFunc : Task → Mode → Bool} {i : Nat} {t : Task}

section Fails

variable (fails : StartFails db mode spawnFunc i t)
include fails

theorem startFails_result :
    (db.spawnReady mode (some spawnFunc)).ret = -1 ∧
      (db.spawnReady mode (some spawnFunc)).db.taskSet =
        (db.taskSet.take i).map afterStart ++ t.setState stateLoaded :: db.taskSet.drop
        (i + 1) := by
  unfold TaskDB.spawnReady
  rw [fails.allowed]
  exact spawnLoop_refused (f := fun t => spawnFunc t mode) fails.slot fails.ready fails.refused
    fails.started

theorem passed_length :
    ((db.taskSet.take i).map afterStart).length = i := by
  have within := (List.getElem?_eq_some_iff.1 fails.slot).1
  rw [length_map, length_take_of_le (Nat.le_of_lt within)]

theorem startFails_slot :
    (db.spawnReady mode (some spawnFunc)).db.taskSet[i]? = some (t.setState stateLoaded) := by
  have before := passed_length fails
  rw [(startFails_result fails).2, getElem?_append_right (Nat.le_of_eq before), before,
    Nat.sub_self]
  rfl

theorem startFails_later {j : Nat} (later : i < j) :
    (db.spawnReady mode (some spawnFunc)).db.taskSet[j]? = db.taskSet[j]? := by
  have before := passed_length fails
  obtain ⟨k, rfl⟩ := Nat.exists_eq_add_of_lt later
  rw [(startFails_result fails).2, getElem?_append_right (by omega), before,
    show i + k + 1 - i = k + 1 by omega, getElem?_cons_succ, getElem?_drop]
  congr 1
  omega

end Fails

/-- A thread that does not start leaves the task as it was exactly if it was LOADED. -/
theorem failed_start_undone_iff (fails : StartFails db mode spawnFunc i t) :
    LeftAsBefore db (db.spawnReady mode (some spawnFunc)) i ↔ t.state = stateLoaded := by
  have now : ((db.spawnReady mode (some spawnFunc)).db.taskSet[i]?).map Task.state =
      some stateLoaded := by
    rw [startFails_slot fails]
    rfl
  have was : (db.taskSet[i]?).map Task.state = some t.state := by
    rw [fails.slot]
    rfl
  constructor
  · intro kept
    have same := kept.state
    rw [now, was] at same
    exact (Option.some.inj same).symm
  · intro loaded
    refine ⟨(startFails_result fails).1, ?_, fun j later => startFails_later fails later⟩
    rw [now, was, loaded]

end Slots

def noThreads (_ : Task) : ThreadStart := { createOk := false }

def firstStart : TaskDB := { taskSet := [{ name := "net" }, { name := "web" }] }

theorem firstStart_undone :
    LeftAsBefore firstStart (firstStart.spawnReady .start (some (procDispatchSpawnFunc noThreads)))
      0 :=
  (failed_start_undone_iff (t := { name := "net" })
    ⟨rfl, rfl, by decide, by decide, fun _ mem => absurd mem not_mem_nil⟩).2 rfl

def respawning : Task :=
  { name := "net", opts := optRespawn, state := stateFailed, maxRetries := 3, failCount := 3 }

def respawnDb : TaskDB := { taskSet := [respawning] }

theorem failed_respawn_forgotten :
    StartFails respawnDb .start (procDispatchSpawnFunc noThreads) 0 respawning ∧
      (respawnDb.spawnReady .start (some (procDispatchSpawnFunc noThreads))).db.taskSet =
        [respawning.setState stateLoaded] ∧
      ¬ LeftAsBefore respawnDb
        (respawnDb.spawnReady .start (some (procDispatchSpawnFunc noThreads))) 0 := by
  refine ⟨⟨rfl, rfl, by decide, by decide, fun _ mem => absurd mem not_mem_nil⟩, by decide, ?_⟩
  intro kept
  exact absurd kept.state (by decide)

end Crinit
