import Crinit.Frame
import Crinit.Lib.OrderedMap

/-! The TaskDB as a table: what a failed insertion leaves in it, and the tables that insertions
alone lead to. -/
namespace Crinit

open List OrderedMap

def TasksKept (db db' : TaskDB) : Prop := db'.corrupt = false ∧ db'.taskSet = db.taskSet

instance (db db' : TaskDB) : Decidable (TasksKept db db') :=
  inferInstanceAs (Decidable (_ ∧ _))

def InsertAtomic (db : TaskDB) (t : Task) (overwrite : Bool) (env : InsertEnv) : Prop :=
  (db.insert t overwrite env).ret = -1 → TasksKept db (db.insert t overwrite env).db

/-- What may fail without a trace. The old task is destroyed and the new slot is counted
before the task is copied, and the hook runs behind the copy. -/
def InsertUntouched (db : TaskDB) (t : Task) (overwrite : Bool) (env : InsertEnv) : Prop :=
  match db.findTask t.name with
  | some old => overwrite = false ∨
      env.copies t = true ∧ (env.hookOk = true ∨ old = t ∧ env.eventsBehind = true)
  | none => db.taskSet.length = db.taskSetSize ∧ env.growOk = false ∨
      env.copies t = true ∧ env.hookOk = true

theorem updateFirst_same_iff {n : String} {t old : Task} {ts : List Task}
    (found : ts.find? (fun t => t.name = n) = some old) :
    updateFirst n (fun _ => t) ts = ts ↔ old = t := by
  induction ts with
  | nil => cases found
  | cons u us ih =>
    unfold updateFirst
    by_cases here : u.name = n
    · rw [find?_cons_of_pos (by simpa using here)] at found
      cases found
      rw [if_pos here]
      constructor
      · intro same
        exact (List.cons.inj same).1.symm
      · rintro rfl
        rfl
    · rw [find?_cons_of_neg (by simpa using here)] at found
      rw [if_neg here, ← ih found, cons_inj_right]

theorem insert_atomic_iff {db : TaskDB} (intact : db.corrupt = false) (t : Task)
    (overwrite : Bool) (env : InsertEnv) :
    InsertAtomic db t overwrite env ↔ InsertUntouched db t overwrite env := by
  unfold InsertAtomic InsertUntouched TaskDB.insert TasksKept
  cases found : db.findTask t.name with
  | some old =>
    have replaced : (db.update t.name fun _ => t).taskSet = db.taskSet ↔ old = t :=
      updateFirst_same_iff found
    have kept : (db.update t.name fun _ => t).corrupt = false := intact
    cases overwrite with
    | false => simp [intact]
    | true =>
      simp only [Bool.not_true, Bool.false_eq_true, if_false, copied_refused, copied_corrupt,
        copied_set, replaced, kept]
      cases env.copies t <;> cases env.hookOk <;> cases env.eventsBehind <;> simp
  | none =>
    have longer : db.taskSet ++ [t] ≠ db.taskSet := by simp
    by_cases stuck : db.taskSet.length = db.taskSetSize ∧ env.growOk = false
    · simp [stuck, intact]
    · have grows : ¬(decide (db.taskSet.length = db.taskSetSize) && !env.growOk) = true := by
        simpa using stuck
      dsimp only
      rw [if_neg grows, copied_refused, copied_set, or_iff_right stuck, ← Bool.and_eq_true,
        ← Bool.not_eq_false]
      exact ⟨fun atomic failed => longer (atomic failed).2, fun done failed => absurd failed done⟩

def runningNet : TaskDB := { taskSet := [{ name := "net", state := stateRunning, pid := 5 }] }

/-- A collision that is not to be resolved by overwriting. -/
theorem collision_atomic : InsertAtomic runningNet { name := "net" } false {} ↔
    InsertUntouched runningNet { name := "net" } false {} :=
  insert_atomic_iff rfl _ _ _

/-- The new task is refused by the hook and has replaced the running one. -/
theorem hook_failure_overwrites :
    ¬ InsertAtomic runningNet { name := "net", cmds := [["/bin/net"]] } true
      { hookOk := false } := by
  unfold InsertAtomic
  decide

def taskDBInitWithSize (initialSize : Nat) : Option TaskDB :=
  if initialSize < 1 then none else some { taskSetSize := initialSize }

structure TaskInsertion where
  task : Task
  overwrite : Bool
  hookOk : Bool := true
  eventsBehind : Bool := true

def TaskInsertion.entry (i : TaskInsertion) : Insertion String Task :=
  ⟨i.task.name, i.task, i.overwrite⟩

/-- The copy in the TaskDB reads like the task. -/
def TaskInsertion.copied (i : TaskInsertion) : Bool := i.task.hasArguments && i.eventsBehind

/-- Refused because of the name: some earlier insertion had it. -/
def TaskInsertion.Collides (i : TaskInsertion) (earlier : List TaskInsertion) : Prop :=
  i.overwrite = false ∧ ∃ j ∈ earlier, j.task.name = i.task.name

def AllCopied (is : List TaskInsertion) : Prop :=
  ∀ earlier i, earlier ++ [i] <+: is → i.Collides earlier ∨ i.copied = true

/-- All allocations succeed. -/
def TaskDB.insertOne (db : TaskDB) (i : TaskInsertion) : TaskDB :=
  (db.insert i.task i.overwrite { hookOk := i.hookOk, eventsBehind := i.eventsBehind }).db

def TaskDB.insertAll (db : TaskDB) (is : List TaskInsertion) : TaskDB := is.foldl insertOne db

/-- The ordered map: every slot is legible, the array has room for its tasks, their names are
distinct and in the order of the first insertions, and a name is found with the task last accepted
for it. -/
structure RefinesMap (db : TaskDB) (is : List TaskInsertion) : Prop where
  legible : db.corrupt = false
  room : db.taskSet.length ≤ db.taskSetSize
  distinct : db.names.Nodup
  order : db.names = (is.map fun i => i.task.name).eraseDups
  last : ∀ n, db.findTask n =
    ((accepted (is.map TaskInsertion.entry)).filter fun e => e.key = n).getLast?.map
      Insertion.value

structure TableOf (db : TaskDB) (m : Map String Task) : Prop where
  legible : db.corrupt = false
  sized : 0 < db.taskSetSize
  room : db.taskSet.length ≤ db.taskSetSize
  represents : Represents Task.name db.taskSet m

section Refinement

variable {db : TaskDB} {m : Map String Task} {i : TaskInsertion} {is : List TaskInsertion}

theorem tableOf_init {initialSize : Nat} (init : taskDBInitWithSize initialSize = some db) :
    TableOf db empty := by
  unfold taskDBInitWithSize at init
  split_ifs at init with small
  cases init
  exact ⟨rfl, Nat.not_lt.1 small, Nat.zero_le _, represents_empty _⟩

theorem copied_all_iff (db : TaskDB) (i : TaskInsertion) :
    (db.copied i.task { hookOk := i.hookOk, eventsBehind := i.eventsBehind }).db =
      { db with corrupt := db.corrupt || !i.copied } := by
  obtain ⟨_, frame⟩ := copied_frame db i.task { hookOk := i.hookOk, eventsBehind := i.eventsBehind }
  have corrupt := copied_corrupt db i.task { hookOk := i.hookOk, eventsBehind := i.eventsBehind }
  rw [frame] at corrupt ⊢
  dsimp only at corrupt
  rw [corrupt, InsertEnv.copies, Bool.true_and]
  rfl

theorem insertOne_eq (db : TaskDB) (i : TaskInsertion) : db.insertOne i =
    match db.findTask i.task.name with
    | some _ => if i.overwrite = false then db
        else { db.update i.task.name (fun _ => i.task) with corrupt := db.corrupt || !i.copied }
    | none =>
      { db with
        taskSet := db.taskSet ++ [i.task]
        taskSetSize := if db.taskSet.length = db.taskSetSize then db.taskSetSize * 2
          else db.taskSetSize
        corrupt := db.corrupt || !i.copied } := by
  unfold TaskDB.insertOne TaskDB.insert
  cases db.findTask i.task.name with
  | some old =>
    cases i.overwrite with
    | false => rfl
    | true => exact copied_all_iff _ i
  | none =>
    dsimp only
    rw [if_neg (by simp)]
    exact copied_all_iff _ i

theorem TableOf.collides_iff (table : TableOf db m) (i : TaskInsertion) :
    (∃ old, db.findTask i.task.name = some old) ↔ i.entry.key ∈ m.keys :=
  (table.represents.known i.task.name).symm

theorem TableOf.insertOne (table : TableOf db m)
    (fine : i.overwrite = false ∧ i.entry.key ∈ m.keys ∨ i.copied = true) :
    TableOf (db.insertOne i) (m.insert i.entry) := by
  have known := table.collides_iff i
  rw [insertOne_eq, Map.insert]
  cases found : db.findTask i.task.name with
  | some old =>
    have old : i.entry.key ∈ m.keys := known.1 ⟨old, found⟩
    dsimp only
    split_ifs with keep refused refused
    · exact table
    · exact absurd ⟨keep, old⟩ refused
    · exact absurd refused.1 keep
    · have named : ∀ t : Task, t.name = i.task.name → i.task.name = i.task.name := fun _ _ => rfl
      have names : (db.update i.task.name fun _ => i.task).taskSet.map Task.name =
        db.taskSet.map Task.name := updateFirst_names _ _ named _
      refine ⟨?_, table.sized, ?_, table.represents.replace i.task old names fun k => ?_⟩
      · rw [table.legible, fine.resolve_left refused]
        rfl
      · have same := congrArg List.length names
        rw [length_map, length_map] at same
        exact same ▸ table.room
      · rw [TaskDB.update, updateFirst_find _ _ _ named]
        by_cases here : k = i.task.name
        · subst here
          rw [if_pos rfl, if_pos rfl]
          exact congrArg (Option.map fun _ => i.task) found
        · rw [if_neg (Ne.symm here), if_neg here]
  | none =>
    have new : i.entry.key ∉ m.keys := by
      intro old
      obtain ⟨t, there⟩ := known.2 old
      exact absurd (found.symm.trans there) (by simp)
    dsimp only
    rw [if_neg fun refused : _ ∧ i.entry.key ∈ m.keys => new refused.2]
    have sized := table.sized
    have room := table.room
    refine ⟨?_, ?_, ?_, table.represents.append i.task new⟩
    · rw [table.legible, fine.resolve_left fun refused => new refused.2]
      rfl
    · dsimp only
      split_ifs <;> omega
    · dsimp only
      rw [length_append, length_singleton]
      split_ifs <;> omega

/-- A slot that is not legible stays so. -/
theorem insertOne_legible (table : db.corrupt = false → TableOf db m)
    (legible : (db.insertOne i).corrupt = false) :
    db.corrupt = false ∧ (i.overwrite = false ∧ i.entry.key ∈ m.keys ∨ i.copied = true) := by
  rw [insertOne_eq] at legible
  cases found : db.findTask i.task.name with
  | some old =>
    rw [found] at legible
    dsimp only at legible
    split_ifs at legible with keep
    · exact ⟨legible, .inl ⟨keep, ((table legible).collides_iff i).1 ⟨old, found⟩⟩⟩
    · simp only [Bool.or_eq_false_iff, Bool.not_eq_eq_eq_not, Bool.not_false] at legible
      exact ⟨legible.1, .inr legible.2⟩
  | none =>
    rw [found] at legible
    simp only [Bool.or_eq_false_iff, Bool.not_eq_eq_eq_not, Bool.not_false] at legible
    exact ⟨legible.1, .inr legible.2⟩

theorem allCopied_nil : AllCopied [] := by
  intro earlier i before
  simp at before

theorem allCopied_snoc : AllCopied (is ++ [i]) ↔
    AllCopied is ∧ (i.Collides is ∨ i.copied = true) := by
  simp only [AllCopied, prefix_concat_iff]
  constructor
  · intro all
    exact ⟨fun earlier j before => all earlier j (.inr before), all is i (.inl rfl)⟩
  · rintro ⟨all, last⟩ earlier j (same | before)
    · obtain ⟨rfl, here⟩ := append_inj' same rfl
      cases here
      exact last
    · exact all earlier j before

theorem collides_known_iff :
    i.overwrite = false ∧ i.entry.key ∈ (run (is.map TaskInsertion.entry)).keys ↔
      i.Collides is := by
  rw [run_keys, mem_eraseDups, map_map, List.mem_map]
  rfl

theorem insertAll_snoc (db : TaskDB) (is : List TaskInsertion) (i : TaskInsertion) :
    db.insertAll (is ++ [i]) = (db.insertAll is).insertOne i := foldl_concat ..

theorem TableOf.insertAll (table : TableOf db empty) (all : AllCopied is) :
    TableOf (db.insertAll is) (run (is.map TaskInsertion.entry)) := by
  induction is using List.reverseRecOn with
  | nil => exact table
  | append_singleton is i ih =>
    obtain ⟨before, last⟩ := allCopied_snoc.1 all
    rw [insertAll_snoc, map_append, map_singleton, run_snoc]
    exact (ih before).insertOne (last.imp_left collides_known_iff.2)

theorem allCopied_of_legible (table : TableOf db empty)
    (legible : (db.insertAll is).corrupt = false) : AllCopied is := by
  induction is using List.reverseRecOn with
  | nil => exact allCopied_nil
  | append_singleton is i ih =>
    rw [insertAll_snoc] at legible
    obtain ⟨before, last⟩ := insertOne_legible (fun before => table.insertAll (ih before)) legible
    exact allCopied_snoc.2 ⟨ih before, last.imp_left collides_known_iff.1⟩

end Refinement

/-- After insertions the TaskDB is the ordered map of them if and only if each of them has an
argument in every command and its events right behind their names, or is refused for its name. -/
theorem taskDB_refines_map_iff {initialSize : Nat} {db : TaskDB}
    (init : taskDBInitWithSize initialSize = some db) (is : List TaskInsertion) :
    RefinesMap (db.insertAll is) is ↔ AllCopied is := by
  constructor
  · exact fun refines => allCopied_of_legible (tableOf_init init) refines.legible
  · intro all
    have table := (tableOf_init init).insertAll all
    have names : (db.insertAll is).names = (run (is.map TaskInsertion.entry)).keys :=
      table.represents.keys
    refine ⟨table.legible, table.room, names ▸ Map.nodup _, ?_, fun n => ?_⟩
    · rw [names, run_keys, map_map]
      rfl
    · rw [← run_value]
      exact table.represents.find n

def netWebNet : List TaskInsertion :=
  [{ task := { name := "net" }, overwrite := false },
    { task := { name := "web", cmds := [["/bin/web", "-d"]] }, overwrite := false,
      hookOk := false },
    { task := { name := "net", pid := 5 }, overwrite := true }]

def emptyWeb : TaskInsertion := { task := { name := "web", cmds := [[]] }, overwrite := false }

/-- The array of one element grows, a hook fails, a task is overwritten, and a second one that
could not be copied is refused for its name. -/
theorem netWebNet_refines : taskDBInitWithSize 1 = some { taskSetSize := 1 } ∧
    RefinesMap (TaskDB.insertAll { taskSetSize := 1 } (netWebNet ++ [emptyWeb]))
      (netWebNet ++ [emptyWeb]) := by
  have copied : AllCopied netWebNet := allCopied_snoc.2 ⟨allCopied_snoc.2
    ⟨allCopied_snoc.2 ⟨allCopied_nil, .inr rfl⟩, .inr rfl⟩, .inr rfl⟩
  have collides : emptyWeb.Collides netWebNet :=
    ⟨rfl, _, mem_cons_of_mem _ mem_cons_self, rfl⟩
  have init : taskDBInitWithSize 1 = some { taskSetSize := 1 } := rfl
  exact ⟨init, (taskDB_refines_map_iff init _).2 (allCopied_snoc.2 ⟨copied, .inl collides⟩)⟩

/-- The task that is overwritten is gone, and the empty COMMAND of the new one is not copied. -/
theorem empty_command_not_refined :
    ¬RefinesMap (TaskDB.insertAll { taskSetSize := 1 }
      [{ task := { name := "net", cmds := [["/bin/net"]] }, overwrite := false },
        { task := { name := "net", cmds := [[]] }, overwrite := true }])
      [{ task := { name := "net", cmds := [["/bin/net"]] }, overwrite := false },
        { task := { name := "net", cmds := [[]] }, overwrite := true }] := by
  intro refines
  have legible := refines.legible
  revert legible
  decide

end Crinit
