import Crinit.TaskDB
import Mathlib.Data.List.Nodup

/-! What one call into the TaskDB can do to the task of a given name. Every invariant about runs
goes through `find_apply` and `find_before`. -/
namespace Crinit

open List

def TaskDB.names (db : TaskDB) : List String := db.taskSet.map Task.name

def DbOp.Inserts (op : DbOp) (t : Task) : Prop :=
  ∃ nt overwrite env, op = .insert nt overwrite env ∧ t = nt.task

def DbOp.overwrites (op : DbOp) (n : String) : Bool :=
  match op with
  | .insert t overwrite _ => overwrite && t.task.name == n
  | _ => false

def DbOp.Changes (op : DbOp) (n : String) (t t' : Task) : Prop :=
  match op with
  | .insert _ _ _ => t' = t
  | .spawnReady _ _ => t' = t ∨ (taskIsReady t = true ∧
      (t' = t.setState stateStarting ∨ t' = t.setState (stateStarting &&& ~~~stateStarting)))
  | .setSpawnInhibit _ => t' = t
  | .rearmTrigger m => t' = if m = n then t.rearm else t
  | .setTaskState s m ts => t' = if m = n then t.withState s ts else t
  | .setTaskPID pid m => t' = if m = n then t.setPid pid else t
  | .setTaskRespawnInhibit inh m => t' = if m = n then t.setInhibitRespawn inh else t
  | .addDepToTask dep m _ => t' = t ∨ (m = n ∧ t' = t.addDep dep)
  | .removeDepFromTask dep m => t' = if m = n then removeDepFromTaskStruct dep t else t
  | .fulfillDep dep none => t' = removeDepFromTaskStruct dep t
  | .fulfillDep dep (some m) => t' = if m = n then removeDepFromTaskStruct dep t else t

@[simp] theorem setPid_name (p : Int) (t : Task) : (t.setPid p).name = t.name := rfl
@[simp] theorem rearm_name (t : Task) : t.rearm.name = t.name := rfl
@[simp] theorem setInhibitRespawn_name (b : Bool) (t : Task) :
    (t.setInhibitRespawn b).name = t.name := rfl
@[simp] theorem addDep_name (d : TaskDep) (t : Task) : (t.addDep d).name = t.name := rfl
@[simp] theorem removeDep_name (d : TaskDep) (t : Task) :
    (removeDepFromTaskStruct d t).name = t.name := rfl
@[simp] theorem setState_name (s : TaskState) (t : Task) : (t.setState s).name = t.name := rfl
@[simp] theorem setState_state (s : TaskState) (t : Task) : (t.setState s).state = s := rfl

theorem withState_frame (t : Task) (s : TaskState) (ts : Timespec) :
    ∃ fails started ended, t.withState s ts =
      { t with state := s, failCount := fails, startTime := started, endTime := ended } := by
  unfold Task.withState
  dsimp only
  split_ifs
  · exact ⟨_, _, _, rfl⟩
  · exact ⟨_, _, _, rfl⟩
  · exact ⟨_, _, _, rfl⟩
  · exact ⟨_, _, _, rfl⟩

@[simp] theorem withState_name (t : Task) (s : TaskState) (ts : Timespec) :
    (t.withState s ts).name = t.name := by
  obtain ⟨_, _, _, h⟩ := withState_frame t s ts
  rw [h]

@[simp] theorem withState_state (t : Task) (s : TaskState) (ts : Timespec) :
    (t.withState s ts).state = s := by
  obtain ⟨_, _, _, h⟩ := withState_frame t s ts
  rw [h]

variable {n : String}

theorem find_name {ts : List Task} {t : Task} (h : ts.find? (fun t => t.name = n) = some t) :
    t.name = n := by
  simpa using find?_some h

variable {db : TaskDB}

theorem find_mem {t : Task} (h : db.findTask n = some t) : t ∈ db.taskSet := mem_of_find?_eq_some h

theorem findTask_name {t : Task} (h : db.findTask n = some t) : t.name = n := find_name h

theorem find_isSome_iff (db : TaskDB) (n : String) :
    (∃ t, db.findTask n = some t) ↔ n ∈ db.names := by
  simp only [TaskDB.findTask, TaskDB.names, mem_map, ← Option.isSome_iff_exists,
    find?_isSome, decide_eq_true_eq]

theorem find_of_mem (nodup : db.names.Nodup) {t : Task} (h : t ∈ db.taskSet) :
    db.findTask t.name = some t := by
  unfold TaskDB.names at nodup
  unfold TaskDB.findTask
  generalize db.taskSet = ts at nodup h
  induction ts with
  | nil => cases h
  | cons u us ih =>
    simp only [map_cons, nodup_cons] at nodup
    rcases List.mem_cons.mp h with rfl | hu
    · simp
    · have ne : u.name ≠ t.name := fun he => nodup.1 (he ▸ mem_map_of_mem hu)
      simpa [find?_cons, ne] using ih nodup.2 hu

theorem updateFirst_names (n : String) (f : Task → Task) (keeps : ∀ t, t.name = n → (f t).name = n)
    (ts : List Task) : (updateFirst n f ts).map Task.name = ts.map Task.name := by
  induction ts with
  | nil => rfl
  | cons t ts ih =>
    simp only [updateFirst]
    split
    · rename_i h
      simp [keeps t h, h]
    · simp [ih]

theorem updateFirst_find (n m : String) (f : Task → Task)
    (keeps : ∀ t, t.name = n → (f t).name = n) (ts : List Task) :
    (updateFirst n f ts).find? (fun t => t.name = m) =
      if n = m then (ts.find? (fun t => t.name = n)).map f else ts.find? (fun t => t.name = m) := by
  induction ts with
  | nil => simp [updateFirst]
  | cons t ts ih =>
    unfold updateFirst
    by_cases ht : t.name = n
    · by_cases hm : n = m
      · subst hm
        simp [ht, keeps t ht]
      · simp [ht, keeps t ht, hm]
    · rw [if_neg ht, find?_cons, find?_cons, find?_cons, ih]
      by_cases hm : n = m
      · subst hm
        simp [ht]
      · simp [hm]

theorem update_find (db : TaskDB) (n m : String) (f : Task → Task)
    (keeps : ∀ t, t.name = n → (f t).name = n) :
    (db.update n f).findTask m = if n = m then (db.findTask n).map f else db.findTask m :=
  updateFirst_find n m f keeps db.taskSet

theorem update_find_self {t : Task} (f : Task → Task) (keeps : ∀ t, (f t).name = t.name)
    (found : db.findTask n = some t) : (db.update n f).findTask n = some (f t) := by
  rw [update_find db n n f (fun u hu => (keeps u).trans hu), if_pos rfl, found, Option.map_some]

theorem map_find (f : Task → Task) (keeps : ∀ t, (f t).name = t.name) (n : String)
    (ts : List Task) :
    (ts.map f).find? (fun t => t.name = n) = (ts.find? (fun t => t.name = n)).map f := by
  induction ts with
  | nil => rfl
  | cons t ts ih =>
    rw [map_cons, find?_cons, find?_cons, keeps, ih]
    by_cases h : t.name = n <;> simp [h]

section Loop
variable (f : Task → Bool) (t : Task) (ts : List Task)

theorem spawnLoop_skip (h : taskIsReady t = false) :
    spawnLoop f (t :: ts) =
      ((spawnLoop f ts).1, t :: (spawnLoop f ts).2.1, (spawnLoop f ts).2.2) := by
  simp [spawnLoop, h]

theorem spawnLoop_start (h : taskIsReady t = true) (ok : f (t.setState stateStarting) = true) :
    spawnLoop f (t :: ts) = ((spawnLoop f ts).1,
      t.setState stateStarting :: (spawnLoop f ts).2.1,
      t.setState stateStarting :: (spawnLoop f ts).2.2) := by
  simp [spawnLoop, h, ok]

theorem spawnLoop_fail (h : taskIsReady t = true) (ok : f (t.setState stateStarting) = false) :
    spawnLoop f (t :: ts) = (-1, t.setState (stateStarting &&& ~~~stateStarting) :: ts, []) := by
  simp [spawnLoop, h, ok]

end Loop

theorem spawnLoop_names (f : Task → Bool) (ts : List Task) :
    (spawnLoop f ts).2.1.map Task.name = ts.map Task.name := by
  induction ts with
  | nil => rfl
  | cons t ts ih =>
    cases ready : taskIsReady t with
    | false => simp [spawnLoop_skip f t ts ready, ih]
    | true =>
      cases ok : f (t.setState stateStarting) with
      | false => simp [spawnLoop_fail f t ts ready ok]
      | true => simp [spawnLoop_start f t ts ready ok, ih]

theorem spawnLoop_find (f : Task → Bool) (n : String) (ts : List Task) (t : Task)
    (found : ts.find? (fun t => t.name = n) = some t) :
    ∃ t', (spawnLoop f ts).2.1.find? (fun t => t.name = n) = some t' ∧
      (t' = t ∨ (taskIsReady t = true ∧ (t' = t.setState stateStarting ∨
        t' = t.setState (stateStarting &&& ~~~stateStarting)))) := by
  induction ts with
  | nil => cases found
  | cons u us ih =>
    by_cases hn : u.name = n
    · have eq : u = t := by simpa [hn] using found
      subst u
      cases ready : taskIsReady t with
      | false => exact ⟨t, by simp [spawnLoop_skip f t us ready, hn], .inl rfl⟩
      | true =>
        cases ok : f (t.setState stateStarting) with
        | false => exact ⟨_, by simp [spawnLoop_fail f t us ready ok, hn], .inr ⟨rfl, .inr rfl⟩⟩
        | true => exact ⟨_, by simp [spawnLoop_start f t us ready ok, hn], .inr ⟨rfl, .inl rfl⟩⟩
    · have rest : us.find? (fun t => t.name = n) = some t := by simpa [hn] using found
      cases ready : taskIsReady u with
      | false => simpa [spawnLoop_skip f u us ready, hn] using ih rest
      | true =>
        cases ok : f (u.setState stateStarting) with
        | false => exact ⟨t, by simp [spawnLoop_fail f u us ready ok, hn, rest], .inl rfl⟩
        | true => simpa [spawnLoop_start f u us ready ok, hn] using ih rest

theorem spawnLoop_started (f : Task → Bool) (ts : List Task) (s : Task)
    (h : s ∈ (spawnLoop f ts).2.2) :
    s ∈ (spawnLoop f ts).2.1 ∧ ∃ t ∈ ts, taskIsReady t = true ∧ s = t.setState stateStarting := by
  induction ts with
  | nil => cases h
  | cons t ts ih =>
    cases ready : taskIsReady t with
    | false =>
      rw [spawnLoop_skip f t ts ready] at h ⊢
      obtain ⟨hs, u, hu, hr⟩ := ih h
      exact ⟨mem_cons_of_mem _ hs, u, mem_cons_of_mem _ hu, hr⟩
    | true =>
      cases ok : f (t.setState stateStarting) with
      | false => rw [spawnLoop_fail f t ts ready ok] at h; cases h
      | true =>
        rw [spawnLoop_start f t ts ready ok] at h ⊢
        rcases List.mem_cons.mp h with rfl | h
        · exact ⟨mem_cons_self .., t, mem_cons_self .., ready, rfl⟩
        · obtain ⟨hs, u, hu, hr⟩ := ih h
          exact ⟨mem_cons_of_mem _ hs, u, mem_cons_of_mem _ hu, hr⟩

theorem spawnLoop_started_names (f : Task → Bool) (ts : List Task) :
    ((spawnLoop f ts).2.2.map Task.name).Sublist (ts.map Task.name) := by
  induction ts with
  | nil => exact List.Sublist.refl _
  | cons t ts ih =>
    cases ready : taskIsReady t with
    | false => simpa [spawnLoop_skip f t ts ready] using ih.cons t.name
    | true =>
      cases ok : f (t.setState stateStarting) with
      | false => simp [spawnLoop_fail f t ts ready ok]
      | true => simpa [spawnLoop_start f t ts ready ok] using ih.cons_cons t.name

theorem findTask_congr {db' : TaskDB} (h : db.taskSet = db'.taskSet) (n : String) :
    db.findTask n = db'.findTask n := by
  unfold TaskDB.findTask
  rw [h]

inductive Shape (op : DbOp) (db db' : TaskDB) : Prop where
  | same (set : db'.taskSet = db.taskSet)
      (change : ∀ n t, db.findTask n = some t → op.Changes n t t)
  | slot (m : String) (g : Task → Task) (names : ∀ t, (g t).name = t.name)
      (set : db'.taskSet = updateFirst m g db.taskSet)
      (change : ∀ n t, op.Changes n t (if m = n then g t else t))
  | all (g : Task → Task) (names : ∀ t, (g t).name = t.name)
      (set : db'.taskSet = db.taskSet.map g) (change : ∀ n t, op.Changes n t (g t))
  | scan (f : Task → Bool) (set : db'.taskSet = (spawnLoop f db.taskSet).2.1)
      (call : ∃ mode g, op = .spawnReady mode g)
  | overwritten (nt : Task) (inserts : op.Inserts nt) (overwrites : op.overwrites nt.name = true)
      (set : db'.taskSet = updateFirst nt.name (fun _ => nt) db.taskSet)
  | appended (nt : Task) (inserts : op.Inserts nt) (absent : db.findTask nt.name = none)
      (set : db'.taskSet = db.taskSet ++ [nt])

theorem copied_frame (db : TaskDB) (t : Task) (env : InsertEnv) :
    ∃ corrupt, (db.copied t env).db = { db with corrupt := corrupt } := by
  unfold TaskDB.copied
  dsimp only
  split_ifs
  · exact ⟨_, rfl⟩
  · exact ⟨_, rfl⟩
  · exact ⟨_, rfl⟩

theorem copied_set (db : TaskDB) (t : Task) (env : InsertEnv) :
    (db.copied t env).db.taskSet = db.taskSet := by
  obtain ⟨_, frame⟩ := copied_frame db t env
  rw [frame]

theorem copied_corrupt (db : TaskDB) (t : Task) (env : InsertEnv) :
    (db.copied t env).db.corrupt = (db.corrupt || !(env.copies t && env.eventsBehind)) := by
  unfold TaskDB.copied
  cases env.copies t <;> cases env.hookOk <;> simp

theorem copied_refused (db : TaskDB) (t : Task) (env : InsertEnv) :
    (db.copied t env).ret = -1 ↔ (env.copies t && env.hookOk) = false := by
  unfold TaskDB.copied
  cases env.copies t <;> cases env.hookOk <;> simp

/-- The TaskDB that the new task has got its slot in. -/
inductive Slotted (db : TaskDB) (t : Task) (overwrite : Bool) : TaskDB → Prop where
  | replaced {old : Task} (found : db.findTask t.name = some old) (allowed : overwrite = true) :
      Slotted db t overwrite (db.update t.name fun _ => t)
  | appended (size : Nat) (absent : db.findTask t.name = none) :
      Slotted db t overwrite { db with taskSet := db.taskSet ++ [t], taskSetSize := size }

theorem insert_cases (db : TaskDB) (t : Task) (overwrite : Bool) (env : InsertEnv) :
    db.insert t overwrite env = ⟨-1, db, false, []⟩ ∨
      ∃ db₁, Slotted db t overwrite db₁ ∧ db.insert t overwrite env = db₁.copied t env := by
  unfold TaskDB.insert
  cases found : db.findTask t.name with
  | some old =>
    cases overwrite with
    | false => exact .inl rfl
    | true => exact .inr ⟨_, .replaced found rfl, rfl⟩
  | none =>
    dsimp only
    split_ifs
    · exact .inl rfl
    · exact .inr ⟨_, .appended _ found, rfl⟩
    · exact .inr ⟨_, .appended _ found, rfl⟩

theorem insert_shape (db : TaskDB) (nt : NewTask) (overwrite : Bool) (env : InsertEnv) :
    Shape (.insert nt overwrite env) db (db.insert nt.task overwrite env).db := by
  have inserts : (DbOp.insert nt overwrite env).Inserts nt.task := ⟨nt, overwrite, env, rfl, rfl⟩
  rcases insert_cases db nt.task overwrite env with same | ⟨db₁, slotted, result⟩
  · rw [same]
    exact .same rfl (fun _ _ _ => rfl)
  · rw [result]
    cases slotted with
    | replaced found allowed =>
      exact .overwritten nt.task inserts (by simp [DbOp.overwrites, allowed]) (copied_set _ _ _)
    | appended size absent => exact .appended nt.task inserts absent (copied_set _ _ _)

theorem insert_ret (db : TaskDB) (t : Task) (overwrite : Bool) (env : InsertEnv) :
    (db.insert t overwrite env).ret = 0 ∨ (db.insert t overwrite env).ret = -1 := by
  rcases insert_cases db t overwrite env with same | ⟨db₁, -, result⟩
  · rw [same]
    exact .inr rfl
  · rw [result, TaskDB.copied]
    dsimp only
    split_ifs <;> first | exact .inl rfl | exact .inr rfl

theorem slotted_find {t : Task} {overwrite : Bool} {db₁ : TaskDB}
    (slotted : Slotted db t overwrite db₁) (n : String) :
    db₁.findTask n = if n = t.name then some t else db.findTask n := by
  cases slotted with
  | replaced found =>
    rw [update_find _ _ _ _ (fun _ _ => rfl), found]
    simp only [eq_comm, Option.map_some]
  | appended size absent =>
    have none : db.taskSet.find? (fun u => u.name = t.name) = none := absent
    unfold TaskDB.findTask
    rw [find?_append]
    by_cases same : n = t.name
    · subst same
      simp [none]
    · simp [same, Ne.symm same]

theorem insert_slotted {t : Task} {overwrite : Bool} {env : InsertEnv}
    (ok : (db.insert t overwrite env).ret = 0) :
    ∃ db₁, Slotted db t overwrite db₁ ∧ db.insert t overwrite env = db₁.copied t env := by
  rcases insert_cases db t overwrite env with same | slotted
  · rw [same] at ok
    cases ok
  · exact slotted

theorem insert_found {t : Task} {overwrite : Bool} {env : InsertEnv}
    (ok : (db.insert t overwrite env).ret = 0) :
    (db.insert t overwrite env).db.findTask t.name = some t := by
  obtain ⟨db₁, slotted, result⟩ := insert_slotted ok
  rw [result, findTask_congr (copied_set _ _ _), slotted_find slotted, if_pos rfl]

/-- The calls that change the task of a name, if there is one. -/
theorem update_shape {op : DbOp} {m : String} {g : Task → Task} {known unknown : Result}
    (names : ∀ t, (g t).name = t.name)
    (change : ∀ n t, op.Changes n t (if m = n then g t else t))
    (set : known.db.taskSet = updateFirst m g db.taskSet)
    (same : unknown.db.taskSet = db.taskSet) :
    Shape op db (match db.findTask m with
      | some _ => known
      | none => unknown : Result).db := by
  cases here : db.findTask m with
  | some u => exact .slot m g names set change
  | none =>
    refine .same same fun n t found => ?_
    have other : m ≠ n := by
      rintro rfl
      rw [here] at found
      cases found
    have changed := change n t
    rwa [if_neg other] at changed

theorem apply_shape (op : DbOp) (db : TaskDB) : Shape op db (op.apply db).db := by
  cases op with
  | insert nt overwrite env => exact insert_shape db nt overwrite env
  | spawnReady mode f =>
    simp only [DbOp.apply, TaskDB.spawnReady]
    cases db.spawnInhibit with
    | true => exact .same rfl (fun _ _ _ => .inl rfl)
    | false =>
      cases f with
      | none => exact .same rfl (fun _ _ _ => .inl rfl)
      | some f => exact .scan (fun t => f t mode) rfl ⟨mode, _, rfl⟩
  | setSpawnInhibit inh =>
    simp only [DbOp.apply, TaskDB.setSpawnInhibit]
    split_ifs <;> exact .same rfl (fun _ _ _ => rfl)
  | rearmTrigger m => exact update_shape rearm_name (fun _ _ => rfl) rfl rfl
  | setTaskState s m ts =>
    exact update_shape (fun t => withState_name t s ts) (fun _ _ => rfl) rfl rfl
  | setTaskPID pid m => exact update_shape (setPid_name pid) (fun _ _ => rfl) rfl rfl
  | setTaskRespawnInhibit inh m =>
    exact update_shape (setInhibitRespawn_name inh) (fun _ _ => rfl) rfl rfl
  | addDepToTask dep m ok =>
    simp only [DbOp.apply, TaskDB.addDepToTask]
    cases db.findTask m with
    | none => exact .same rfl (fun _ _ _ => .inl rfl)
    | some u =>
      dsimp only
      split_ifs
      · exact .same rfl (fun _ _ _ => .inl rfl)
      · exact .same rfl (fun _ _ _ => .inl rfl)
      · refine .slot m _ (addDep_name dep) rfl (fun n t => ?_)
        split_ifs with he
        · exact .inr ⟨he, rfl⟩
        · exact .inl rfl
  | removeDepFromTask dep m => exact update_shape (removeDep_name dep) (fun _ _ => rfl) rfl rfl
  | fulfillDep dep target =>
    cases target with
    | some m => exact .slot m _ (removeDep_name dep) rfl (fun _ _ => rfl)
    | none => exact .all _ (removeDep_name dep) rfl (fun _ _ => rfl)

theorem spawnInhibit_apply (op : DbOp) (db : TaskDB) :
    (op.apply db).db.spawnInhibit =
      match op with
      | .setSpawnInhibit inh => inh
      | _ => db.spawnInhibit := by
  cases op with
  | insert nt overwrite env =>
    change (db.insert nt.task overwrite env).db.spawnInhibit = db.spawnInhibit
    rcases insert_cases db nt.task overwrite env with same | ⟨db₁, slotted, result⟩
    · rw [same]
    · obtain ⟨_, frame⟩ := copied_frame db₁ nt.task env
      rw [result, frame]
      cases slotted <;> rfl
  | spawnReady mode f =>
    simp only [DbOp.apply, TaskDB.spawnReady]
    split_ifs
    · rfl
    · cases f <;> rfl
  | setSpawnInhibit inh =>
    simp only [DbOp.apply, TaskDB.setSpawnInhibit]
    split_ifs with differs
    · rfl
    · simpa using (Eq.symm (by simpa using differs) : db.spawnInhibit = inh)
  | rearmTrigger m | setTaskState _ m _ | setTaskPID _ m | setTaskRespawnInhibit _ m
  | removeDepFromTask _ m =>
    simp only [DbOp.apply, TaskDB.rearmTrigger, TaskDB.setTaskState, TaskDB.setTaskPID,
      TaskDB.setTaskRespawnInhibit, TaskDB.removeDepFromTask]
    cases db.findTask m <;> rfl
  | addDepToTask dep m ok =>
    simp only [DbOp.apply, TaskDB.addDepToTask]
    cases db.findTask m
    · rfl
    · dsimp only
      split_ifs <;> rfl
  | fulfillDep dep target => cases target <;> rfl

theorem respawnInhibit_known {t : Task} (inh : Bool) (found : db.findTask n = some t) :
    (DbOp.setTaskRespawnInhibit inh n).apply db =
      ⟨0, db.update n (Task.setInhibitRespawn inh), false, []⟩ := by
  simp [DbOp.apply, TaskDB.setTaskRespawnInhibit, found]

theorem respawnInhibit_unknown (inh : Bool) (absent : db.findTask n = none) :
    (DbOp.setTaskRespawnInhibit inh n).apply db = ⟨-1, db, false, []⟩ := by
  simp [DbOp.apply, TaskDB.setTaskRespawnInhibit, absent]

/-- A call never drops a task: it changes it in its slot or overwrites it. -/
theorem find_apply (op : DbOp) {t : Task} (h : db.findTask n = some t) :
    ∃ t', (op.apply db).db.findTask n = some t' ∧
      ((op.overwrites n = true ∧ op.Inserts t') ∨ op.Changes n t t') := by
  have found : db.taskSet.find? (fun t => t.name = n) = some t := h
  cases apply_shape op db with
  | same set change => exact ⟨t, (findTask_congr set n).trans h, .inr (change n t h)⟩
  | slot m g names set change =>
    refine ⟨_, ?_, .inr (change n t)⟩
    unfold TaskDB.findTask
    rw [set, updateFirst_find m n g (fun u hu => (names u).trans hu)]
    split_ifs with he
    · subst he; rw [found, Option.map_some]
    · exact found
  | all g names set change =>
    refine ⟨g t, ?_, .inr (change n t)⟩
    unfold TaskDB.findTask
    rw [set, map_find g names, found, Option.map_some]
  | scan f set call =>
    obtain ⟨t', ht, hc⟩ := spawnLoop_find f n db.taskSet t found
    obtain ⟨mode, g, rfl⟩ := call
    refine ⟨t', ?_, .inr hc⟩
    unfold TaskDB.findTask
    rw [set, ht]
  | overwritten nt inserts overwrites set =>
    have after := updateFirst_find nt.name n (fun _ => nt) (fun _ _ => rfl) db.taskSet
    rw [← set] at after
    by_cases he : nt.name = n
    · subst he
      refine ⟨nt, after.trans ?_, .inl ⟨overwrites, inserts⟩⟩
      rw [if_pos rfl, found, Option.map_some]
    · obtain ⟨_, _, _, rfl, _⟩ := inserts
      exact ⟨t, after.trans ((if_neg he).trans found), .inr rfl⟩
  | appended nt inserts absent set =>
    obtain ⟨_, _, _, rfl, _⟩ := inserts
    refine ⟨t, ?_, .inr rfl⟩
    unfold TaskDB.findTask
    rw [set, find?_append, found, Option.some_or]

theorem names_apply (op : DbOp) (db : TaskDB) :
    (op.apply db).db.names = db.names ∨
      ∃ nt, op.Inserts nt ∧ nt.name ∉ db.names ∧ (op.apply db).db.taskSet = db.taskSet ++ [nt] := by
  unfold TaskDB.names
  cases apply_shape op db with
  | same set _ => exact .inl (by rw [set])
  | slot m g names set _ =>
    exact .inl (by rw [set, updateFirst_names m g (fun u hu => (names u).trans hu)])
  | all g names set _ =>
    left
    rw [set, map_map]
    exact map_congr_left (fun t _ => names t)
  | scan f set _ => exact .inl (by rw [set, spawnLoop_names])
  | overwritten nt _ _ set => exact .inl (by rw [set, updateFirst_names _ _ (fun _ _ => rfl)])
  | appended nt inserts absent set =>
    refine .inr ⟨nt, inserts, ?_, set⟩
    intro hm
    obtain ⟨u, hu⟩ := (find_isSome_iff db nt.name).mpr hm
    rw [absent] at hu
    cases hu

theorem nodup_apply (op : DbOp) (nodup : db.names.Nodup) : (op.apply db).db.names.Nodup := by
  rcases names_apply op db with h | ⟨nt, _, absent, set⟩
  · rwa [h]
  · unfold TaskDB.names at *
    rw [set, map_append, map_singleton, ← concat_eq_append]
    exact List.Nodup.concat absent nodup

variable {t' : Task}

theorem find_before (op : DbOp) (h : (op.apply db).db.findTask n = some t') :
    op.Inserts t' ∨ ∃ t, db.findTask n = some t ∧ op.Changes n t t' := by
  cases hf : db.findTask n with
  | some t =>
    obtain ⟨u, hu, hc⟩ := find_apply op hf
    have eq : u = t' := Option.some.inj (hu.symm.trans h)
    subst u
    rcases hc with ⟨_, hi⟩ | hc
    · exact .inl hi
    · exact .inr ⟨t, rfl, hc⟩
  | none =>
    have absent : n ∉ db.names := by
      intro hm
      obtain ⟨u, hu⟩ := (find_isSome_iff db n).mpr hm
      rw [hf] at hu
      cases hu
    rcases names_apply op db with same | ⟨nt, inserts, _, set⟩
    · exact absurd (same ▸ (find_isSome_iff _ n).mp ⟨t', h⟩) absent
    · unfold TaskDB.findTask at h hf
      rw [set, find?_append, hf, Option.none_or] at h
      exact .inl (List.mem_singleton.mp (mem_of_find?_eq_some h) ▸ inserts)

inductive Effect (op : DbOp) (n : String) (t : Task) : Task → Prop where
  | none : Effect op n t t
  | started (mode : Mode) (f : Option (Task → Mode → Bool)) (scan : op = .spawnReady mode f)
      (ready : taskIsReady t = true) : Effect op n t (t.setState stateStarting)
  | unstarted (mode : Mode) (f : Option (Task → Mode → Bool)) (scan : op = .spawnReady mode f)
      (ready : taskIsReady t = true) :
      Effect op n t (t.setState (stateStarting &&& ~~~stateStarting))
  | rearmed (call : op = .rearmTrigger n) : Effect op n t t.rearm
  | stored (s : TaskState) (ts : Timespec) (call : op = .setTaskState s n ts) :
      Effect op n t (t.withState s ts)
  | pid (pid : Int) (call : op = .setTaskPID pid n) : Effect op n t (t.setPid pid)
  | inhibited (inh : Bool) (call : op = .setTaskRespawnInhibit inh n) :
      Effect op n t (t.setInhibitRespawn inh)
  | depAdded (dep : TaskDep) (ok : Bool) (call : op = .addDepToTask dep n ok) :
      Effect op n t (t.addDep dep)
  | matched (dep : TaskDep) (call : op = .fulfillDep dep none ∨ op = .fulfillDep dep (some n) ∨
      op = .removeDepFromTask dep n) : Effect op n t (removeDepFromTaskStruct dep t)

variable {op : DbOp}

theorem changes_effect {t : Task} (change : op.Changes n t t') : Effect op n t t' := by
  cases op with
  | insert | setSpawnInhibit => cases change; exact .none
  | spawnReady mode f =>
    rcases change with rfl | ⟨ready, rfl | rfl⟩
    · exact .none
    · exact .started mode f rfl ready
    · exact .unstarted mode f rfl ready
  | rearmTrigger m =>
    cases change
    split_ifs with same
    · exact .rearmed (by rw [same])
    · exact .none
  | setTaskState s m ts =>
    cases change
    split_ifs with same
    · exact .stored s ts (by rw [same])
    · exact .none
  | setTaskPID pid m =>
    cases change
    split_ifs with same
    · exact .pid pid (by rw [same])
    · exact .none
  | setTaskRespawnInhibit inh m =>
    cases change
    split_ifs with same
    · exact .inhibited inh (by rw [same])
    · exact .none
  | addDepToTask dep m ok =>
    rcases change with rfl | ⟨rfl, rfl⟩
    · exact .none
    · exact .depAdded dep ok rfl
  | removeDepFromTask dep m =>
    cases change
    split_ifs with same
    · exact .matched dep (.inr (.inr (by rw [same])))
    · exact .none
  | fulfillDep dep target =>
    cases target with
    | none =>
      cases change
      exact .matched dep (.inl rfl)
    | some m =>
      cases change
      split_ifs with same
      · exact .matched dep (.inr (.inl (by rw [same])))
      · exact .none

theorem changes_pid {t : Task} (change : op.Changes n t t') :
    t'.pid = t.pid ∨ ∃ pid, op = .setTaskPID pid n ∧ t'.pid = pid := by
  cases changes_effect change with
  | pid pid call => exact .inr ⟨pid, call, rfl⟩
  | stored s ts =>
    obtain ⟨_, _, _, h⟩ := withState_frame t s ts
    exact .inl (by rw [h])
  | _ => exact .inl rfl

theorem changes_state {t : Task} (change : op.Changes n t t') :
    t'.state = t.state ∨ (∃ s ts, op = .setTaskState s n ts ∧ t'.state = s) ∨
      (op = .rearmTrigger n ∧ t'.state = stateLoaded) ∨
      (taskIsReady t = true ∧ ∃ mode f, op = .spawnReady mode f) := by
  cases changes_effect change with
  | started mode f scan ready | unstarted mode f scan ready =>
    exact .inr (.inr (.inr ⟨ready, mode, f, scan⟩))
  | rearmed call => exact .inr (.inr (.inl ⟨call, rfl⟩))
  | stored s ts call => exact .inr (.inl ⟨s, ts, call, withState_state t s ts⟩)
  | _ => exact .inl rfl

/-- What the configuration of a task says stays as it is. -/
theorem changes_fixed {t : Task} (change : op.Changes n t t') :
    t'.opts = t.opts ∧ t'.trig = t.trig ∧ t'.maxRetries = t.maxRetries := by
  cases changes_effect change with
  | stored s ts =>
    obtain ⟨_, _, _, h⟩ := withState_frame t s ts
    rw [h]
    exact ⟨rfl, rfl, rfl⟩
  | _ => exact ⟨rfl, rfl, rfl⟩

theorem changes_inhibit {t : Task} (change : op.Changes n t t') :
    t'.inhibitRespawn = t.inhibitRespawn ∨
      ∃ inh, op = .setTaskRespawnInhibit inh n ∧ t'.inhibitRespawn = inh := by
  cases changes_effect change with
  | inhibited inh call => exact .inr ⟨inh, call, rfl⟩
  | stored s ts =>
    obtain ⟨_, _, _, h⟩ := withState_frame t s ts
    exact .inl (by rw [h])
  | _ => exact .inl rfl

/-- The task of a started thread: ready before the scan, and afterwards in its
slot as the thread got it. -/
theorem started_found (distinct : db.names.Nodup) {mode : Mode}
    {spawnFunc : Option (Task → Mode → Bool)} {s : Task}
    (started : s ∈ (db.spawnReady mode spawnFunc).started) :
    (db.spawnReady mode spawnFunc).db.findTask s.name = some s ∧
      ∃ t, db.findTask s.name = some t ∧ taskIsReady t = true ∧ s = t.setState stateStarting := by
  have after : (db.spawnReady mode spawnFunc).db.names.Nodup :=
    nodup_apply (.spawnReady mode spawnFunc) distinct
  unfold TaskDB.spawnReady at started after ⊢
  cases inhibited : db.spawnInhibit with
  | true => simp [inhibited] at started
  | false =>
    cases spawnFunc with
    | none => simp [inhibited] at started
    | some f =>
      simp only [inhibited, Bool.false_eq_true, if_false] at started after ⊢
      obtain ⟨mem, t, old, ready, eq⟩ := spawnLoop_started _ _ s started
      refine ⟨find_of_mem after mem, t, ?_, ready, eq⟩
      rw [eq]
      exact find_of_mem distinct old

theorem started_distinct (distinct : db.names.Nodup) {mode : Mode}
    {spawnFunc : Option (Task → Mode → Bool)} {x y : Nat} {s s' : Task}
    (hx : (db.spawnReady mode spawnFunc).started[x]? = some s)
    (hy : (db.spawnReady mode spawnFunc).started[y]? = some s') (same : s.name = s'.name) :
    x = y := by
  have nodup : ((db.spawnReady mode spawnFunc).started.map Task.name).Nodup := by
    unfold TaskDB.spawnReady
    cases db.spawnInhibit with
    | true => exact nodup_nil
    | false =>
      cases spawnFunc with
      | none => exact nodup_nil
      | some f => exact distinct.sublist (spawnLoop_started_names _ db.taskSet)
  have bound := (List.getElem?_eq_some_iff.mp hx).1
  refine (getElem?_inj (by simpa using bound) nodup).mp ?_
  simp [hx, hy, same]

end Crinit
