import Crinit.Frame
import Crinit.Lib.Since
import Crinit.Removal

/-! Which past a started task must have. A dependency that was added and not matched since is still
there, and a trigger needs a match since the insertion or the last re-arming. -/
namespace Crinit

open History List

structure DbCall where
  db : TaskDB
  op : DbOp

def DbCall.result (e : DbCall) : Result := e.op.apply e.db

inductive DbCalls (size : Nat) : List DbCall → TaskDB → Prop where
  | empty : DbCalls size [] { taskSetSize := size }
  | call {past : List DbCall} {db : TaskDB} (op : DbOp) :
      DbCalls size past db → db.corrupt = false → DbCalls size (past ++ [⟨db, op⟩]) (op.apply db).db

/-- The new task gets a slot. -/
def TaskDB.stores (db : TaskDB) (t : Task) (overwrite : Bool) (env : InsertEnv) : Bool :=
  match db.findTask t.name with
  | some _ => overwrite
  | none => !(db.taskSet.length = db.taskSetSize && !env.growOk)

def DbCall.Inserted (n : String) (e : DbCall) : Prop :=
  ∃ nt overwrite env, e.op = .insert nt overwrite env ∧ nt.task.name = n ∧
    e.db.stores nt.task overwrite env = true

def DbCall.Added (n : String) (dep : TaskDep) (e : DbCall) : Prop :=
  (∃ nt overwrite env, e.op = .insert nt overwrite env ∧ nt.task.name = n ∧
    e.db.stores nt.task overwrite env = true ∧ dep ∈ nt.task.deps) ∨
  (∃ ok, e.op = .addDepToTask dep n ok ∧ e.result.ret = 0)

def DbCall.Matched (n : String) (dep : TaskDep) (e : DbCall) : Prop :=
  e.op = .fulfillDep dep none ∨ e.op = .fulfillDep dep (some n) ∨ e.op = .removeDepFromTask dep n

def DbCall.Rearmed (n : String) (e : DbCall) : Prop := e.op = .rearmTrigger n

def Outstanding (n : String) (dep : TaskDep) (past : List DbCall) : Prop :=
  Since (fun e => ¬ e.Matched n dep ∧ ¬ e.Inserted n) (DbCall.Added n dep) past

def TriggerSeen (n : String) (trig : List TaskDep) (past : List DbCall) : Prop :=
  Since (fun e => ¬ e.Inserted n ∧ ¬ e.Rearmed n) (fun e => ∃ d ∈ trig, e.Matched n d) past

variable {x dep : TaskDep}

theorem mem_removeAt (ne : x ≠ dep) (deps : List TaskDep) (j : Nat) :
    x ∈ removeAt dep deps j ↔ x ∈ deps := by
  by_cases hit : deps[j]? = some dep
  · rw [← (removeAt_perm dep deps j hit).mem_iff, mem_cons, or_iff_right ne]
  · simp only [removeAt, hit, if_false]

theorem mem_removeLoop (ne : x ≠ dep) (turns j : Nat) (deps : List TaskDep) :
    x ∈ removeLoop dep turns j deps ↔ x ∈ deps := by
  induction turns generalizing j deps with
  | zero => rfl
  | succ turns ih =>
    simp only [removeLoop]
    split_ifs
    · rw [ih, mem_removeAt ne]
    · rfl

theorem mem_removeDeps (ne : x ≠ dep) (deps : List TaskDep) :
    x ∈ removeDeps dep deps ↔ x ∈ deps := mem_removeLoop ne _ _ deps

def Reflects (past : List DbCall) (db : TaskDB) : Prop :=
  ∀ n t, db.findTask n = some t →
    (∀ dep, Outstanding n dep past → dep ∈ t.deps) ∧
    (t.triggered = true → t.trig = [] ∨ TriggerSeen n t.trig past)

variable {db : TaskDB}

theorem insert_stored {nt : NewTask} {overwrite : Bool} {env : InsertEnv}
    (stored : db.stores nt.task overwrite env = true) :
    (db.insert nt.task overwrite env).db.findTask nt.task.name = some nt.task := by
  unfold TaskDB.stores at stored
  unfold TaskDB.insert
  cases hf : db.findTask nt.task.name with
  | some u =>
    rw [hf] at stored
    dsimp only at stored ⊢
    rw [stored, if_neg (by decide), findTask_congr (copied_set _ _ _),
      update_find _ _ _ _ (fun _ _ => rfl), if_pos rfl, hf, Option.map_some]
  | none =>
    rw [hf] at stored
    dsimp only at stored ⊢
    rw [if_neg (Bool.not_eq.mp stored), findTask_congr (copied_set _ _ _)]
    have absent : db.taskSet.find? (fun t => t.name = nt.task.name) = none := hf
    unfold TaskDB.findTask
    rw [find?_append, absent]
    simp

theorem insert_not_stored {nt : NewTask} {overwrite : Bool} {env : InsertEnv}
    (refused : db.stores nt.task overwrite env = false) :
    (db.insert nt.task overwrite env).db.taskSet = db.taskSet := by
  unfold TaskDB.stores at refused
  unfold TaskDB.insert
  cases hf : db.findTask nt.task.name with
  | some u =>
    rw [hf] at refused
    dsimp only at refused ⊢
    rw [refused, if_pos (by decide)]
  | none =>
    rw [hf] at refused
    dsimp only at refused ⊢
    rw [if_pos (by simpa only [Bool.not_eq_false'] using refused)]

variable {n : String} {t : Task}

theorem added_mem {ok : Bool} (done : (db.addDepToTask dep n ok).ret = 0)
    (found : (db.addDepToTask dep n ok).db.findTask n = some t) : dep ∈ t.deps := by
  unfold TaskDB.addDepToTask at done found
  cases hf : db.findTask n with
  | none => simp [hf] at done
  | some u =>
    simp only [hf] at done found
    split_ifs at done found with hm ha
    · rw [hf] at found
      exact Option.some.inj found ▸ hm
    · simp at done
    · dsimp only at found
      rw [update_find db n n (Task.addDep dep) (fun t ht => ht), if_pos rfl, hf] at found
      rw [← Option.some.inj found]
      simp [Task.addDep]

variable {op : DbOp} {t' : Task}

theorem kept_before (kept : ¬ DbCall.Inserted n ⟨db, op⟩)
    (found : (op.apply db).db.findTask n = some t') :
    ∃ t, db.findTask n = some t ∧ op.Changes n t t' := by
  rcases find_before op found with ⟨nt, overwrite, env, rfl, rfl⟩ | before
  · cases stored : db.stores nt.task overwrite env with
    | true => exact absurd ⟨nt, overwrite, env, rfl, findTask_name found, stored⟩ kept
    | false => exact ⟨nt.task, (findTask_congr (insert_not_stored stored) n).symm.trans found, rfl⟩
  · exact before

theorem dep_cases (db : TaskDB) (change : op.Changes n t t') :
    (t'.deps = t.deps ∧ t'.trig = t.trig ∧ t'.triggered = t.triggered ∧
      ¬ DbCall.Rearmed n ⟨db, op⟩) ∨
    t' = t.rearm ∨ (∃ dep, t' = t.addDep dep ∧ ¬ DbCall.Rearmed n ⟨db, op⟩) ∨
    ∃ dep, DbCall.Matched n dep ⟨db, op⟩ ∧ t' = removeDepFromTaskStruct dep t := by
  by_cases rearms : op = .rearmTrigger n
  · subst rearms
    cases change
    exact .inr (.inl (by simp))
  · cases changes_effect change with
    | rearmed call => exact absurd call rearms
    | depAdded dep => exact .inr (.inr (.inl ⟨dep, rfl, rearms⟩))
    | matched dep call => exact .inr (.inr (.inr ⟨dep, call, rfl⟩))
    | stored s ts =>
      obtain ⟨_, _, _, h⟩ := withState_frame t s ts
      rw [h]
      exact .inl ⟨rfl, rfl, rfl, rearms⟩
    | _ => exact .inl ⟨rfl, rfl, rfl, rearms⟩

theorem deps_kept (change : op.Changes n t t') (unmatched : ¬ DbCall.Matched n dep ⟨db, op⟩)
    (mem : dep ∈ t.deps) : dep ∈ t'.deps := by
  rcases dep_cases db change with ⟨same, _⟩ | rfl | ⟨d, rfl, _⟩ | ⟨d, matched, rfl⟩
  · rwa [same]
  · exact mem
  · exact mem_append_left _ mem
  · have ne : dep ≠ d := by
      rintro rfl
      exact unmatched matched
    exact (mem_removeDeps ne t.deps).mpr mem

theorem trig_kept (change : op.Changes n t t') : t'.trig = t.trig := by
  rcases dep_cases {} change with ⟨_, same, _⟩ | rfl | ⟨_, rfl, _⟩ | ⟨_, _, rfl⟩
  · exact same
  · rfl
  · rfl
  · rfl

theorem triggered_cause (db : TaskDB) (change : op.Changes n t t')
    (triggered : t'.triggered = true) :
    t.trig = [] ∨ (¬ DbCall.Rearmed n ⟨db, op⟩ ∧ t.triggered = true) ∨
      ∃ d ∈ t.trig, DbCall.Matched n d ⟨db, op⟩ := by
  rcases dep_cases db change with ⟨_, _, same, kept⟩ | rfl | ⟨_, rfl, kept⟩ | ⟨d, matched, rfl⟩
  · exact .inr (.inl ⟨kept, same ▸ triggered⟩)
  · exact .inl (by simpa [Task.rearm] using triggered)
  · exact .inr (.inl ⟨kept, triggered⟩)
  · have cause : t.triggered = true ∨ d ∈ t.trig := by
      simpa [removeDepFromTaskStruct] using triggered
    rcases cause with before | mem
    · refine .inr (.inl ⟨?_, before⟩)
      rintro rearmed
      rcases matched with h | h | h <;> cases h.symm.trans rearmed
    · exact .inr (.inr ⟨d, mem, matched⟩)

variable {past : List DbCall}

theorem reflects_step (op : DbOp) (before : Reflects past db) :
    Reflects (past ++ [⟨db, op⟩]) (op.apply db).db := by
  intro n t' found
  unfold Outstanding TriggerSeen
  simp only [since_snoc]
  by_cases inserted : DbCall.Inserted n ⟨db, op⟩
  · obtain ⟨nt, overwrite, env, rfl, rfl, stored⟩ := inserted
    -- the history of the task starts here: what is outstanding are its own dependencies
    have eq : nt.task = t' := Option.some.inj ((insert_stored stored).symm.trans found)
    subst eq
    refine ⟨?_, ?_⟩
    · rintro dep ((⟨nt', _, _, same, _, _, mem⟩ | ⟨_, same, _⟩) | ⟨⟨_, kept⟩, _⟩)
      · cases same
        exact mem
      · cases same
      · exact absurd ⟨nt, overwrite, env, rfl, rfl, stored⟩ kept
    · intro triggered
      exact .inl (List.isEmpty_iff.mp (nt.untriggered ▸ triggered))
  · obtain ⟨t, ht, change⟩ := kept_before inserted found
    obtain ⟨outstanding, seen⟩ := before n t ht
    refine ⟨?_, ?_⟩
    · rintro dep ((⟨nt, overwrite, env, same, name, stored, _⟩ | ⟨ok, same, done⟩)
        | ⟨⟨unmatched, _⟩, since⟩)
      · exact absurd ⟨nt, overwrite, env, same, name, stored⟩ inserted
      · simp only at same
        subst same
        exact added_mem done found
      · exact deps_kept change unmatched (outstanding dep since)
    · intro triggered
      rw [trig_kept change]
      rcases triggered_cause db change triggered with none | ⟨kept, before⟩ | matched
      · exact .inl none
      · exact (seen before).imp id fun since => .inr ⟨⟨inserted, kept⟩, since⟩
      · exact .inr (.inl matched)

theorem reflects_of_calls {size : Nat} (calls : DbCalls size past db) : Reflects past db := by
  induction calls with
  | empty =>
    intro n t found
    cases found
  | call op _ _ ih => exact reflects_step op ih

theorem nodup_of_calls {size : Nat} (calls : DbCalls size past db) : db.names.Nodup := by
  induction calls with
  | empty => exact nodup_nil
  | call op _ _ ih => exact nodup_apply op ih

theorem spawnReady_started {mode : Mode} {spawnFunc : Option (Task → Mode → Bool)} {s : Task}
    (started : s ∈ (db.spawnReady mode spawnFunc).started) :
    db.spawnInhibit = false ∧
      ∃ t ∈ db.taskSet, taskIsReady t = true ∧ s = t.setState stateStarting := by
  unfold TaskDB.spawnReady at started
  cases hi : db.spawnInhibit with
  | true => simp [hi] at started
  | false =>
    cases spawnFunc with
    | none => simp [hi] at started
    | some f => exact ⟨rfl, (spawnLoop_started _ _ s (by simpa [hi] using started)).2⟩

/-- A dispatch thread is started by `crinitTaskDBSpawnReady` only for a task
whose past allows it. -/
theorem spawnReady_started_safe {size : Nat} {past : List DbCall} {db : TaskDB}
    (calls : DbCalls size past db) (spawnFunc : Option (Task → Mode → Bool)) (s : Task)
    (started : s ∈ (db.spawnReady .start spawnFunc).started) :
    db.spawnInhibit = false ∧
    ∃ t ∈ db.taskSet, s = t.setState stateStarting ∧ db.findTask t.name = some t ∧
      (∀ dep, ¬ Outstanding t.name dep past) ∧
      (t.trig ≠ [] → TriggerSeen t.name t.trig past) ∧
      anyBit t.state stateStarting = false ∧ anyBit t.state stateRunning = false ∧
      (anyBit t.state stateDone = true ∨ anyBit t.state stateFailed = true → t.respawn = true) := by
  obtain ⟨allowed, t, mem, ready, rfl⟩ := spawnReady_started started
  have found := find_of_mem (nodup_of_calls calls) mem
  obtain ⟨outstanding, seen⟩ := reflects_of_calls calls t.name t found
  have idle := ready_not_busy ready
  simp only [busy, anyBit_or, Bool.or_eq_false_iff] at idle
  refine ⟨allowed, t, mem, rfl, found, ?_, ?_, idle.2, idle.1, ?_⟩
  · intro dep since
    have empty := ready_deps ready
    have still := outstanding dep since
    rw [empty] at still
    cases still
  · intro nonempty
    exact (seen (ready_triggered ready)).resolve_left nonempty
  · intro ended
    apply ready_ended ready
    rw [anyBit_or, Bool.or_eq_true]
    exact ended.symm

def gatedTask : NewTask where
  task := { name := "net", cmds := [["/bin/net"]], deps := [⟨"udev", "wait"⟩],
            trig := [⟨"@timer", "daily"⟩], triggered := false }
  loaded := rfl
  noPid := rfl
  noFailures := rfl
  notInhibited := rfl
  untriggered := rfl

theorem gatedTask_started_safe :
    ∃ past db, DbCalls 256 past db ∧
      (db.spawnReady .start (some fun _ _ => true)).started =
        [{ gatedTask.task with deps := [], triggered := true, state := stateStarting }] ∧
      ¬ Outstanding "net" ⟨"udev", "wait"⟩ past ∧
      TriggerSeen "net" [⟨"@timer", "daily"⟩] past := by
  have calls : DbCalls 256 _ _ :=
    .call (.fulfillDep ⟨"udev", "wait"⟩ none)
      (.call (.fulfillDep ⟨"@timer", "daily"⟩ none)
        (.call (.insert gatedTask false {}) .empty rfl) rfl) rfl
  refine ⟨_, _, calls, by decide, ?_⟩
  obtain ⟨_, t, _, same, _, none, seen, _⟩ :=
    spawnReady_started_safe calls (some fun _ _ => true)
      { gatedTask.task with deps := [], triggered := true, state := stateStarting } (by decide)
  have name : t.name = "net" := (congrArg Task.name same).symm
  have trig : t.trig = [⟨"@timer", "daily"⟩] := (congrArg Task.trig same).symm
  rw [name] at none
  rw [name, trig] at seen
  exact ⟨none _, seen (by simp)⟩

end Crinit
