import Crinit.Commands
import Crinit.Frame

/-! Spawn inhibition across one ADDSERIES command. -/
namespace Crinit

/-- No insertion that the loop of ADDSERIES reaches is refused. -/
def insertsAccepted (overwriteTasks : Bool) : TaskDB → List SeriesFile → Bool
  | _, [] => true
  | db, f :: rest =>
    match f.load with
    | .error _ => true
    | .ok t =>
      let r := db.insert t.task overwriteTasks f.insert
      r.ret ≠ -1 && insertsAccepted overwriteTasks r.db rest

/-- ADDSERIES is refused before it inhibits spawning, or gets through the option
store and the series file and has no insertion refused. -/
def SeriesReleases (env : SeriesEnv) (cmd : RtimCmd) (db : TaskDB) : Prop :=
  ∀ path overwrite, cmd.args = [path, overwrite] → isAbsPath path = true →
    env.borrowOk = true ∧ env.remitOk = true ∧ env.loadSeriesOk = true ∧
    ∃ files, env.tasks = some files ∧
      insertsAccepted (overwrite = "true") (db.setSpawnInhibit true).db files = true

theorem setSpawnInhibit_ret (db : TaskDB) (inh : Bool) :
    ((DbOp.setSpawnInhibit inh).apply db).ret = 0 := by
  simp only [DbOp.apply, TaskDB.setSpawnInhibit]
  split_ifs <;> rfl

theorem insertOp_ret (db : TaskDB) (t : NewTask) (overwrite : Bool) (env : InsertEnv) :
    ((DbOp.insert t overwrite env).apply db).ret = (db.insert t.task overwrite env).ret := rfl

theorem abortSeries_inhibit (msg : String) (w : World) :
    ((abortSeries msg).run machine w).2.db.spawnInhibit = false := by
  simp [abortSeries, World.after, spawnInhibit_apply]

theorem addSeriesLoop_inhibit (overwriteTasks : Bool) (files : List SeriesFile) (w : World)
    (inhibited : w.db.spawnInhibit = true) :
    ((addSeriesLoop overwriteTasks files).run machine w).2.db.spawnInhibit = false ↔
      insertsAccepted overwriteTasks w.db files = true := by
  induction files generalizing w with
  | nil =>
    simp [addSeriesLoop, insertsAccepted, setSpawnInhibit_ret, World.after, spawnInhibit_apply]
  | cons f rest ih =>
    simp only [addSeriesLoop, insertsAccepted, run_work]
    cases f.load with
    | error msg => simp [abortSeries_inhibit]
    | ok t =>
      have kept : (w.after (.db (.insert t overwriteTasks f.insert))).db.spawnInhibit = true := by
        simpa [World.after, spawnInhibit_apply] using inhibited
      by_cases refused : (w.db.insert t.task overwriteTasks f.insert).ret = -1
      · simp [insertOp_ret, refused, kept]
      · simp only [run_dbCall, insertOp_ret, refused, if_false, ne_eq, not_false_eq_true,
          decide_true, Bool.true_and]
        exact ih _ kept

theorem addSeriesTasks_inhibit (env : SeriesEnv) (overwrite : String) (w : World)
    (inhibited : w.db.spawnInhibit = true) :
    ((addSeriesTasks env overwrite).run machine w).2.db.spawnInhibit = false ↔
      env.borrowOk = true ∧ env.remitOk = true ∧ env.loadSeriesOk = true ∧
      ∃ files, env.tasks = some files ∧ insertsAccepted (overwrite = "true") w.db files = true := by
  simp only [addSeriesTasks, run_work]
  cases env.borrowOk with
  | false => simp [inhibited]
  | true =>
    cases env.remitOk with
    | false => simp [inhibited]
    | true =>
      cases env.loadSeriesOk with
      | false => simp [inhibited]
      | true =>
        cases env.tasks with
        | none => simp [inhibited]
        | some files => simpa using addSeriesLoop_inhibit _ files w inhibited

/-- ADDSERIES leaves spawning allowed exactly on the paths that lift its own
inhibition or never set it. -/
theorem addSeries_lifts_inhibition_iff (env : SeriesEnv) (cmd : RtimCmd) (w : World)
    (allowed : w.db.spawnInhibit = false) :
    ((execRtimCmdAddSeries env cmd).run machine w).2.db.spawnInhibit = false ↔
      SeriesReleases env cmd w.db := by
  unfold execRtimCmdAddSeries SeriesReleases
  split
  · rename_i path overwrite args
    simp only [args, List.cons.injEq, and_true, and_imp, forall_apply_eq_imp_iff, forall_eq']
    cases absolute : isAbsPath path with
    | false => simp [allowed]
    | true =>
      have inhibited : (w.after (.db (.setSpawnInhibit true))).db.spawnInhibit = true := by
        simp [World.after, spawnInhibit_apply]
      have loading : (w.after (.db (.setSpawnInhibit true))).db = (w.db.setSpawnInhibit true).db :=
        rfl
      have tasks := addSeriesTasks_inhibit env overwrite _ inhibited
      rw [loading] at tasks
      simpa [setSpawnInhibit_ret] using tasks
  · rename_i wrong
    simp only [Script.pure_eq, Script.run_ret, allowed, true_iff]
    intro path overwrite args
    exact absurd args (wrong path overwrite)

def seriesTask (n : String) : NewTask :=
  ⟨{ name := n, cmds := [["/bin/true"]] }, rfl, rfl, rfl, rfl, rfl⟩

def halfLoaded : World where
  db := { taskSet := [(seriesTask "net").task] }

def twoFiles : SeriesEnv where
  tasks := some [⟨"udev.crinit", true, true, some (seriesTask "udev"), {}⟩,
    ⟨"net.crinit", true, true, some (seriesTask "net"), {}⟩]

theorem addSeries_lifts_inhibition_halfLoaded :
    halfLoaded.db.spawnInhibit = false ∧
    ((execRtimCmdAddSeries twoFiles ⟨.c .addSeries, ["/etc/a.series", "true"]⟩).run machine
      halfLoaded).2.db.spawnInhibit = false := by
  refine ⟨rfl, (addSeries_lifts_inhibition_iff twoFiles _ halfLoaded rfl).mpr ?_⟩
  intro path overwrite args absolute
  cases args
  exact ⟨rfl, rfl, rfl, _, rfl, by decide⟩

/-- Without it the second insertion is refused: the command answers with an error
and spawning stays inhibited. -/
theorem addSeries_refused_insertion_freezes :
    halfLoaded.db.spawnInhibit = false ∧
    ((execRtimCmdAddSeries twoFiles ⟨.c .addSeries, ["/etc/a.series", "false"]⟩).run machine
      halfLoaded).1 = errAnswer .addTask "Could not insert new task into TaskDB." ∧
    ((execRtimCmdAddSeries twoFiles ⟨.c .addSeries, ["/etc/a.series", "false"]⟩).run machine
      halfLoaded).2.db.spawnInhibit = true := by
  refine ⟨rfl, by decide, by decide⟩

end Crinit
