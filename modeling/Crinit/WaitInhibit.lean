import Crinit.Commands
import Crinit.Dispatch

/-! Wait inhibition across one STOP or KILL command. The exits that do not go through
`crinitSetInhibitWait(false)` leave the flag set. -/
namespace Crinit

/-- STOP reaches its end: the task is known, and its STOP_COMMAND thread starts or
the signal to its PID is sent. -/
def StopReleases (env : StopEnv) (cmd : RtimCmd) (w : World) : Prop :=
  ∀ name, cmd.args = [name] → env.inhibitOk = true →
    env.dupOk = true ∧ env.releaseOk = true ∧
    ∃ t, w.db.findTask name = some t ∧
      if 0 < t.stopCmds.length then env.lockOk = true ∧ env.startOk = true
      else 0 < t.pid ∧ env.killOk = true

def KillReleases (env : StopEnv) (cmd : RtimCmd) (w : World) : Prop :=
  ∀ name, cmd.args = [name] → env.inhibitOk = true →
    env.releaseOk = true ∧ ∃ t, w.db.findTask name = some t ∧ 0 < t.pid ∧ env.killOk = true

section
variable (env : StopEnv) (w : World)

theorem reactivateWait_flag (x : Command) (ok : Bool) (set : w.waitInhibit = true) :
    ((reactivateWait x ok).run machine w).2.waitInhibit = false ↔ ok = true := by
  cases ok <;> simp [reactivateWait, set]

theorem stopTask_flag (t : Task) (set : w.waitInhibit = true) :
    ((stopTask env t).run machine w).2.waitInhibit = false ↔
      env.releaseOk = true ∧
        if 0 < t.stopCmds.length then env.lockOk = true ∧ env.startOk = true
        else 0 < t.pid ∧ env.killOk = true := by
  unfold stopTask
  by_cases stop : 0 < t.stopCmds.length
  · rw [if_pos stop, if_pos stop]
    cases env.lockOk <;> cases env.startOk <;> simp [set, code, reactivateWait_flag]
  · rw [if_neg stop, if_neg stop]
    by_cases noPid : t.pid ≤ 0
    · have not_pos : ¬ 0 < t.pid := by omega
      simp [noPid, not_pos, set]
    · have pos : 0 < t.pid := by omega
      cases env.killOk <;> simp [noPid, pos, set, code, reactivateWait_flag]

theorem killTask_flag (pid : Int) (set : w.waitInhibit = true) :
    ((killTask env pid).run machine w).2.waitInhibit = false ↔
      env.releaseOk = true ∧ 0 < pid ∧ env.killOk = true := by
  unfold killTask
  by_cases noPid : pid ≤ 0
  · have not_pos : ¬ 0 < pid := by omega
    simp [noPid, not_pos, set]
  · have pos : 0 < pid := by omega
    cases env.killOk <;> simp [noPid, pos, set, code, reactivateWait_flag]

theorem stop_flag (cmd : RtimCmd) (clear : w.waitInhibit = false) :
    ((execRtimCmdStop env cmd).run machine w).2.waitInhibit = false ↔ StopReleases env cmd w := by
  unfold execRtimCmdStop StopReleases
  split
  · rename_i name args
    cases inhibited : env.inhibitOk with
    | false => simp [clear]
    | true =>
      simp only [args, List.cons.injEq, and_true, forall_eq']
      cases found : w.db.findTask name with
      | none => simp [code, respawnInhibit_unknown true found, World.after]
      | some t =>
        have after := update_find_self (Task.setInhibitRespawn true)
          (setInhibitRespawn_name true) found
        cases dup : env.dupOk with
        | false => simp [code, respawnInhibit_known true found, World.after]
        | true =>
          have stopCmds : (t.setInhibitRespawn true).stopCmds = t.stopCmds := rfl
          have pid : (t.setInhibitRespawn true).pid = t.pid := rfl
          simp [code, respawnInhibit_known true found, World.after, after, stopTask_flag,
            stopCmds, pid]
  · rename_i wrong
    simp only [Script.pure_eq, Script.run_ret, clear, true_iff]
    intro name args
    exact absurd args (wrong name)

theorem kill_flag (cmd : RtimCmd) (clear : w.waitInhibit = false) :
    ((execRtimCmdKill env cmd).run machine w).2.waitInhibit = false ↔ KillReleases env cmd w := by
  unfold execRtimCmdKill KillReleases
  split
  · rename_i name args
    cases inhibited : env.inhibitOk with
    | false => simp [clear]
    | true =>
      simp only [args, List.cons.injEq, and_true, forall_eq']
      cases found : w.db.findTask name with
      | none => simp [code, found]
      | some t => simp [code, found, killTask_flag]
  · rename_i wrong
    simp only [Script.pure_eq, Script.run_ret, clear, true_iff]
    intro name args
    exact absurd args (wrong name)

theorem block_passes_iff (d : Dispatch) (a : Answers)
    (blocking : d.pc = .failBlock ∨ ∃ i, d.pc = .block i) :
    (d.next w a).isSome = true ↔ w.waitInhibit = false := by
  rcases blocking with at_pc | ⟨i, at_pc⟩ <;> simp only [Dispatch.next, at_pc] <;>
    cases w.waitInhibit <;> simp

end

/-- STOP and KILL give the flag back, and let reaping go on, exactly on the
paths that reach their last call. -/
theorem waitInhibit_released_iff (env : StopEnv) (cmd : RtimCmd) (w : World)
    (clear : w.waitInhibit = false) :
    (((execRtimCmdStop env cmd).run machine w).2.waitInhibit = false ↔ StopReleases env cmd w) ∧
    (((execRtimCmdKill env cmd).run machine w).2.waitInhibit = false ↔ KillReleases env cmd w) ∧
    ∀ (d : Dispatch) (a : Answers), (d.pc = .failBlock ∨ ∃ i, d.pc = .block i) →
      ((d.next ((execRtimCmdStop env cmd).run machine w).2 a).isSome = true ↔
        StopReleases env cmd w) ∧
      ((d.next ((execRtimCmdKill env cmd).run machine w).2 a).isSome = true ↔
        KillReleases env cmd w) := by
  have stop := stop_flag env w cmd clear
  have kill := kill_flag env w cmd clear
  refine ⟨stop, kill, fun d a blocking => ⟨?_, ?_⟩⟩
  · rw [block_passes_iff _ d a blocking, stop]
  · rw [block_passes_iff _ d a blocking, kill]

def oneRunning : World where
  db := { taskSet := [{ name := "net", cmds := [["/bin/net"]], state := stateRunning, pid := 7 }] }
  running := [7]

theorem waitInhibit_released_oneRunning :
    oneRunning.waitInhibit = false ∧
    ((execRtimCmdStop {} ⟨.c .stop, ["net"]⟩).run machine oneRunning).2.waitInhibit = false ∧
    ((execRtimCmdKill {} ⟨.c .kill, ["net"]⟩).run machine oneRunning).2.waitInhibit = false := by
  have stops : StopReleases {} ⟨.c .stop, ["net"]⟩ oneRunning := by
    intro name args _
    cases args
    exact ⟨rfl, rfl, _, rfl, by decide⟩
  have kills : KillReleases {} ⟨.c .kill, ["net"]⟩ oneRunning := by
    intro name args _
    cases args
    exact ⟨rfl, _, rfl, by decide, rfl⟩
  exact ⟨rfl, (waitInhibit_released_iff {} _ oneRunning rfl).1.mpr stops,
    (waitInhibit_released_iff {} _ oneRunning rfl).2.1.mpr kills⟩

/-- Stopping a task that does not exist: the command answers with an error, the
flag stays set, and a dispatch thread of the other task cannot reap its process. -/
theorem stop_unknown_task_blocks_reaping :
    oneRunning.waitInhibit = false ∧
    ((execRtimCmdStop {} ⟨.c .stop, ["nte"]⟩).run machine oneRunning).1 =
      errAnswer .stop "Could not access task to set respawnInhibit." ∧
    ((execRtimCmdStop {} ⟨.c .stop, ["nte"]⟩).run machine oneRunning).2.waitInhibit = true ∧
    Dispatch.next ((execRtimCmdStop {} ⟨.c .stop, ["nte"]⟩).run machine oneRunning).2
      { mode := .start, slot := none, task := { name := "net" }, pid := 7, pc := .block 0 } {} =
      none := by
  refine ⟨rfl, by decide, by decide, rfl⟩

end Crinit
