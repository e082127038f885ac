import Crinit.NotifyKeys
import Crinit.System

/-! Which calls the commands make. Only STOP and KILL send a signal, to a PID that they have read
while they inhibit waiting. -/
namespace Crinit

def lasting (s : TaskState) : Bool := busy s || anyBit s (stateFailed ||| stateDone)

/-- The calls of the commands that neither signal, nor start anything, nor take a
task back to where it can start again. -/
def Call.plain : Call → Prop
  | .kill _ _ _ | .spawnStop _ _ => False
  | .db (.setTaskState s _ _) => lasting s = true
  | .db (.rearmTrigger _) | .db (.spawnReady _ _) | .db (.setTaskRespawnInhibit _ _) => False
  | _ => True

theorem notify_plain (env : NotifyEnv) (cmd : RtimCmd) :
    (execRtimCmdNotify env cmd).Follows (Script.only Call.plain) () := by
  unfold execRtimCmdNotify
  split
  · have ready : lasting (stateRunning ||| stateNotified) = true := by decide
    have stopping : lasting (stateDone ||| stateNotified) = true := by decide
    exact notifyEffects_follows (fun _ => trivial) (fun _ _ => trivial) (fun _ => trivial)
      (fun _ => ready) fun _ => stopping
  · trivial

theorem addSeriesLoop_plain (overwrite : Bool) (files : List SeriesFile) :
    (addSeriesLoop overwrite files).Follows (Script.only Call.plain) () := by
  induction files with
  | nil =>
    unfold addSeriesLoop
    refine db_follows trivial fun r => ?_
    split_ifs <;> trivial
  | cons f rest ih =>
    unfold addSeriesLoop
    simp only [follows_work]
    refine ⟨trivial, fun r => ?_⟩
    split
    · exact db_follows trivial fun r => trivial
    · refine db_follows trivial fun r => ?_
      split_ifs
      · trivial
      · exact ih

theorem addSeries_plain (env : SeriesEnv) (cmd : RtimCmd) :
    (execRtimCmdAddSeries env cmd).Follows (Script.only Call.plain) () := by
  unfold execRtimCmdAddSeries
  split
  · split_ifs
    · trivial
    · refine db_follows trivial fun r => ?_
      split_ifs
      · trivial
      · unfold addSeriesTasks
        simp only [follows_work]
        refine ⟨trivial, fun r => ?_⟩
        split_ifs
        · trivial
        · trivial
        · trivial
        · split
          · trivial
          · exact addSeriesLoop_plain _ _
  · trivial

theorem enable_plain (ok : Bool) (cmd : RtimCmd) :
    (execRtimCmdEnable ok cmd).Follows (Script.only Call.plain) () := by
  unfold execRtimCmdEnable
  split
  · split_ifs
    · trivial
    · exact db_follows trivial fun r => by split_ifs <;> trivial
  · trivial

theorem disable_plain (ok depOk : Bool) (cmd : RtimCmd) :
    (execRtimCmdDisable ok depOk cmd).Follows (Script.only Call.plain) () := by
  unfold execRtimCmdDisable
  split
  · split_ifs
    · trivial
    · exact db_follows trivial fun r => by split_ifs <;> trivial
  · trivial

structure Held where
  waits : Bool := false
  looked : Option Task := none

def commandDiscipline (restarts : Option String) : Script.Discipline Call Reply Held where
  ok g c := match c with
    | .kill pid _ _ => g.waits = true ∧ g.looked.map Task.pid = some pid ∧ 0 < pid
    | .spawnStop t _ => g.looked = some t
    | .db (.setTaskState s n _) => lasting s = true ∨ restarts = some n
    | .db (.setTaskRespawnInhibit inh n) => inh = true ∨ restarts = some n
    | .db (.rearmTrigger _) | .db (.spawnReady _ _) => False
    | _ => True
  next g c r := match c with
    | .setInhibitWait inh _ => { waits := if r.ret = -1 then g.waits else inh }
    | .look _ _ => { g with looked := r.task }
    | _ => { g with looked := none }

theorem plain_allowed {restarts : Option String} (g : Held) (c : Call) (plain : c.plain) :
    (commandDiscipline restarts).ok g c := by
  cases c with
  | db op =>
    cases op with
    | setTaskState => exact .inl plain
    | setTaskRespawnInhibit | rearmTrigger | spawnReady => cases plain
    | _ => trivial
  | kill | spawnStop => cases plain
  | _ => trivial

section
variable {g : Held} {restarts : Option String}

theorem reactivateWait_follows (x : Command) (ok : Bool) :
    (reactivateWait x ok).Follows (commandDiscipline restarts) g := by
  simp only [reactivateWait, follows_setInhibitWait]
  refine ⟨trivial, fun r => ?_⟩
  split <;> trivial

theorem stopTask_follows (env : StopEnv) (t : Task) :
    (stopTask env t).Follows (commandDiscipline restarts) ⟨true, some t⟩ := by
  unfold stopTask
  split_ifs
  · trivial
  · simp only [follows_spawnStop]
    refine ⟨rfl, fun r => ?_⟩
    split_ifs
    · trivial
    · exact reactivateWait_follows _ _
  · trivial
  · rename_i noStop pid
    simp only [follows_sendSignal]
    refine ⟨⟨rfl, rfl, by omega⟩, fun r => ?_⟩
    split_ifs
    · trivial
    · exact reactivateWait_follows _ _

theorem stop_follows (env : StopEnv) (cmd : RtimCmd) :
    (execRtimCmdStop env cmd).Follows (commandDiscipline restarts) {} := by
  unfold execRtimCmdStop
  split
  · simp only [follows_setInhibitWait]
    refine ⟨trivial, fun r => ?_⟩
    split_ifs with failed
    · trivial
    · simp only [follows_dbCall]
      refine ⟨.inl rfl, fun r' => ?_⟩
      split_ifs
      · trivial
      · simp only [follows_look]
        refine ⟨trivial, fun r'' => ?_⟩
        split
        · trivial
        · rename_i t found
          simpa [commandDiscipline, failed, found] using stopTask_follows env t
  · trivial

theorem kill_follows (env : StopEnv) (cmd : RtimCmd) :
    (execRtimCmdKill env cmd).Follows (commandDiscipline restarts) {} := by
  unfold execRtimCmdKill
  split
  · simp only [follows_setInhibitWait]
    refine ⟨trivial, fun r => ?_⟩
    split_ifs with failed
    · trivial
    · simp only [follows_look]
      refine ⟨trivial, fun r' => ?_⟩
      split
      · trivial
      · rename_i t found
        unfold killTask
        split_ifs with noPid
        · trivial
        · simp only [follows_sendSignal]
          refine ⟨⟨by simp [commandDiscipline, failed], by simp [commandDiscipline, found],
            by omega⟩, fun r'' => ?_⟩
          split_ifs
          · trivial
          · exact reactivateWait_follows _ _
  · trivial

end

def restartTask (now : Timespec) (name : String) : Handling RtimCmd := do
  if (← dbCall (.setTaskRespawnInhibit false name)) = -1 then
    return errAnswer .restart "Failed to reset the task respawn inhibit flag."
  else if (← dbCall (.setTaskState 0#64 name now)) = -1 then
    return errAnswer .restart "Could not reset task state."
  else return okAnswer .restart

theorem restartTask_follows {g : Held} (now : Timespec) (n : String) :
    (restartTask now n).Follows (commandDiscipline (some n)) g := by
  unfold restartTask
  simp only [follows_dbCall]
  refine ⟨.inr rfl, fun r => ?_⟩
  split_ifs
  · trivial
  · simp only [follows_dbCall]
    refine ⟨.inr rfl, fun r => ?_⟩
    split_ifs <;> trivial

theorem restart_next {now : Timespec} {cmd : RtimCmd} {q : Call} {k : Reply → Handling RtimCmd}
    (script : execRtimCmdRestart now cmd = .call q k) :
    ∃ m, cmd.args = [m] ∧ q = .look m true ∧ ∀ r,
      (∃ answer, k r = .ret answer) ∨
      (∃ t, r.task = some t ∧ anyBit t.state (stateDone ||| stateFailed) = true ∧
        k r = restartTask now m) := by
  unfold execRtimCmdRestart at script
  split at script
  · rename_i m args
    cases script
    refine ⟨m, args, rfl, fun ⟨ret, task⟩ => ?_⟩
    cases task with
    | none => exact .inl ⟨_, rfl⟩
    | some t =>
      cases ended : anyBit t.state (stateDone ||| stateFailed) with
      | false => exact .inl ⟨_, if_pos (by rw [ended]; rfl)⟩
      | true => exact .inr ⟨t, rfl, ended, if_neg (by rw [ended]; decide)⟩
  · cases script

theorem restart_follows {g : Held} (now : Timespec) (cmd : RtimCmd) :
    (execRtimCmdRestart now cmd).Follows (commandDiscipline cmd.args.head?) g := by
  generalize script : execRtimCmdRestart now cmd = s
  cases s with
  | ret => trivial
  | call q k =>
    obtain ⟨m, args, rfl, next⟩ := restart_next script
    refine ⟨trivial, fun r => ?_⟩
    rw [args]
    rcases next r with ⟨_, ret⟩ | ⟨_, _, _, rest⟩
    · rw [ret]
      trivial
    · rw [rest]
      exact restartTask_follows now m

variable {script : Handling RtimCmd}

/-- Every command keeps to the discipline, and only a RESTART restarts a task. -/
theorem command_disciplined (known : IsCommand script) :
    script.Follows (commandDiscipline none) {} ∨
      ∃ now cmd n, cmd.args = [n] ∧ script = execRtimCmdRestart now cmd ∧
        script.Follows (commandDiscipline (some n)) {} := by
  have plain {script : Handling RtimCmd} (calls : script.Follows (Script.only Call.plain) ()) :
      script.Follows (commandDiscipline none) {} := Script.follows_of_only plain_allowed calls _
  cases known with
  | stop env cmd => exact .inl (stop_follows env cmd)
  | kill env cmd => exact .inl (kill_follows env cmd)
  | restart now cmd =>
    by_cases one : ∃ n, cmd.args = [n]
    · obtain ⟨n, args⟩ := one
      have follows := restart_follows (g := {}) now cmd
      rw [args] at follows
      exact .inr ⟨now, cmd, n, args, rfl, follows⟩
    · left
      unfold execRtimCmdRestart
      split
      · rename_i n args
        exact absurd ⟨n, args⟩ one
      · trivial
  | notify env cmd => exact .inl (plain (notify_plain env cmd))
  | enable ok cmd => exact .inl (plain (enable_plain ok cmd))
  | disable ok depOk cmd => exact .inl (plain (disable_plain ok depOk cmd))
  | addSeries env cmd => exact .inl (plain (addSeries_plain env cmd))

def signalDiscipline : Script.Discipline Call Reply (Bool × Option Int) where
  ok g c := match c with
    | .kill pid _ _ => g.1 = true ∧ g.2 = some pid ∧ 0 < pid
    | _ => True
  next g c r := match c with
    | .setInhibitWait inh _ => (if r.ret = -1 then g.1 else inh, none)
    | .look _ _ => (g.1, r.task.map Task.pid)
    | _ => (g.1, none)

theorem disciplined_signals {restarts : Option String} {g : Held}
    (follows : script.Follows (commandDiscipline restarts) g) :
    script.Follows signalDiscipline (g.waits, g.looked.map Task.pid) := by
  refine follows.mono (fun g s => s = (g.waits, g.looked.map Task.pid)) rfl ?_ ?_
  · rintro g _ c rfl allowed
    cases c with
    | kill => exact allowed
    | _ => trivial
  · rintro g _ c r rfl
    cases c <;> rfl

theorem command_follows (known : IsCommand script) :
    script.Follows signalDiscipline (false, none) := by
  rcases command_disciplined known with follows | ⟨_, _, _, _, _, follows⟩
  · exact disciplined_signals follows
  · exact disciplined_signals follows

def Call.mild (n : String) : Call → Prop
  | .db (.setTaskState s m _) => m = n → lasting s = true
  | .db (.setTaskRespawnInhibit inh m) => m = n → inh = true
  | .db (.rearmTrigger _) | .db (.spawnReady _ _) => False
  | _ => True

theorem disciplined_mild {n : String} {restarts : Option String} (other : restarts ≠ some n)
    {g : Held} (follows : script.Follows (commandDiscipline restarts) g) :
    script.Follows (Script.only (Call.mild n)) () := by
  refine follows.mono (fun _ _ => True) trivial ?_ (fun _ _ _ _ _ => trivial)
  rintro g _ c _ allowed
  cases c with
  | db op =>
    cases op with
    | setTaskState | setTaskRespawnInhibit =>
      rintro rfl
      exact allowed.resolve_right other
    | rearmTrigger | spawnReady => cases allowed
    | _ => trivial
  | _ => trivial

theorem command_mild (known : IsCommand script) (n : String) :
    script.Follows (Script.only (Call.mild n)) () ∨
      ∃ now cmd, cmd.args = [n] ∧ script = execRtimCmdRestart now cmd := by
  rcases command_disciplined known with follows | ⟨now, cmd, m, args, same, follows⟩
  · exact .inl (disciplined_mild (fun none => by cases none) follows)
  · by_cases own : m = n
    · exact .inr ⟨now, cmd, own ▸ args, same⟩
    · exact .inl (disciplined_mild (fun eq => own (Option.some.inj eq)) follows)

end Crinit
