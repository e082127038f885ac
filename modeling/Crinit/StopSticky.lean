import Crinit.Discipline

/-! A task with RESPAWN that was stopped stays down. Only RESTART takes the flag of STOP back. -/
namespace Crinit

open Interleave List

def flagsByCommand (e : Step) : Bool :=
  match e.thread, e.move.event with
  | .client, .db (.setTaskRespawnInhibit _ _) => false
  | _, _ => true

def RestartChecks (n : String) (e : Step) : Prop :=
  ∃ h now cmd t, e.thread = .handler h ∧ h.script = execRtimCmdRestart now cmd ∧ cmd.args = [n] ∧
    e.before.shared.db.findTask n = some t ∧ anyBit t.state (stateDone ||| stateFailed) = true

def Call.keepsFlag (n : String) (c : Call) : Prop := c ≠ .db (.setTaskRespawnInhibit false n)

variable {n : String}

theorem mild_keepsFlag (g : Unit) (c : Call) (mild : c.mild n) :
    (Script.only (Call.keepsFlag n) : Script.Discipline Call Reply Unit).ok g c := by
  rintro rfl
  cases mild rfl

theorem restartTask_clears (now : Timespec) (n : String) :
    ∃ k, restartTask now n = .call (.db (.setTaskRespawnInhibit false n)) k ∧
      ∀ r, (k r).Follows (Script.only (Call.keepsFlag n)) () := by
  refine ⟨_, rfl, fun ⟨ret, _⟩ => ?_⟩
  show Script.Follows _ _ (if ret = -1 then _ else _)
  split_ifs
  · trivial
  · refine ⟨fun same => (by cases same), fun ⟨ret, _⟩ => ?_⟩
    show Script.Follows _ _ (if ret = -1 then _ else _)
    split_ifs <;> trivial

/-- How far a command has got towards taking back the flag of the task. -/
inductive Clearing (n : String) (tr : List Step) (j : Nat) : Handling RtimCmd → Prop where
  | never {script : Handling RtimCmd}
      (follows : script.Follows (Script.only (Call.keepsFlag n)) ()) : Clearing n tr j script
  | unchecked (now : Timespec) (cmd : RtimCmd) : Clearing n tr j (execRtimCmdRestart now cmd)
  | checked (now : Timespec) {e : Step} (past : e ∈ tr) (own : e.index = j)
      (checks : RestartChecks n e) : Clearing n tr j (restartTask now n)

variable {j : Nat} {script : Handling RtimCmd}

theorem clearing_of_command (known : IsCommand script) : Clearing n [] j script := by
  rcases command_mild known n with mild | ⟨now, cmd, _, rfl⟩
  · exact .never (Script.follows_of_only mild_keepsFlag mild _)
  · exact .unchecked now cmd

variable {tr : List Step}

theorem clearing_call {e : Step} {h : Handler} {q : Call} {k : Reply → Handling RtimCmd}
    (clearing : Clearing n tr e.index h.script) (here : e.thread = .handler h)
    (script : h.script = .call q k) :
    Clearing n (tr ++ [e]) e.index (k (q.reply e.before.shared)) := by
  rw [script] at clearing
  generalize same : Script.call q k = s at clearing
  cases clearing with
  | never follows =>
    subst same
    exact .never (follows.2 _)
  | unchecked now cmd =>
    obtain ⟨m, args, rfl, next⟩ := restart_next same.symm
    rcases next (Call.reply e.before.shared (.look m true)) with ⟨_, ret⟩ | ⟨t, found, ended, rest⟩
    · rw [ret]
      exact .never trivial
    · rw [rest]
      by_cases own : m = n
      · subst own
        exact .checked now (mem_append_right _ (List.mem_singleton.mpr rfl)) rfl
          ⟨h, now, cmd, t, here, script.trans same, args, found, ended⟩
      · exact .never (Script.follows_of_only mild_keepsFlag
          (disciplined_mild (fun eq => own (Option.some.inj eq))
          (restartTask_follows (g := {}) now _)) _)
  | checked now past own checks =>
    obtain ⟨k', rest, follows⟩ := restartTask_clears now n
    cases same.trans rest
    exact .never (follows _)

theorem clearing_later (clearing : Clearing n tr j script) (e : Step) :
    Clearing n (tr ++ [e]) j script := by
  cases clearing with
  | never follows => exact .never follows
  | unchecked now cmd => exact .unchecked now cmd
  | checked now past own checks => exact .checked now (mem_append_left _ past) own checks

variable {c : Config}

theorem run_clearing {guard : Step → Prop} {b : Boot} (n : String)
    (run : Run system guard b.conf tr c) {h : Handler} (hh : HandlerAt c j h) :
    Clearing n tr j h.script := by
  refine run.history (fun tr c => ∀ j h, HandlerAt c j h → Clearing n tr j h.script) ?_ ?_ j h hh
  · intro j h hh
    rcases boot_threads b hh with ⟨_, eq⟩ | ⟨_, fresh⟩
    · cases eq
    · cases fresh with
      | command known => exact clearing_of_command known
  · intro tr c i t m a before ht step _ j h hh
    obtain ⟨_, moves⟩ := system_moves step
    rcases handler_origin ht moves hh with ⟨h₀, old, ⟨_, rfl⟩ | ⟨rfl, q, k, script, _, rfl⟩⟩
    · exact clearing_later (before j h old) _
    · cases Option.some.inj (ht.symm.trans old)
      exact clearing_call (before j h₀ old) rfl script

theorem clearing_done (clearing : Clearing n tr j script) {k : Reply → Handling RtimCmd}
    (clears : script = .call (.db (.setTaskRespawnInhibit false n)) k) :
    ∃ e ∈ tr, e.index = j ∧ RestartChecks n e := by
  cases clearing with
  | never follows =>
    subst clears
    exact absurd rfl follows.1
  | unchecked now cmd =>
    obtain ⟨m, _, eq, _⟩ := restart_next clears
    cases eq
  | checked now past own checks => exact ⟨_, past, own, checks⟩

/-- Who takes back the flag is a command. -/
theorem moves_clears {i : Nat} {t : Thread} {a : Answers} {m : Move World Thread Event}
    (step : system c.shared t a = some m) (commands : flagsByCommand ⟨c, i, a, t, m⟩ = true)
    (clears : m.event = .db (.setTaskRespawnInhibit false n)) :
    ∃ h k, t = .handler h ∧ h.script = .call (.db (.setTaskRespawnInhibit false n)) k := by
  have moves := (system_moves step).2
  rw [clears] at moves
  rcases moves_db moves with ⟨d, d', rfl, next⟩ | handler | rfl | ⟨_, _, scan⟩ | inhibit
  · rcases dispatchMoves_db (next_dispatchMoves next) with ⟨_, eq⟩ | ⟨_, _, _, eq⟩ | ⟨_, eq⟩ |
      ⟨_, eq⟩ <;> cases eq
  · exact handler
  · simp [flagsByCommand, clears] at commands
  · cases scan
  · cases inhibit

def Stopped (n : String) (c : Config) : Prop :=
  ∃ t, c.shared.db.findTask n = some t ∧ t.respawn = true ∧ t.inhibitRespawn = true

theorem stopped_after {i : Nat} {t : Thread} {a : Answers} {m : Move World Thread Event}
    (before : Stopped n c) (step : system c.shared t a = some m)
    (kept : m.event.overwrites n = false) (set : m.event ≠ .db (.setTaskRespawnInhibit false n)) :
    Stopped n (c.after i m) := by
  obtain ⟨u, found, respawn, inhibited⟩ := before
  obtain ⟨u', found', ⟨same, _⟩ | ⟨op, event, change⟩⟩ := find_after found kept
  · subst same
    exact ⟨u', by simpa only [Conf.after, (system_moves step).1] using found', respawn, inhibited⟩
  · refine ⟨u', by simpa only [Conf.after, (system_moves step).1] using found', ?_, ?_⟩
    · unfold Task.respawn at respawn ⊢
      rwa [(changes_fixed change).1]
    · rcases changes_inhibit change with same | ⟨inh, rfl, same⟩
      · rwa [same]
      · cases inh with
        | true => exact same
        | false => exact absurd event set

/-- Behind the flag set by STOP no START-mode thread is started for a task with
RESPAWN, unless the task is overwritten or a RESTART of it has found it DONE or
FAILED and taken the flag back. -/
theorem stop_sticky {b : Boot} {pre mid : List Step} {c₀ c₁ : Config} {i j : Nat} {a a' : Answers}
    {stop start : Step} {n : String} {t : Task}
    (first : Run system (fun e => flagsByCommand e = true) b.conf pre c₀)
    (stops : c₀.step system i a = some stop)
    (sets : stop.move.event = .db (.setTaskRespawnInhibit true n))
    (found : c₀.shared.db.findTask n = some t) (respawn : t.respawn = true)
    (second : Run system (fun e => flagsByCommand e = true) stop.result mid c₁)
    (scan : c₁.step system j a' = some start) (starts : startsFor n start = true) :
    ∃ mid₁ e mid₂, mid = mid₁ ++ e :: mid₂ ∧ (e.move.event.overwrites n = true ∨
      (e.move.event = .db (.setTaskRespawnInhibit false n) ∧
        ∃ check ∈ pre ++ stop :: mid₁, check.index = e.index ∧ RestartChecks n check)) := by
  have whole : Run system (fun _ => True) b.conf (pre ++ [stop] ++ mid) c₁ :=
    (Run.next i a (first.weaken fun _ _ => trivial) stops trivial).append
      (second.weaken fun _ _ => trivial)
  obtain ⟨u, m, _, move, rfl⟩ := step_iff.mp stops
  have stopped : Stopped n (c₀.after i m) := by
    have event : m.event = .db (.setTaskRespawnInhibit true n) := sets
    refine ⟨t.setInhibitRespawn true, ?_, respawn, rfl⟩
    simp only [Conf.after, (system_moves move).1, event, World.after,
      respawnInhibit_known true found]
    exact update_find_self _ (fun _ => rfl) found
  have started : ¬ Stopped n c₁ := by
    rintro ⟨v, found, respawn, inhibited⟩
    obtain ⟨u', m', _, move', rfl⟩ := step_iff.mp scan
    obtain ⟨_, v', found', ready, _⟩ :=
      startsFor_ready (run_distinct whole) (system_moves move').2 starts
    cases Option.some.inj (found.symm.trans found')
    have free := ((ready_iff v).mp ready).2.2.2.1 respawn
    rw [inhibited] at free
    cases free
  obtain ⟨e, mem, before, after⟩ :=
    second.onset (fun c => ¬ Stopped n c) (not_not_intro stopped) started
  obtain ⟨mid₁, mid₂, rfl⟩ := append_of_mem mem
  refine ⟨mid₁, e, mid₂, rfl, ?_⟩
  obtain ⟨_, commands, ht, step⟩ := second.taken e mem
  by_cases overwritten : e.move.event.overwrites n = true
  · exact .inl overwritten
  · right
    have clears : e.move.event = .db (.setTaskRespawnInhibit false n) := by
      by_contra set
      exact after (stopped_after (not_not.mp before) step (by simpa using overwritten) set)
    obtain ⟨h, k, here, script⟩ := moves_clears step commands clears
    refine ⟨clears, ?_⟩
    rw [append_assoc, singleton_append, ← cons_append, ← append_assoc] at whole
    rw [here] at ht
    exact clearing_done (run_clearing n whole.around.1 ht) script

def gettyBoot : Boot where
  db := { taskSet := [{ name := "getty", cmds := [["/sbin/getty"]], opts := optRespawn }] }
  distinct := by decide
  others := [.children, .handler { script := execRtimCmdStop {} ⟨.c .stop, ["getty"]⟩ },
    .handler { script := execRtimCmdRestart {} ⟨.c .restart, ["getty"]⟩ }]
  fresh := by
    intro t mem
    simp only [mem_cons, not_mem_nil, or_false] at mem
    rcases mem with rfl | rfl | rfl
    · exact .children
    · exact .command (.stop _ _)
    · exact .command (.restart _ _)

def gettyRuns : List (Nat × Answers) :=
  turns 0 1 ++ turns 4 2 ++ [(4, { pid := 5 })] ++ turns 4 4 ++ turns 2 1

def gettyRestarts : List (Nat × Answers) :=
  turns 2 3 ++ [(1, { pid := 5 }), (4, { ok := false })] ++ turns 4 7 ++ turns 3 3 ++ turns 0 2

def gettyUp : Config := final gettyBoot.conf (steps system gettyBoot.conf gettyRuns)

def gettyStop : Step := (gettyUp.step system 2 {}).get rfl

def gettyDown : Config := final gettyStop.result (steps system gettyStop.result gettyRestarts)

def gettyStart : Step := (gettyDown.step system 0 {}).get rfl

theorem stop_sticky_restarted :
    ∃ pre mid, Run system (fun e => flagsByCommand e = true) gettyBoot.conf pre gettyUp ∧
      gettyStop.move.event = .db (.setTaskRespawnInhibit true "getty") ∧
      Run system (fun e => flagsByCommand e = true) gettyStop.result mid gettyDown ∧
      startsFor "getty" gettyStart = true ∧
      ∃ check ∈ pre ++ gettyStop :: mid, RestartChecks "getty" check := by
  have first := run_of_schedule system flagsByCommand gettyRuns gettyBoot.conf (by decide)
  have second := run_of_schedule system flagsByCommand gettyRestarts gettyStop.result (by decide)
  have sets : gettyStop.move.event = .db (.setTaskRespawnInhibit true "getty") := rfl
  have starts : startsFor "getty" gettyStart = true := by decide
  have kept : (steps system gettyStop.result gettyRestarts).all
      (fun e => !e.move.event.overwrites "getty") = true := by decide
  obtain ⟨mid₁, e, mid₂, split, cause⟩ :=
    stop_sticky first (Option.some_get _).symm sets rfl rfl second (Option.some_get _).symm starts
  refine ⟨_, _, first, sets, second, starts, ?_⟩
  rw [split] at kept ⊢
  rcases cause with overwritten | ⟨_, check, mem, _, checks⟩
  · simp [overwritten] at kept
  · refine ⟨check, ?_, checks⟩
    rw [← cons_append, ← append_assoc]
    exact mem_append_left _ mem

end Crinit
