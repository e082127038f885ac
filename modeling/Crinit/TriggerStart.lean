import Crinit.TaskCopies

/-! A task without RESPAWN is started once for each time it is triggered. Only a re-arm makes it
ready again, and behind it a trigger has to fire again. -/
namespace Crinit

open Interleave List

/-- Nothing overwrites the task, and of all callers of the TaskDB only dispatch
threads and commands store its state or re-arm it. -/
def drivenByDaemon (n : String) (e : Step) : Bool :=
  match e.thread, e.move.event with
  | .client, .db (.setTaskState _ m _) | .client, .db (.rearmTrigger m) => m != n
  | _, event => !event.overwrites n

def Boot.NeverRestarts (b : Boot) (n : String) : Prop :=
  ∀ h, Thread.handler h ∈ b.others → ∀ now cmd, cmd.args = [n] →
    h.script ≠ execRtimCmdRestart now cmd

def Event.Fulfils (n : String) (dep : TaskDep) (e : Event) : Prop :=
  e = .db (.fulfillDep dep none) ∨ e = .db (.fulfillDep dep (some n)) ∨
    e = .db (.removeDepFromTask dep n)

def Rearmed (n : String) (tr : List Step) : Prop := ∃ r ∈ tr, r.move.event = .db (.rearmTrigger n)

def FiredAgain (n : String) (trig : List TaskDep) (tr : List Step) : Prop :=
  ∃ tr₁ f tr₂, tr = tr₁ ++ f :: tr₂ ∧ Rearmed n tr₁ ∧ ∃ dep ∈ trig, f.move.event.Fulfils n dep

variable {n : String} {tr : List Step}

theorem rearmed_next (rearmed : Rearmed n tr) (e : Step) : Rearmed n (tr ++ [e]) := by
  obtain ⟨r, mem, event⟩ := rearmed
  exact ⟨r, mem_append_left _ mem, event⟩

theorem firedAgain_next {trig : List TaskDep} (fired : FiredAgain n trig tr) (e : Step) :
    FiredAgain n trig (tr ++ [e]) := by
  obtain ⟨tr₁, f, tr₂, rfl, rearmed, fires⟩ := fired
  exact ⟨tr₁, f, tr₂ ++ [e], by simp, rearmed, fires⟩

structure Driven (n : String) (c : Config) : Prop where
  copies : Copies n c
  mild : ∀ j h, HandlerAt c j h → h.script.Follows (Script.only (Call.mild n)) ()

variable {e : Step}

theorem driven_kept (guard : drivenByDaemon n e = true) : e.move.event.overwrites n = false := by
  unfold drivenByDaemon at guard
  split at guard
  · rename_i event
    rw [event]
    rfl
  · rename_i event
    rw [event]
    rfl
  · exact (Bool.not_eq_true' _).mp guard

theorem driven_step (before : Driven n e.before) (ht : e.before.threads[e.index]? = some e.thread)
    (step : system e.before.shared e.thread e.answers = some e.move)
    (guard : drivenByDaemon n e = true) : Driven n e.result := by
  refine ⟨copies_step before.copies ht step (driven_kept guard), ?_⟩
  intro j h hh
  obtain ⟨h₀, old, ⟨_, rfl⟩ | ⟨_, q, k, script, _, rfl⟩⟩ :=
    handler_origin ht (system_moves step).2 hh
  · exact before.mild j h old
  · have calls := before.mild j h₀ old
    rw [script] at calls
    exact calls.2 _

theorem boot_driven {b : Boot} (never : b.NeverRestarts n) : Driven n b.conf := by
  refine ⟨boot_copies b n, ?_⟩
  intro j h hh
  rcases boot_threads b hh with ⟨_, main⟩ | ⟨_, fresh⟩
  · cases main
  · have mem : Thread.handler h ∈ b.others := by
      rcases List.mem_cons.mp (mem_of_getElem? hh) with eq | mem
      · cases eq
      · exact mem
    cases fresh with
    | command known =>
      rcases command_mild known n with mild | ⟨now, cmd, args, same⟩
      · exact mild
      · exact absurd same (never _ mem now cmd args)

variable {t : Task}

inductive SinceStart (n : String) (tr : List Step) (t : Task) : Prop where
  | lasting (word : lasting t.state = true)
  | rearmed (rearm : t.triggerRearm = true) (rearmed : Rearmed n tr)
      (fired : t.triggered = true → FiredAgain n t.trig tr)

theorem lasting_not_ready (word : lasting t.state = true) (single : t.respawn = false) :
    taskIsReady t ≠ true := by
  intro ready
  rcases (Bool.or_eq_true _ _).mp word with isBusy | ended
  · rw [ready_not_busy ready] at isBusy
    cases isBusy
  · rw [ready_ended ready ended] at single
    cases single

theorem sinceStart_ready (since : SinceStart n tr t) (single : t.respawn = false)
    (ready : taskIsReady t = true) :
    t.triggerRearm = true ∧ Rearmed n tr ∧ FiredAgain n t.trig tr := by
  cases since with
  | lasting word => exact absurd ready (lasting_not_ready word single)
  | rearmed rearm rearmed fired => exact ⟨rearm, rearmed, fired (ready_triggered ready)⟩

theorem sinceStart_keeps {t' : Task} (since : SinceStart n tr t) (e : Step)
    (state : t'.state = t.state) (opts : t'.opts = t.opts) (trig : t'.trig = t.trig)
    (triggered : t'.triggered = true → t.triggered = true ∨
      (Rearmed n tr → FiredAgain n t.trig (tr ++ [e]))) : SinceStart n (tr ++ [e]) t' := by
  cases since with
  | lasting word => exact .lasting (state ▸ word)
  | rearmed rearm rearmed fired =>
    refine .rearmed ?_ (rearmed_next rearmed e) fun now => ?_
    · unfold Task.triggerRearm at rearm ⊢
      rwa [opts]
    · rw [trig]
      rcases triggered now with earlier | fires
      · exact firedAgain_next (fired earlier) e
      · exact fires rearmed

section Driving

variable (before : Driven n e.before) (ht : e.before.threads[e.index]? = some e.thread)
    (moves : Moves e.before.shared e.answers e.thread e.move.event e.move.thread e.move.started)
    (guard : drivenByDaemon n e = true)
include before ht moves guard

/-- Every state that is stored for the task says that it is started or has ended. -/
theorem driven_stores {s : TaskState} {now : Timespec}
    (event : e.move.event = .db (.setTaskState s n now)) : lasting s = true := by
  rw [event] at moves
  rcases moves_db moves with ⟨d, d', -, next⟩ | ⟨h, k, own, script⟩ | own | ⟨_, _, scan⟩ | inhibit
  · rcases dispatchMoves_db (next_dispatchMoves next) with ⟨_, call⟩ | ⟨g, _, _, call⟩ | ⟨_, call⟩ |
      ⟨_, call⟩ <;> cases call
    cases g <;> decide
  · have calls := before.mild e.index h (ht.trans (congrArg some own))
    rw [script] at calls
    exact calls.1 rfl
  · simp [drivenByDaemon, own, event] at guard
  · cases scan
  · cases inhibit

/-- Only a dispatch thread re-arms the task, and only when it says TRIGGER_REARM. -/
theorem driven_rearms (found : e.before.shared.db.findTask n = some t)
    (event : e.move.event = .db (.rearmTrigger n)) : t.triggerRearm = true := by
  rw [event] at moves
  rcases moves_db moves with ⟨d, d', own, -⟩ | ⟨h, k, own, script⟩ | own | ⟨_, _, scan⟩ | inhibit
  · rw [own] at moves ht
    exact rearms_of_copies before.copies ht moves found
  · have calls := before.mild e.index h (ht.trans (congrArg some own))
    rw [script] at calls
    exact absurd calls.1 id
  · simp [drivenByDaemon, own, event] at guard
  · cases scan
  · cases inhibit

theorem sinceStart_step (found : e.before.shared.db.findTask n = some t)
    (single : t.respawn = false) (armed : t.triggerRearm = false ∨ t.trig ≠ [])
    (since : SinceStart n tr t) :
    ∃ t', (e.before.shared.after e.move.event).db.findTask n = some t' ∧ t'.opts = t.opts ∧
      t'.trig = t.trig ∧ SinceStart n (tr ++ [e]) t' := by
  obtain ⟨t', found', ⟨rfl, _⟩ | ⟨op, event, change⟩⟩ := find_after found (driven_kept guard)
  · exact ⟨t', found', rfl, rfl, sinceStart_keeps since e rfl rfl rfl .inl⟩
  · have fixed := changes_fixed change
    refine ⟨t', found', fixed.1, fixed.2.1, ?_⟩
    cases changes_effect change with
    | started => exact .lasting (by rw [setState_state]; decide)
    | unstarted mode f scan ready =>
      -- the task keeps what made it ready, and only loses its state
      obtain ⟨rearm, rearmed, fired⟩ := sinceStart_ready since single ready
      exact .rearmed rearm (rearmed_next rearmed e) fun _ => firedAgain_next fired e
    | rearmed call =>
      subst call
      have rearm := driven_rearms before ht moves guard found event
      refine .rearmed rearm ⟨e, by simp, event⟩ fun triggered => ?_
      simp only [Task.rearm, beq_iff_eq, length_eq_zero_iff] at triggered
      rcases armed with never | some
      · rw [rearm] at never
        cases never
      · exact absurd triggered some
    | stored s now call =>
      subst call
      exact .lasting (by rw [withState_state]; exact driven_stores before ht moves guard event)
    | matched dep call =>
      refine sinceStart_keeps since e rfl rfl rfl fun triggered => ?_
      rcases (Bool.or_eq_true _ _).mp triggered with earlier | fires
      · exact .inl earlier
      · refine .inr fun rearmed => ⟨tr, e, [], rfl, rearmed, dep, by simpa using fires, ?_⟩
        rw [event]
        rcases call with rfl | rfl | rfl
        · exact .inl rfl
        · exact .inr (.inl rfl)
        · exact .inr (.inr rfl)
    | none | pid | inhibited | depAdded => exact sinceStart_keeps since e rfl rfl rfl .inl

end Driving

theorem driven_run {c₀ c : Config} (start : Driven n c₀)
    (run : Run system (fun e => drivenByDaemon n e = true) c₀ tr c) : Driven n c :=
  run.invariant (Driven n) start fun c i t m a before ht step guard =>
    driven_step (e := ⟨c, i, a, t, m⟩) before ht step guard

theorem driven_scan {f : Option (Task → Mode → Bool)} {mode : Mode}
    (scan : e.move.event = .db (.spawnReady mode f)) : drivenByDaemon n e = true := by
  unfold drivenByDaemon
  rw [scan]
  cases e.thread <;> rfl

theorem sinceStart_run {c₀ c : Config} (start : Driven n c₀) {u : Task}
    (single : t.respawn = false) (armed : t.triggerRearm = false ∨ t.trig ≠ [])
    (found : c₀.shared.db.findTask n = some u) (opts : u.opts = t.opts) (trig : u.trig = t.trig)
    (since : SinceStart n [] u) (run : Run system (fun e => drivenByDaemon n e = true) c₀ tr c) :
    ∃ v, c.shared.db.findTask n = some v ∧ v.opts = t.opts ∧ v.trig = t.trig ∧
      SinceStart n tr v := by
  have all := run.history (fun tr c => Driven n c ∧ ∃ v, c.shared.db.findTask n = some v ∧
    v.opts = t.opts ∧ v.trig = t.trig ∧ SinceStart n tr v) ⟨start, u, found, opts, trig, since⟩ ?_
  · exact all.2
  · rintro tr c i th m a ⟨driven, v, found, opts, trig, since⟩ ht step guard
    obtain ⟨shared, moves⟩ := system_moves step
    have single' : v.respawn = false := by
      unfold Task.respawn at single ⊢
      rwa [opts]
    have armed' : v.triggerRearm = false ∨ v.trig ≠ [] := by
      unfold Task.triggerRearm at armed ⊢
      rwa [opts, trig]
    obtain ⟨v', found', opts', trig', since'⟩ :=
      sinceStart_step (e := ⟨c, i, a, th, m⟩) driven ht moves
      guard found single' armed' since
    refine ⟨driven_step (e := ⟨c, i, a, th, m⟩) driven ht step guard, v', ?_, opts'.trans opts,
      trig'.trans trig, since'⟩
    simpa only [Conf.after, shared] using found'

/-- Between two starts of a task without RESPAWN it was re-armed, which it must ask
for, and behind that one of its triggers fired. -/
theorem one_start_per_trigger {b : Boot} {n : String} (never : b.NeverRestarts n)
    {pre mid : List Step} {c₀ c₁ : Config} {i j : Nat} {a a' : Answers}
    {first second : Step} {t : Task}
    (reach : Run system (fun e => drivenByDaemon n e = true) b.conf pre c₀)
    (start : c₀.step system i a = some first) (starts : startsFor n first = true)
    (found : c₀.shared.db.findTask n = some t) (single : t.respawn = false)
    (armed : t.triggerRearm = false ∨ t.trig ≠ [])
    (between : Run system (fun e => drivenByDaemon n e = true) first.result mid c₁)
    (again : c₁.step system j a' = some second) (restarts : startsFor n second = true) :
    t.triggerRearm = true ∧ FiredAgain n t.trig mid := by
  have driven := driven_run (boot_driven never) reach
  obtain ⟨th, m, ht, step, rfl⟩ := step_iff.mp start
  obtain ⟨shared, moves⟩ := system_moves step
  obtain ⟨scan, u, same, _, starting⟩ := startsFor_ready driven.copies.distinct moves starts
  cases Option.some.inj (found.symm.trans same)
  have driven₁ := driven_step (e := ⟨c₀, i, a, th, m⟩) driven ht step (driven_scan scan)
  have found₁ : (c₀.after i m).shared.db.findTask n = some (t.setState stateStarting) := by
    simpa only [Conf.after, shared] using starting
  have since : SinceStart n [] (t.setState stateStarting) :=
    .lasting (by rw [setState_state]; decide)
  obtain ⟨v, found₂, opts, trig, since⟩ :=
    sinceStart_run driven₁ single armed found₁ rfl rfl since between
  obtain ⟨th', m', _, step', rfl⟩ := step_iff.mp again
  have distinct := (driven_run driven₁ between).copies.distinct
  obtain ⟨_, w, same', ready, _⟩ := startsFor_ready distinct (system_moves step').2 restarts
  cases Option.some.inj (found₂.symm.trans same')
  have single' : v.respawn = false := by
    unfold Task.respawn at single ⊢
    rwa [opts]
  obtain ⟨rearm, _, fired⟩ := sinceStart_ready since single' ready
  unfold Task.triggerRearm at rearm ⊢
  rw [opts] at rearm
  rw [trig] at fired
  exact ⟨rearm, fired⟩

def plugged : TaskDep := ⟨"@elos", "plugged"⟩

def mountBoot : Boot where
  db := { taskSet :=
    [{ name := "mount", trig := [plugged], triggered := false, opts := optTriggerRearm }] }
  distinct := by decide
  others := [.children, .client]
  fresh := by
    intro t mem
    simp only [mem_cons, not_mem_nil, or_false] at mem
    rcases mem with rfl | rfl
    · exact .children
    · exact .client

def plugs : Nat × Answers := (2, { op := .fulfillDep plugged none })

def mountReady : Config := final mountBoot.conf (steps system mountBoot.conf [plugs])

def mountStart : Step := (mountReady.step system 0 {}).get rfl

/-- The group of no commands is done at once; its thread re-arms it, and the event
comes a second time. -/
def mountAgain : List (Nat × Answers) := turns 3 6 ++ [plugs] ++ turns 0 2

def mountReadyAgain : Config := final mountStart.result (steps system mountStart.result mountAgain)

def mountRestart : Step := (mountReadyAgain.step system 0 {}).get rfl

theorem one_start_per_trigger_twice :
    ∃ mid, Run system (fun e => drivenByDaemon "mount" e = true) mountStart.result mid
      mountReadyAgain ∧
      startsFor "mount" mountStart = true ∧ startsFor "mount" mountRestart = true ∧
      FiredAgain "mount" [plugged] mid := by
  have reach := run_of_schedule system (drivenByDaemon "mount") [plugs] mountBoot.conf (by decide)
  have between := run_of_schedule system (drivenByDaemon "mount") mountAgain
    mountStart.result (by decide)
  have starts : startsFor "mount" mountStart = true := by decide
  have restarts : startsFor "mount" mountRestart = true := by decide
  have never : mountBoot.NeverRestarts "mount" := by
    intro h mem
    simp [mountBoot] at mem
  obtain ⟨_, fired⟩ := one_start_per_trigger never reach (Option.some_get _).symm starts
    rfl (by decide) (.inr (by decide)) between (Option.some_get _).symm restarts
  exact ⟨_, between, starts, restarts, fired⟩

end Crinit
