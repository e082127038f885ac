import Crinit.AddSeries
import Crinit.System

/-! The inhibition of spawning is one flag for every ADDSERIES and for the shutdown. -/
namespace Crinit

open Interleave List

def Thread.loadsSeries : Thread → Bool
  | .handler h => h.spawnHeld && !h.script.returned
  | _ => false

def Thread.inhibitsSpawn : Thread → Bool
  | .shutdown .down => true
  | t => t.loadsSeries

def allowsSpawnAlone (e : Step) : Bool :=
  match e.move.event with
  | .db (.setSpawnInhibit false) =>
    (e.before.threads.eraseIdx e.index).all fun t => !t.inhibitsSpawn
  | _ => true

def startsTask (e : Step) : Bool := e.move.started.any (Thread.runs .start)

theorem after_spawnInhibit (w : World) (e : Event) :
    (∃ inh, e = .db (.setSpawnInhibit inh) ∧ (w.after e).db.spawnInhibit = inh) ∨
      (∀ inh, e ≠ .db (.setSpawnInhibit inh)) ∧
        (w.after e).db.spawnInhibit = w.db.spawnInhibit := by
  cases e with
  | db op =>
    simp only [World.after, spawnInhibit_apply]
    cases op with
    | setSpawnInhibit inh => exact .inl ⟨inh, rfl, rfl⟩
    | _ => exact .inr ⟨fun _ event => (by cases event), rfl⟩
  | _ => exact .inr ⟨fun _ event => (by cases event), rfl⟩

variable {a : Answers} {t : Thread}

theorem inhibits_before {w : World} {t' : Thread} {e : Event} {started : List Thread}
    (moves : Moves w a t e t' started) (inhibits : t'.inhibitsSpawn = true) :
    e = .db (.setSpawnInhibit true) ∨
      t.inhibitsSpawn = true ∧ ∀ inh, e ≠ .db (.setSpawnInhibit inh) := by
  cases moves with
  | inhibit => exact .inl rfl
  | call h q k script =>
    have held : (h.proceed q (k (q.reply w))).spawnHeld = true := by
      simp only [Thread.inhibitsSpawn, Thread.loadsSeries, Bool.and_eq_true] at inhibits
      exact inhibits.1
    have kept (same : h.spawnHeld = true) : (Thread.handler h).inhibitsSpawn = true := by
      simp [Thread.inhibitsSpawn, Thread.loadsSeries, same, script, Script.returned]
    cases q with
    | db op =>
      cases op with
      | setSpawnInhibit inh =>
        cases held
        exact .inl rfl
      | _ => exact .inr ⟨kept held, fun _ event => (by cases event)⟩
    | setInhibitWait inh ok => cases ok <;> exact .inr ⟨kept held, fun _ event => (by cases event)⟩
    | _ => exact .inr ⟨kept held, fun _ event => (by cases event)⟩
  | _ => cases inhibits

def InhibitionHeld (c : Config) : Prop :=
  ∀ (j : Nat) (t : Thread), c.threads[j]? = some t → t.inhibitsSpawn = true →
    c.shared.db.spawnInhibit = true

variable {m : Move World Thread Event}

theorem inhibitionHeld_step {c : Config} {i : Nat} (before : InhibitionHeld c)
    (ht : c.threads[i]? = some t) (step : system c.shared t a = some m)
    (alone : allowsSpawnAlone ⟨c, i, a, t, m⟩ = true) : InhibitionHeld (c.after i m) := by
  obtain ⟨shared, moves⟩ := system_moves step
  intro j u hu inhibits
  simp only [Conf.after, shared]
  rcases after_spawnInhibit c.shared m.event with ⟨inh, event, flag⟩ | ⟨quiet, flag⟩
  · rw [flag]
    rcases after_lookup ht hu with ⟨_, rfl⟩ | ⟨ne, old⟩ | ⟨_, new⟩
    · rcases inhibits_before moves inhibits with set | ⟨_, other⟩
      · cases event.symm.trans set
        rfl
      · exact absurd event (other inh)
    · cases inh with
      | true => rfl
      | false =>
        simp only [allowsSpawnAlone, event] at alone
        have free := others_all alone ne old
        simp [inhibits] at free
    · obtain ⟨d, rfl⟩ := started_dispatch moves (mem_of_getElem? new)
      cases inhibits
  · rw [flag]
    rcases after_lookup ht hu with ⟨_, rfl⟩ | ⟨_, old⟩ | ⟨_, new⟩
    · rcases inhibits_before moves inhibits with set | ⟨was, _⟩
      · exact absurd set (quiet true)
      · exact before i t ht was
    · exact before j u old inhibits
    · obtain ⟨d, rfl⟩ := started_dispatch moves (mem_of_getElem? new)
      cases inhibits

theorem inhibited_starts_none {w : World} (step : system w t a = some m)
    (inhibited : w.db.spawnInhibit = true) : m.started.any (Thread.runs .start) = false := by
  obtain ⟨_, moves⟩ := system_moves step
  rw [any_eq_false]
  intro u mem start
  obtain ⟨d, rfl⟩ := started_dispatch moves mem
  obtain ⟨x, new⟩ := mem_iff_getElem?.mp mem
  obtain ⟨_, _, stop | ⟨_, _, started⟩⟩ := moves_started moves new
  · simp [Thread.runs, stop] at start
  · simp [TaskDB.spawnReady, inhibited] at started

theorem down_stays {c : Config} {i j : Nat} (down : c.threads[j]? = some (Thread.shutdown .down))
    (ht : c.threads[i]? = some t) (step : system c.shared t a = some m) :
    (c.after i m).threads[j]? = some (Thread.shutdown .down) := by
  refine after_other down ?_ m
  rintro rfl
  cases Option.some.inj (ht.symm.trans down)
  have moves := (system_moves step).2
  cases moves

/-- In every run in which spawning is allowed again only when no other thread wants
it inhibited, no task is started while an ADDSERIES loads, and none after the
shutdown thread has inhibited spawning. -/
theorem spawn_inhibition_exclusive {b : Boot} {tr : List Step} {c : Config}
    (run : Run system (fun e => allowsSpawnAlone e = true) b.conf tr c) :
    (∀ e ∈ tr, startsTask e = true → ∀ t ∈ e.before.threads, t.loadsSeries = false) ∧
      ∀ pre e post, tr = pre ++ e :: post → e.thread = .shutdown .inhibit →
        ∀ e' ∈ post, startsTask e' = false := by
  have initial : InhibitionHeld b.conf := by
    intro j t h inhibits
    rcases boot_threads b h with ⟨_, rfl⟩ | ⟨_, fresh⟩
    · cases inhibits
    · cases fresh <;> cases inhibits
  have none : ∀ e ∈ tr, ∀ (j : Nat) (t : Thread), e.before.threads[j]? = some t →
      t.inhibitsSpawn = true → startsTask e = false := by
    intro e he j t ht inhibits
    obtain ⟨⟨past, reach⟩, _, _, step⟩ := run.taken e he
    have held : InhibitionHeld e.before := reach.invariant InhibitionHeld initial
      fun c i t m a before ht step guard => inhibitionHeld_step before ht step guard
    exact inhibited_starts_none step (held j t ht inhibits)
  refine ⟨?_, ?_⟩
  · intro e he starts t mem
    obtain ⟨j, ht⟩ := mem_iff_getElem?.mp mem
    cases loads : t.loadsSeries with
    | false => rfl
    | true =>
      have inhibits : t.inhibitsSpawn = true := by
        unfold Thread.inhibitsSpawn
        split
        · rfl
        · exact loads
      rw [none e he j t ht inhibits] at starts
      cases starts
  · intro pre e post eq thread e' he'
    subst eq
    obtain ⟨_, _, ht, step⟩ := run.taken e (by simp)
    obtain ⟨_, moves⟩ := system_moves step
    have down : e.result.threads[e.index]? = some (Thread.shutdown .down) := by
      rw [thread] at moves
      rw [Taken.result, after_self ht]
      generalize e.move.event = event, e.move.thread = t', e.move.started = started at moves
      cases moves
      rfl
    obtain ⟨mid, behind⟩ := run.later.1 e' he'
    have still := behind.invariant (fun c => c.threads[e.index]? = some (Thread.shutdown .down))
      down fun c i t m a before ht step _ => down_stays before ht step
    exact none e' (by simp [he']) e.index _ still rfl

def addingSeries (n : String) : Handling RtimCmd :=
  execRtimCmdAddSeries { tasks := some [⟨n, true, true, some (seriesTask n), {}⟩] }
    ⟨.c .addSeries, ["/etc/crinit/new.series", "true"]⟩

def seriesBoot : Boot where
  db := { taskSet := [{ name := "getty", cmds := [["/sbin/getty"]] }] }
  distinct := by decide
  others := [.handler { script := addingSeries "udev" }, .handler { script := addingSeries "web" },
    .shutdown .stopCommands]
  fresh := by
    intro t mem
    simp only [mem_cons, not_mem_nil, or_false] at mem
    rcases mem with rfl | rfl | rfl
    · exact .command (.addSeries _ _)
    · exact .command (.addSeries _ _)
    · exact .shutdown

theorem spawn_inhibition_exclusive_in_turn :
    ∃ tr c, Run system (fun e => allowsSpawnAlone e = true) seriesBoot.conf tr c ∧
      tr.any startsTask = true ∧
      (∀ e ∈ tr, startsTask e = true → ∀ t ∈ e.before.threads, t.loadsSeries = false) ∧
      ∀ pre e post, tr = pre ++ e :: post → e.thread = .shutdown .inhibit →
        ∀ e' ∈ post, startsTask e' = false := by
  have run := run_of_schedule system allowsSpawnAlone
    (turns 1 5 ++ turns 2 5 ++ turns 0 3 ++ turns 3 2 ++ turns 0 1) seriesBoot.conf (by decide)
  exact ⟨_, _, run, by decide, spawn_inhibition_exclusive run⟩

/-- The second command finishes while the first still loads, and allows spawning for both; and a
command that was loading at the shutdown allows it again. -/
theorem spawning_allowed_for_others :
    (∃ tr c, Run system (fun _ => True) seriesBoot.conf tr c ∧
      ¬ ∀ e ∈ tr, startsTask e = true → ∀ t ∈ e.before.threads, t.loadsSeries = false) ∧
    ∃ tr c, Run system (fun _ => True) seriesBoot.conf tr c ∧
      ¬ ∀ pre e post, tr = pre ++ e :: post → e.thread = .shutdown .inhibit →
        ∀ e' ∈ post, startsTask e' = false := by
  refine ⟨⟨_, _, run_of_any_schedule system (turns 1 1 ++ turns 2 5 ++ turns 0 1) seriesBoot.conf,
    by decide⟩, ?_⟩
  -- thread 1 loads, and thread 3 is about to set the flag
  have loading := run_of_any_schedule system (turns 1 1 ++ turns 3 1) seriesBoot.conf
  have inhibited := loading.next 3 {} (step_iff.mpr ⟨.shutdown .inhibit, _, rfl, rfl, rfl⟩) trivial
  have total := inhibited.append (run_of_any_schedule system (turns 1 4 ++ turns 0 1) _)
  refine ⟨_, _, total, fun exclusive => ?_⟩
  exact absurd (exclusive _ _ _ (append_assoc _ _ _) rfl) (by decide)

end Crinit
