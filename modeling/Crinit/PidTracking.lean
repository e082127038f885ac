import Crinit.System

/-! The PID that the TaskDB keeps for a task. Two dispatch threads of one task share that field. -/
namespace Crinit

open Interleave List

def Dispatch.writesPid (d : Dispatch) : Bool :=
  match d.pc with
  | .lock | .setup | .spawn _ | .registerPid _ | .waitExit _ | .clearPid _ | .failClearPid => true
  | .block i | .reap i => i + 1 < d.cmds.length
  | .setState g => g ≠ .done
  | .fulfil g | .provide g _ => g = .running
  | .failBlock | .failReap | .exit | .finished => false

/-- The process of the current command is registered, and its end has not been
noticed: `waitid` returns only when it has terminated. -/
def Dispatch.registered (d : Dispatch) : Bool :=
  match d.pc with
  | .setState g | .fulfil g | .provide g _ => g = .running
  | .waitExit _ | .clearPid _ => true
  | _ => false

def Thread.writesPidOf (n : String) : Thread → Bool
  | .dispatch d => d.writesPid && d.task.name = n
  | _ => false

def startModeOnly (e : Step) : Bool :=
  noOverwrite e && pidsByDispatch e && e.move.started.all fun t => match t with
    | .dispatch d => d.mode = .start
    | _ => true

def startsAfterLastPid (e : Step) : Bool :=
  e.move.started.all fun t => match t with
    | .dispatch d => e.before.threads.all fun u => !u.writesPidOf d.task.name
    | _ => true

/-- A live registered process of the latest thread of a task is the one that the
TaskDB knows. -/
def PidTracked (c : Config) : Prop :=
  ∀ j d, DispatchAt c j d →
    (∀ k d', j < k → DispatchAt c k d' → d'.task.name ≠ d.task.name) →
    d.registered = true → d.pid ∈ c.shared.running →
    (c.shared.db.findTask d.task.name).map Task.pid = some d.pid

def Event.pidOf : Event → Option String
  | .db (.setTaskPID _ n) => some n
  | .db (.insert t overwrite _) => if overwrite then some t.task.name else none
  | _ => none

variable {w : World} {e : Event} {n : String}

theorem pid_after {pid : Int} (kept : e.pidOf ≠ some n)
    (before : ∃ t, w.db.findTask n = some t ∧ t.pid = pid) :
    ∃ t, (w.after e).db.findTask n = some t ∧ t.pid = pid := by
  obtain ⟨t, found, stored⟩ := before
  rcases after_db w e with same | ⟨op, rfl, same⟩
  · exact ⟨t, same ▸ found, stored⟩
  · obtain ⟨t', found', ⟨overwrites, inserts⟩ | change⟩ := find_apply op found
    · obtain ⟨nt, overwrite, env, rfl, rfl⟩ := inserts
      simp only [DbOp.overwrites, Bool.and_eq_true, beq_iff_eq] at overwrites
      exact absurd (by simp [Event.pidOf, overwrites]) kept
    · rcases changes_pid change with unchanged | ⟨_, rfl, _⟩
      · exact ⟨t', same ▸ found', unchanged.trans stored⟩
      · exact absurd rfl kept

variable {d d' : Dispatch}

theorem writesPid_before (moves : DispatchMoves w d e d') (ahead : d'.writesPid = true) :
    d.writesPid = true := by
  cases moves with
  | copied t here => simp [Dispatch.writesPid, here]
  | forked i pid here => simp [Dispatch.writesPid, here]
  | goes edge =>
    generalize hpc : d.pc = pc at edge
    cases edge with
    | reaped i =>
      simp only [Dispatch.writesPid, hpc]
      simp only [Dispatch.writesPid, Dispatch.goto, Dispatch.chainAt] at ahead
      split_ifs at ahead with more
      · simpa using more
      · simp at ahead
    | cleared i => simp [Dispatch.writesPid, hpc]
    | passed i free =>
      simp only [Dispatch.writesPid, hpc]
      exact ahead
    | stored g now => cases g <;> simp_all [Dispatch.writesPid, Dispatch.goto, Stage.stored]
    | provided g rest e pc feature target =>
      cases g <;> rcases target with rfl | ⟨_, rfl⟩ <;>
        simp_all [Dispatch.writesPid, Dispatch.goto, Stage.provided]
    | fulfilled g => simp_all [Dispatch.writesPid, Dispatch.goto]
    | _ => simp_all [Dispatch.writesPid, Dispatch.goto]

theorem dispatchMoves_pidOf (moves : DispatchMoves w d e d') (stores : e.pidOf = some n) :
    n = d.task.name ∧ d.writesPid = true := by
  cases moves with
  | copied | forked => cases stores
  | goes edge =>
    generalize hpc : d.pc = pc at edge
    cases edge with
    | registered | registerFailed | cleared | failCleared =>
      exact ⟨(Option.some.inj stores).symm, by simp [Dispatch.writesPid, hpc]⟩
    | provided g rest e pc feature target =>
      rcases feature with rfl | ⟨_, rfl⟩ <;> cases stores
    | _ => cases stores

theorem registered_before (moves : DispatchMoves w d e d') (registered : d'.registered = true) :
    d'.pid = d.pid ∧ ((d.registered = true ∧ e.pidOf = none) ∨
      (e = .db (.setTaskPID d.pid d.task.name) ∧
        ((DbOp.setTaskPID d.pid d.task.name).apply w.db).ret ≠ -1)) := by
  cases moves with
  | copied | forked => cases registered
  | goes edge =>
    refine ⟨rfl, ?_⟩
    generalize hpc : d.pc = pc at edge
    cases edge with
    | registered i known => exact .inr ⟨rfl, known⟩
    | exited i => exact .inl ⟨by simp [Dispatch.registered, hpc], rfl⟩
    | stored g now =>
      cases g with
      | running => exact .inl ⟨by simp [Dispatch.registered, hpc], rfl⟩
      | done | failed => cases registered
    | fulfilled g =>
      cases g with
      | running => exact .inl ⟨by simp [Dispatch.registered, hpc], rfl⟩
      | done | failed => cases registered
    | provided g rest e pc feature target =>
      have silent : e.pidOf = none := by rcases feature with rfl | ⟨_, rfl⟩ <;> rfl
      cases g with
      | running => exact .inl ⟨by simp [Dispatch.registered, hpc], silent⟩
      | done | failed => rcases target with rfl | ⟨_, rfl⟩ <;> cases registered
    | setup | reaped =>
      simp only [Dispatch.registered, Dispatch.goto, Dispatch.chainAt] at registered
      split_ifs at registered
      cases registered
    | failCleared =>
      simp only [Dispatch.registered, Dispatch.goto] at registered
      split_ifs at registered
      cases registered
    | _ => cases registered

theorem setTaskPID_stores {db : TaskDB} {pid : Int}
    (known : ((DbOp.setTaskPID pid n).apply db).ret ≠ -1) :
    ∃ t, ((DbOp.setTaskPID pid n).apply db).db.findTask n = some t ∧ t.pid = pid := by
  simp only [DbOp.apply, TaskDB.setTaskPID] at known ⊢
  cases found : db.findTask n with
  | none => simp [found] at known
  | some t => exact ⟨t.setPid pid, update_find_self _ (setPid_name pid) found, rfl⟩

theorem registered_writesPid (h : d.registered = true) : d.writesPid = true := by
  unfold Dispatch.registered at h
  unfold Dispatch.writesPid
  split at h <;> simp_all

structure LatestStores (c : Config) : Prop where
  distinct : c.shared.db.names.Nodup
  earlier : ∀ j k d d', j < k → DispatchAt c j d → DispatchAt c k d' →
    d.task.name = d'.task.name → d.writesPid = false
  stored : ∀ j d, DispatchAt c j d → d.registered = true →
    ∃ t, c.shared.db.findTask d.task.name = some t ∧ t.pid = d.pid

variable {c : Config}

theorem pidOf_latest {i : Nat} {t : Thread} {a : Answers} {m : Move World Thread Event}
    (before : LatestStores c) (ht : c.threads[i]? = some t)
    (moves : Moves c.shared a t m.event m.thread m.started)
    (scope : startModeOnly ⟨c, i, a, t, m⟩ = true) {j : Nat} (hd : DispatchAt c j d) (ne : j ≠ i)
    (registered : d.registered = true) : m.event.pidOf ≠ some d.task.name := by
  intro stores
  obtain ⟨e, shared, t', started⟩ := m
  simp only at moves stores
  have own : ∃ d₁, t = .dispatch d₁ := by
    simp only [startModeOnly, Bool.and_eq_true] at scope
    obtain ⟨⟨kept, byDispatch⟩, _⟩ := scope
    cases e with
    | db op =>
      cases op with
      | setTaskPID pid n => exact pidsByDispatch_dispatch byDispatch rfl
      | insert nt overwrite env =>
        have kept : overwrite = false := by simpa [noOverwrite] using kept
        simp [Event.pidOf, kept] at stores
      | _ => cases stores
    | _ => cases stores
  obtain ⟨d₁, rfl⟩ := own
  cases moves with
  | dispatch next =>
    obtain ⟨name, ahead⟩ := dispatchMoves_pidOf (next_dispatchMoves next) stores
    rcases Nat.lt_or_gt_of_ne ne with lt | gt
    · have past := before.earlier j i d d₁ lt hd ht name
      rw [registered_writesPid registered] at past
      cases past
    · have past := before.earlier i j d₁ d gt ht hd name.symm
      rw [ahead] at past
      cases past

theorem latestStores_step {i : Nat} {t : Thread} {a : Answers} {m : Move World Thread Event}
    (before : LatestStores c) (ht : c.threads[i]? = some t) (step : system c.shared t a = some m)
    (scope : startModeOnly ⟨c, i, a, t, m⟩ = true)
    (turn : startsAfterLastPid ⟨c, i, a, t, m⟩ = true) : LatestStores (c.after i m) := by
  obtain ⟨shared, moves⟩ := system_moves step
  have origin {j : Nat} {d : Dispatch} := dispatch_origin (j := j) (d := d) ht moves
  -- a thread that was there before keeps its name and gains no store
  have old {j : Nat} {d d₀ : Dispatch}
      (h : (j ≠ i ∧ d = d₀) ∨ (j = i ∧ DispatchMoves c.shared d₀ m.event d)) :
      d.task.name = d₀.task.name ∧ (d.writesPid = true → d₀.writesPid = true) := by
    rcases h with ⟨_, rfl⟩ | ⟨_, steps⟩
    · exact ⟨rfl, id⟩
    · exact ⟨(dispatchMoves_name steps).1, writesPid_before steps⟩
  have started {x : Nat} {d : Dispatch} (new : m.started[x]? = some (.dispatch d)) :
      (c.shared.db.spawnReady .start (some a.startOk)).started[x]? = some d.task := by
    obtain ⟨_, _, stop | ⟨_, _, hs⟩⟩ := moves_started moves new
    · simp only [startModeOnly, Bool.and_eq_true, all_eq_true] at scope
      have mode := scope.2 _ (mem_of_getElem? new)
      simp [stop] at mode
    · exact hs
  refine ⟨?_, ?_, ?_⟩
  · simp only [Conf.after, shared]
    exact distinct_after before.distinct m.event
  · intro j k d d' lt hd hd' same
    rcases origin hd with ⟨d₀, was, kept⟩ | ⟨late, new⟩
    · have past : d₀.writesPid = false := by
        rcases origin hd' with ⟨d₁, was', kept'⟩ | ⟨_, new'⟩
        · exact before.earlier j k d₀ d₁ lt was was' (by rw [← (old kept).1, ← (old kept').1, same])
        -- the later thread is new: by the guard the earlier one has stored its last PID
        · simp only [startsAfterLastPid, all_eq_true] at turn
          have none := turn _ (mem_of_getElem? new')
          simp only [all_eq_true] at none
          simpa [Thread.writesPidOf, ← (old kept).1, same] using none _ (mem_of_getElem? was)
      cases ahead : d.writesPid with
      | false => rfl
      | true =>
        rw [(old kept).2 ahead] at past
        cases past
    · rcases origin hd' with ⟨d₁, was', _⟩ | ⟨late', new'⟩
      · have := lookup_lt was'
        omega
      · have := started_distinct before.distinct (started new) (started new') same
        omega
  · intro j d hd registered
    simp only [Conf.after, shared]
    rcases origin hd with ⟨d₀, was, ⟨ne, rfl⟩ | ⟨rfl, steps⟩⟩ | ⟨_, new⟩
    · exact pid_after (pidOf_latest before ht moves scope was ne registered)
        (before.stored j d was registered)
    · obtain ⟨pid, ⟨registered₀, quiet⟩ | ⟨event, known⟩⟩ := registered_before steps registered
      · rw [pid, (dispatchMoves_name steps).1]
        exact pid_after (by simp [quiet]) (before.stored j d₀ was registered₀)
      · rw [pid, (dispatchMoves_name steps).1, event]
        exact setTaskPID_stores known
    · obtain ⟨pc, _⟩ := moves_started moves new
      simp [Dispatch.registered, pc] at registered

/-- In every run of START-mode threads in which a task is started only after the
last store of its earlier threads, the TaskDB knows the process of the latest one. -/
theorem pid_tracked {b : Boot} {tr : List Step} {c : Config}
    (run : Run system (fun e => startModeOnly e = true ∧ startsAfterLastPid e = true)
      b.conf tr c) : PidTracked c := by
  have initial : LatestStores b.conf :=
    ⟨b.distinct, fun j _ _ _ _ hd => absurd hd (boot_no_dispatch b),
      fun j d hd => absurd hd (boot_no_dispatch b)⟩
  have reached : LatestStores c := run.invariant LatestStores initial
    fun c i t m a before ht step guard => latestStores_step before ht step guard.1 guard.2
  intro j d hd _ registered _
  exact Option.map_eq_some_iff.mpr (reached.stored j d hd registered)

theorem last_is_latest {j : Nat} (last : c.threads.length = j + 1) :
    ∀ k d', j < k → DispatchAt c k d' → d'.task.name ≠ n := by
  intro k d' later hd'
  have := lookup_lt hd'
  omega

def respawningBoot : Boot where
  db := { taskSet := [{ name := "net", cmds := [["/bin/net"]], opts := optRespawn }] }
  distinct := by decide
  others := [.children]
  fresh := fresh_children

def failedInstance : List (Nat × Answers) :=
  turns 0 1 ++ turns 2 2 ++ [(2, { pid := 5 })] ++ turns 2 4 ++
    [(1, { pid := 5 }), (2, { ok := false })] ++ turns 2 1

def respawned : List (Nat × Answers) := turns 0 3 ++ turns 3 2 ++ [(3, { pid := 6 })] ++ turns 3 1

theorem pid_tracked_in_turn :
    ∃ tr c d, Run system (fun e => startModeOnly e = true ∧ startsAfterLastPid e = true)
        respawningBoot.conf tr c ∧
      DispatchAt c 3 d ∧ d.registered = true ∧ d.pid = 6 ∧ c.shared.running = [6] ∧
      (c.shared.db.findTask d.task.name).map Task.pid = some d.pid := by
  have run := (run_of_schedule system (fun e => startModeOnly e && startsAfterLastPid e)
    (failedInstance ++ turns 2 1 ++ respawned) respawningBoot.conf (by decide)).weaken
    (fun e ok => Bool.and_eq_true_iff.mp ok)
  have tracked := pid_tracked run 3 _ rfl (last_is_latest (by decide)) (by decide) (by decide)
  exact ⟨_, _, _, run, rfl, by decide, by decide, by decide, tracked⟩

/-- Thread 3 registers process 6, and then thread 2 takes back its own PID: the
running process 6 has no PID in the TaskDB. -/
theorem respawned_pid_lost :
    ∃ tr c, Run system (fun e => startModeOnly e = true) respawningBoot.conf tr c ∧
      ¬ PidTracked c := by
  have run := run_of_schedule system startModeOnly (failedInstance ++ respawned ++ turns 2 1)
    respawningBoot.conf (by decide)
  refine ⟨_, _, run, ?_⟩
  intro tracked
  exact absurd (tracked 3 _ rfl (last_is_latest (by decide)) (by decide) (by decide)) (by decide)

end Crinit
