import Crinit.Discipline
import Crinit.PidTracking

/-! Signals of STOP and KILL reach only processes that are not reaped: a handler inhibits waiting,
reads the PID and sends the signal; a dispatch thread takes the PID out of the TaskDB before it
waits until waiting is allowed and reaps the process. -/
namespace Crinit

open Interleave List

/-- The thread may still pass its PID variable to `waitpid` or store it. After a
failed `posix_spawn` this is the PID of an earlier command. -/
def Dispatch.holdsPid (d : Dispatch) : Bool :=
  0 < d.pid && match d.pc with
    | .setState g => g ≠ .done
    | .fulfil g | .provide g _ => g = .running
    | .exit | .finished => false
    | _ => true

def Dispatch.owns (d : Dispatch) : Bool :=
  match d.pc with
  | .waitExit _ | .clearPid _ | .failClearPid => true
  | .setState g => g ≠ .done
  | .fulfil g | .provide g _ => g = .running
  | _ => false

def Dispatch.reaping (d : Dispatch) : Bool :=
  match d.pc with
  | .reap _ | .failReap => true
  | _ => false

def Thread.holds (pid : Int) : Thread → Bool
  | .dispatch d => d.holdsPid && d.pid = pid
  | _ => false

def Thread.inhibitsWait : Thread → Bool
  | .handler h => h.waitHeld && !h.script.returned
  | _ => false

def releasesAlone (e : Step) : Bool :=
  match e.move.event with
  | .inhibitWait false => (e.before.threads.eraseIdx e.index).all fun t => !t.inhibitsWait
  | _ => true

def spawnsUnheldPid (e : Step) : Bool :=
  match e.move.event with
  | .fork pid => (e.before.threads.eraseIdx e.index).all fun t => !t.holds pid
  | _ => true

def signalsUnreaped (e : Step) : Bool :=
  match e.move.event with
  | .kill pid _ => decide (e.before.shared.unreaped pid)
  | _ => true

section
variable {w : World} {d d' : Dispatch} {e : Event}

variable (moves : DispatchMoves w d e d')
include moves

theorem holdsPid_before (holds : d'.holdsPid = true) :
    e = .fork d'.pid ∨ (d.holdsPid = true ∧ d'.pid = d.pid) := by
  cases moves with
  | copied t here => exact .inr ⟨by simpa [Dispatch.holdsPid, here] using holds, rfl⟩
  | forked i pid here pos => exact .inl rfl
  | goes edge =>
    refine .inr ⟨?_, rfl⟩
    simp only [Dispatch.holdsPid, Dispatch.goto, Bool.and_eq_true] at holds ⊢
    refine ⟨holds.1, ?_⟩
    have inside := holds.2
    generalize d.pc = pc at edge
    cases edge with
    | stored g now => cases g <;> first | rfl | cases inside
    | provided g rest e pc feature target =>
      cases g <;> rcases target with rfl | ⟨_, rfl⟩ <;> first | rfl | cases inside
    | fulfilled g => cases g <;> first | rfl | cases inside
    | _ => first | rfl | cases inside

theorem registerPid_before {i : Nat} (here : d'.pc = .registerPid i) :
    e = .fork d'.pid ∧ 0 < d'.pid := by
  cases moves with
  | copied t => cases here
  | forked i pid _ pos => exact ⟨rfl, pos⟩
  | goes edge =>
    simp only [Dispatch.goto] at here
    generalize d.pc = pc at edge
    cases edge with
    | setup | reaped => simp only [Dispatch.chainAt] at here; split_ifs at here
    | registered | failCleared => split_ifs at here
    | stored g now => cases g <;> cases here
    | provided g rest e pc feature target =>
      cases g <;> rcases target with rfl | ⟨_, rfl⟩ <;> cases here
    | _ => cases here

theorem owns_after (owns : d.owns = true) (quiet : e.pidOf = none) :
    d'.owns = true ∧ d'.pid = d.pid := by
  cases moves with
  | copied t here => simp [Dispatch.owns, here] at owns
  | forked i pid here => simp [Dispatch.owns, here] at owns
  | goes edge =>
    refine ⟨?_, rfl⟩
    simp only [Dispatch.owns, Dispatch.goto] at owns ⊢
    generalize d.pc = pc at edge owns
    cases edge with
    | registered | registerFailed | cleared | failCleared => cases quiet
    | stored g now => cases g <;> first | rfl | cases owns
    | provided g rest e pc feature target =>
      cases g <;> rcases target with rfl | ⟨_, rfl⟩ <;> first | rfl | cases owns
    | fulfilled g => cases g <;> first | rfl | cases owns
    | _ => first | rfl | cases owns

theorem stored_pid {pid : Int} {n : String} (stores : e = .db (.setTaskPID pid n)) (pos : 0 < pid) :
    n = d.task.name ∧ pid = d.pid ∧ (∃ i, d.pc = .registerPid i) ∧ d'.owns = true ∧
      d'.pid = d.pid := by
  cases moves with
  | copied | forked => cases stores
  | goes edge =>
    generalize hpc : d.pc = pc at edge
    cases edge with
    | registered i known =>
      cases stores
      refine ⟨rfl, rfl, ⟨i, rfl⟩, ?_, rfl⟩
      simp only [Dispatch.owns, Dispatch.goto]
      split_ifs <;> rfl
    | registerFailed i =>
      cases stores
      exact ⟨rfl, rfl, ⟨i, rfl⟩, rfl, rfl⟩
    | cleared | failCleared =>
      cases stores
      omega
    | provided g rest e pc feature target =>
      rcases feature with rfl | ⟨_, rfl⟩ <;> cases stores
    | _ => cases stores

theorem reaped_by {pid : Int} (reaped : e = .reaped pid) :
    d.reaping = true ∧ d.pid = pid := by
  cases moves with
  | copied | forked => cases reaped
  | goes edge =>
    simp only [Dispatch.reaping]
    generalize d.pc = pc at edge
    cases edge with
    | reaped | failReaped =>
      cases reaped
      exact ⟨rfl, rfl⟩
    | provided g rest e pc feature target =>
      rcases feature with rfl | ⟨_, rfl⟩ <;> cases reaped
    | _ => cases reaped

theorem pidOf_cases :
    e.pidOf = none ∨ ∃ pid, e = .db (.setTaskPID pid d.task.name) := by
  cases moves with
  | copied | forked => exact .inl rfl
  | goes edge =>
    generalize d.pc = pc at edge
    cases edge with
    | registered | registerFailed | cleared | failCleared => exact .inr ⟨_, rfl⟩
    | provided g rest e pc feature target =>
      rcases feature with rfl | ⟨_, rfl⟩ <;> exact .inl rfl
    | _ => exact .inl rfl

theorem reaping_before (reaping : d'.reaping = true) :
    w.waitInhibit = false ∧ d'.pid = d.pid := by
  cases moves with
  | copied | forked => cases reaping
  | goes edge =>
    refine ⟨?_, rfl⟩
    simp only [Dispatch.reaping, Dispatch.goto] at reaping
    generalize d.pc = pc at edge
    cases edge with
    | passed i free => exact free
    | failPassed free => exact free
    | setup | reaped => simp only [Dispatch.chainAt] at reaping; split_ifs at reaping
    | registered | failCleared => split_ifs at reaping
    | stored g now => cases g <;> cases reaping
    | provided g rest e pc feature target =>
      cases g <;> rcases target with rfl | ⟨_, rfl⟩ <;> cases reaping
    | _ => cases reaping

end

theorem reaping_holds {d : Dispatch} (reaping : d.reaping = true) (pos : 0 < d.pid) :
    d.holdsPid = true := by
  unfold Dispatch.reaping at reaping
  split at reaping
  · simp [Dispatch.holdsPid, *]
  · simp [Dispatch.holdsPid, *]
  · cases reaping

theorem owns_holds {d : Dispatch} (owns : d.owns = true) (pos : 0 < d.pid) : d.holdsPid = true := by
  unfold Dispatch.owns at owns
  split at owns <;> simp_all [Dispatch.holdsPid]

theorem owns_not_reaping {d : Dispatch} (owns : d.owns = true) : d.reaping = false := by
  unfold Dispatch.owns at owns
  split at owns <;> simp_all [Dispatch.reaping]

def Protected (c : Config) (pid : Int) : Prop :=
  c.shared.unreaped pid ∧ ∀ j d, DispatchAt c j d → d.reaping = true → d.pid ≠ pid

structure SignalsGuarded (c : Config) : Prop where
  apart : ∀ j k d d', DispatchAt c j d → DispatchAt c k d' → d.holdsPid = true →
    d'.holdsPid = true → d.pid = d'.pid → j = k
  registering : ∀ j d i, DispatchAt c j d → d.pc = .registerPid i →
    0 < d.pid ∧ c.shared.unreaped d.pid
  stored : ∀ n t, c.shared.db.findTask n = some t → 0 < t.pid → c.shared.unreaped t.pid ∧
    ∃ j d, DispatchAt c j d ∧ d.owns = true ∧ d.pid = t.pid ∧ d.task.name = n
  window : ∀ j h, HandlerAt c j h → h.waitHeld = true → h.script.returned = false →
    c.shared.waitInhibit = true
  aims : ∀ j h, HandlerAt c j h → ∃ aim, h.script.Follows signalDiscipline (h.waitHeld, aim) ∧
    ∀ pid, aim = some pid → 0 < pid → h.waitHeld = true → h.script.returned = false →
      Protected c pid

variable {pid : Int}

theorem moves_reaped {w : World} {a : Answers} {t t' : Thread} {e : Event} {started : List Thread}
    (moves : Moves w a t e t' started) (reaped : e = .reaped pid) :
    ∃ d, t = .dispatch d ∧ d.reaping = true ∧ d.pid = pid := by
  cases moves with
  | @dispatch d _ _ next => exact ⟨d, rfl, reaped_by (next_dispatchMoves next) reaped⟩
  | call h q k script =>
    rcases call_event q with ⟨_, eq⟩ | eq | ⟨_, _, eq⟩ | ⟨_, _, _, _, eq⟩ <;>
      rw [eq] at reaped <;> cases reaped
  | _ => cases reaped

theorem moves_kill {w : World} {a : Answers} {t t' : Thread} {e : Event} {started : List Thread}
    (moves : Moves w a t e t' started) {sig : Signal} (kills : e = .kill pid sig) :
    ∃ h ok k, t = .handler h ∧ h.script = .call (.kill pid sig ok) k := by
  cases moves with
  | dispatch next =>
    rcases dispatchMoves_event (next_dispatchMoves next) with ⟨_, rfl⟩ | rfl | ⟨_, rfl⟩
      | ⟨_, rfl⟩ <;>
      cases kills
  | call h q k script =>
    rcases call_event q with ⟨_, eq⟩ | eq | ⟨_, _, eq⟩ | ⟨_, _, ok, rfl, eq⟩ <;>
      rw [eq] at kills <;> cases kills
    exact ⟨h, ok, k, rfl, script⟩
  | _ => cases kills

variable {n : String}

theorem protected_of_stored {c : Config} (guarded : SignalsGuarded c) {t : Task}
    (found : c.shared.db.findTask n = some t) (pos : 0 < t.pid) : Protected c t.pid := by
  obtain ⟨unreaped, j, d, hd, owns, pid, _⟩ := guarded.stored n t found pos
  refine ⟨unreaped, ?_⟩
  intro k d' hd' reaping same
  have owner : k = j := guarded.apart k j d' d hd' hd (reaping_holds reaping (by omega))
    (owns_holds owns (by omega)) (by rw [same, pid])
  subst owner
  have eq : d' = d := by
    have := hd'.symm.trans hd
    simpa using this
  rw [eq, owns_not_reaping owns] at reaping
  cases reaping

section
variable {c : Config} {i : Nat} {t : Thread} {a : Answers} {m : Move World Thread Event}

theorem unreaped_step (moves : Moves c.shared a t m.event m.thread m.started)
    (unreaped : c.shared.unreaped pid)
    (kept : ∀ d, t = .dispatch d → d.reaping = true → d.pid ≠ pid) :
    (c.shared.after m.event).unreaped pid := by
  refine unreaped_after unreaped _ ?_
  intro reaped
  obtain ⟨d, thread, reaping, same⟩ := moves_reaped moves reaped
  exact kept d thread reaping same

theorem protected_step (ht : c.threads[i]? = some t) (shared : m.shared = c.shared.after m.event)
    (moves : Moves c.shared a t m.event m.thread m.started) (safe : Protected c pid)
    (inhibited : c.shared.waitInhibit = true) : Protected (c.after i m) pid := by
  refine ⟨?_, ?_⟩
  · simp only [Conf.after, shared]
    refine unreaped_step moves safe.1 ?_
    rintro d rfl reaping
    exact safe.2 i d ht reaping
  · intro j d hd reaping
    rcases dispatch_origin ht moves hd with ⟨d₀, old, ⟨_, rfl⟩ | ⟨_, steps⟩⟩ | ⟨_, new⟩
    · exact safe.2 j d old reaping
    -- no thread comes to waitpid while the flag is set
    · rw [(reaping_before steps reaping).1] at inhibited
      cases inhibited
    · obtain ⟨pc, _⟩ := moves_started moves new
      simp [Dispatch.reaping, pc] at reaping

variable {j : Nat}

variable (before : SignalsGuarded c) (ht : c.threads[i]? = some t)
include before ht

theorem apart_step (moves : Moves c.shared a t m.event m.thread m.started)
    (unheld : spawnsUnheldPid ⟨c, i, a, t, m⟩ = true) {k : Nat} {d d' : Dispatch}
    (hd : DispatchAt (c.after i m) j d) (hd' : DispatchAt (c.after i m) k d')
    (holds : d.holdsPid = true) (holds' : d'.holdsPid = true) (same : d.pid = d'.pid) : j = k := by
  have fresh {x : Nat} {d : Dispatch} (new : m.started[x]? = some (.dispatch d)) :
      d.holdsPid = false := by
    simp [Dispatch.holdsPid, (moves_started moves new).2.1]
  -- the thread that moves holds its old PID or a new one that no other thread holds
  have moved {k : Nat} {d d₀ d' : Dispatch} (steps : DispatchMoves c.shared d₀ m.event d)
      (old : DispatchAt c i d₀) (ne : k ≠ i) (other : DispatchAt c k d')
      (holds : d.holdsPid = true) (holds' : d'.holdsPid = true) : d.pid ≠ d'.pid := by
    intro same
    rcases holdsPid_before steps holds with forked | ⟨held, kept⟩
    · simp only [spawnsUnheldPid, forked] at unheld
      have free := others_all unheld ne other
      simp [Thread.holds, holds', same] at free
    · exact ne (before.apart i k d₀ d' old other held holds' (kept ▸ same)).symm
  rcases dispatch_origin ht moves hd with ⟨d₀, old, ⟨ne, rfl⟩ | ⟨rfl, steps⟩⟩ | ⟨_, new⟩
  · rcases dispatch_origin ht moves hd' with ⟨d₁, old', ⟨_, rfl⟩ | ⟨rfl, steps'⟩⟩ | ⟨_, new'⟩
    · exact before.apart j k d d' old old' holds holds' same
    · exact absurd same.symm (moved steps' old' ne old holds' holds)
    · rw [fresh new'] at holds'
      cases holds'
  · rcases dispatch_origin ht moves hd' with ⟨d₁, old', ⟨ne, rfl⟩ | ⟨rfl, _⟩⟩ | ⟨_, new'⟩
    · exact absurd same (moved steps old ne old' holds holds')
    · rfl
    · rw [fresh new'] at holds'
      cases holds'
  · rw [fresh new] at holds
    cases holds

variable (shared : m.shared = c.shared.after m.event)
    (moves : Moves c.shared a t m.event m.thread m.started)
include shared moves

theorem registering_step {x : Nat} {d : Dispatch} (hd : DispatchAt (c.after i m) j d)
    (here : d.pc = .registerPid x) :
    0 < d.pid ∧ (c.after i m).shared.unreaped d.pid := by
  simp only [Conf.after, shared]
  rcases dispatch_origin ht moves hd with ⟨d₀, old, ⟨ne, rfl⟩ | ⟨_, steps⟩⟩ | ⟨_, new⟩
  · obtain ⟨pos, unreaped⟩ := before.registering j d x old here
    refine ⟨pos, unreaped_step moves unreaped ?_⟩
    rintro d₁ rfl reaping same
    refine ne (before.apart j i d d₁ old ht ?_ (reaping_holds reaping (by omega)) same.symm)
    simp [Dispatch.holdsPid, here, pos]
  · obtain ⟨forked, pos⟩ := registerPid_before steps here
    rw [forked]
    exact ⟨pos, .inl (mem_cons_self ..)⟩
  · rw [(moves_started moves new).1] at here
    cases here

theorem owner_step {u : Task} (found : c.shared.db.findTask n = some u) (pos : 0 < u.pid)
    (quiet : ∀ pid, m.event ≠ .db (.setTaskPID pid n)) :
    (c.after i m).shared.unreaped u.pid ∧
      ∃ j d, DispatchAt (c.after i m) j d ∧ d.owns = true ∧ d.pid = u.pid ∧ d.task.name = n := by
  have safe := protected_of_stored before found pos
  obtain ⟨_, j, d, hd, owns, pid, name⟩ := before.stored n u found pos
  refine ⟨?_, ?_⟩
  · simp only [Conf.after, shared]
    refine unreaped_step moves safe.1 ?_
    rintro d₁ rfl reaping
    exact safe.2 i d₁ ht reaping
  · by_cases eq : j = i
    · subst eq
      cases Option.some.inj (ht.symm.trans hd)
      obtain ⟨d', thread, steps⟩ := moves_dispatch moves
      have none : m.event.pidOf = none := by
        rcases pidOf_cases steps with none | ⟨q, event⟩
        · exact none
        · exact absurd (name ▸ event) (quiet q)
      obtain ⟨owns', pid'⟩ := owns_after steps owns none
      have here : DispatchAt (c.after j m) j d' := (after_self ht m).trans (by rw [thread])
      exact ⟨j, d', here, owns', pid'.trans pid, (dispatchMoves_name steps).1.trans name⟩
    · exact ⟨j, d, after_other hd eq m, owns, pid, name⟩

theorem stored_step (byDispatch : pidsByDispatch ⟨c, i, a, t, m⟩ = true) {u : Task}
    (found : (c.after i m).shared.db.findTask n = some u) (pos : 0 < u.pid) :
    (c.after i m).shared.unreaped u.pid ∧
      ∃ j d, DispatchAt (c.after i m) j d ∧ d.owns = true ∧ d.pid = u.pid ∧ d.task.name = n := by
  have found' := found
  simp only [Conf.after, shared] at found'
  by_cases stores : ∃ pid, m.event = .db (.setTaskPID pid n)
  · obtain ⟨pid, event⟩ := stores
    obtain ⟨d, rfl⟩ := pidsByDispatch_dispatch byDispatch event
    have eq : u.pid = pid := by
      rw [event] at found'
      rcases find_before _ found' with ⟨_, _, _, op, _⟩ | ⟨u₀, _, change⟩
      · cases op
      · cases change
        rw [if_pos rfl]
        rfl
    obtain ⟨d', thread, steps⟩ := moves_dispatch moves
    obtain ⟨name, same, ⟨x, here⟩, owns, kept⟩ := stored_pid steps event (eq ▸ pos)
    have unreaped := (before.registering i d x ht here).2
    have moved : DispatchAt (c.after i m) i d' := (after_self ht m).trans (by rw [thread])
    refine ⟨?_, i, d', moved, owns, by rw [kept, eq, same], ?_⟩
    · simp only [Conf.after, shared, event, eq, same]
      exact unreaped
    · rw [(dispatchMoves_name steps).1, name]
  · have quiet : ∀ pid, m.event ≠ .db (.setTaskPID pid n) := fun pid event => stores ⟨pid, event⟩
    rcases after_db c.shared m.event with same | ⟨op, event, same⟩
    · rw [same] at found'
      exact owner_step before ht shared moves found' pos quiet
    · rw [same] at found'
      rcases find_before op found' with ⟨nt, _, _, _, rfl⟩ | ⟨u₀, found₀, change⟩
      · rw [nt.noPid] at pos
        omega
      · rcases changes_pid change with kept | ⟨pid, rfl, _⟩
        · rw [kept] at pos ⊢
          exact owner_step before ht shared moves found₀ pos quiet
        · exact absurd event (quiet pid)

theorem window_step (alone : releasesAlone ⟨c, i, a, t, m⟩ = true) {h : Handler}
    (hh : HandlerAt (c.after i m) j h) (held : h.waitHeld = true)
    (active : h.script.returned = false) :
    (c.after i m).shared.waitInhibit = true := by
  simp only [Conf.after, shared]
  rcases handler_origin ht moves hh with ⟨h₀, old, ⟨ne, rfl⟩ | ⟨_, q, k, script, event, rfl⟩⟩
  · rcases after_waitInhibit c.shared m.event with same | ⟨inh, event, same⟩
    · rw [same]
      exact before.window j h old held active
    · cases inh with
      | true => exact same
      | false =>
        simp only [releasesAlone, event] at alone
        have free := others_all alone ne old
        simp [Thread.inhibitsWait, held, active] at free
  · have was : h₀.waitHeld = true → c.shared.waitInhibit = true :=
      fun held₀ => before.window j h₀ old held₀ (by rw [script]; rfl)
    rw [event]
    cases q with
    | setInhibitWait inh ok =>
      cases ok with
      | true => exact held
      | false => exact was held
    | _ => exact was held

theorem aims_step {h : Handler} (hh : HandlerAt (c.after i m) j h) :
    ∃ aim, h.script.Follows signalDiscipline (h.waitHeld, aim) ∧
      ∀ pid, aim = some pid → 0 < pid → h.waitHeld = true → h.script.returned = false →
        Protected (c.after i m) pid := by
  rcases handler_origin ht moves hh with ⟨h₀, old, ⟨_, rfl⟩ | ⟨_, q, k, script, event, rfl⟩⟩
  · obtain ⟨aim, follows, safe⟩ := before.aims j h old
    refine ⟨aim, follows, fun pid eq pos held active => ?_⟩
    exact protected_step ht shared moves (safe pid eq pos held active)
      (before.window j h old held active)
  · obtain ⟨aim, follows, _⟩ := before.aims j h₀ old
    rw [script] at follows
    have next := follows.2 (q.reply c.shared)
    cases q with
    | setInhibitWait inh ok =>
      refine ⟨none, ?_, fun pid eq => by cases eq⟩
      cases ok <;> exact next
    | look n ok =>
      refine ⟨_, next, fun pid eq pos held _ => ?_⟩
      obtain ⟨u, reply, rfl⟩ := Option.map_eq_some_iff.mp eq
      have found : c.shared.db.findTask n = some u := by
        cases ok with
        | true => exact reply
        | false => cases reply
      -- the PID just read is stored, so its owner has not passed crinitBlockOnWaitInhibit
      exact protected_step ht shared moves (protected_of_stored before found pos)
        (before.window j h₀ old held (by rw [script]; rfl))
    | _ => exact ⟨none, next, fun pid eq => by cases eq⟩

end

/-- In every run in which PIDs are stored by dispatch threads, the flag is cleared
by one handler at a time and no held PID is given out again, each signal of a
command goes to a process that is spawned and not reaped. -/
theorem signals_unreaped {b : Boot} (noPid : ∀ t ∈ b.db.taskSet, t.pid ≤ 0) {tr : List Step}
    {c : Config} (run : Run system (fun e => pidsByDispatch e = true ∧ releasesAlone e = true ∧
      spawnsUnheldPid e = true) b.conf tr c) :
    ∀ e ∈ tr, signalsUnreaped e = true := by
  have initial : SignalsGuarded b.conf := by
    refine ⟨?_, ?_, ?_, ?_, ?_⟩
    · exact fun j _ _ _ hd => absurd hd (boot_no_dispatch b)
    · exact fun j d _ hd => absurd hd (boot_no_dispatch b)
    · intro n t found pos
      have := noPid t (find_mem found)
      omega
    · intro j h hh held
      rcases boot_threads b hh with ⟨_, eq⟩ | ⟨_, fresh⟩
      · cases eq
      · cases fresh
        cases held
    · intro j h hh
      rcases boot_threads b hh with ⟨_, eq⟩ | ⟨_, fresh⟩
      · cases eq
      · cases fresh with
        | command known => exact ⟨none, command_follows known, fun pid eq => by cases eq⟩
  intro e he
  obtain ⟨⟨past, reach⟩, _, ht, step⟩ := run.taken e he
  have guarded : SignalsGuarded e.before := reach.invariant SignalsGuarded initial
    fun c i t m a before ht step guard => by
      obtain ⟨shared, moves⟩ := system_moves step
      exact ⟨fun _ _ _ _ => apart_step before ht moves guard.2.2,
        fun _ _ _ => registering_step before ht shared moves,
        fun _ _ => stored_step before ht shared moves guard.1,
        fun _ _ => window_step before ht shared moves guard.2.1,
        fun _ _ => aims_step before ht shared moves⟩
  obtain ⟨_, moves⟩ := system_moves step
  unfold signalsUnreaped
  split
  · rename_i pid sig event
    obtain ⟨h, ok, k, thread, script⟩ := moves_kill moves event
    rw [thread] at ht
    obtain ⟨aim, follows, safe⟩ := guarded.aims e.index h ht
    rw [script] at follows
    obtain ⟨⟨held, aimed, pos⟩, _⟩ := follows
    exact decide_eq_true (safe pid aimed pos held (by rw [script]; rfl)).1
  · rfl

def twoKills : Boot where
  db := { taskSet := [{ name := "net", cmds := [["/bin/net"]] }] }
  distinct := by decide
  others := [.children, .handler { script := execRtimCmdKill {} ⟨.c .kill, ["net"]⟩ },
    .handler { script := execRtimCmdKill {} ⟨.c .kill, ["net"]⟩ }]
  fresh := by
    intro t mem
    simp only [mem_cons, not_mem_nil, or_false] at mem
    rcases mem with rfl | rfl | rfl
    · exact .children
    · exact .command (.kill _ _)
    · exact .command (.kill _ _)

def registered5 : List (Nat × Answers) := turns 0 1 ++ turns 4 2 ++ [(4, { pid := 5 })] ++ turns 4 1

def ended5 : List (Nat × Answers) :=
  turns 4 3 ++ [(1, { pid := 5 }), (4, { ok := false })] ++ turns 4 4

theorem signals_unreaped_in_turn :
    ∃ tr c, Run system (fun e => pidsByDispatch e = true ∧ releasesAlone e = true ∧
        spawnsUnheldPid e = true) twoKills.conf tr c ∧
      (tr.filter fun e => match e.move.event with
        | .kill 5 .kill => true
        | _ => false).length = 2 ∧
      ∀ e ∈ tr, signalsUnreaped e = true := by
  have run := (run_of_schedule system
    (fun e => pidsByDispatch e && (releasesAlone e && spawnsUnheldPid e))
    (registered5 ++ turns 2 4 ++ turns 3 4 ++ ended5) twoKills.conf (by decide)).weaken
    (fun e ok => by simpa using ok)
  exact ⟨_, _, run, by decide, signals_unreaped (by decide) run⟩

/-- Both commands have read PID 5 when the second allows waiting again: thread 4
reaps the process, and the first command sends its signal to a free PID. -/
theorem kill_after_reap :
    ∃ tr c, Run system (fun e => pidsByDispatch e = true) twoKills.conf tr c ∧
      ¬ ∀ e ∈ tr, signalsUnreaped e = true := by
  have run := run_of_schedule system pidsByDispatch
    (registered5 ++ turns 2 2 ++ turns 3 4 ++ ended5 ++ turns 2 1) twoKills.conf (by decide)
  refine ⟨_, _, run, ?_⟩
  rw [← all_eq_true]
  decide

end Crinit
