import Crinit.Commands
import Crinit.Dispatch
import Crinit.Lib.Interleave

/-! The running daemon: the main loop, the dispatch threads, the handlers of client commands, the
shutdown thread, and everything else that calls into the TaskDB or ends a child process. -/
namespace Crinit

open Interleave List

/-- The main loop: `crinitTaskDBSpawnReady`, then outside the lock until
`pthread_cond_wait`, then inside it. -/
inductive MainPc where
  | scan | gap | waiting
  deriving DecidableEq, Repr

/-- `crinitShdnThread` up to its inhibition of spawning. -/
inductive ShutdownPc where
  | stopCommands | inhibit | down
  deriving DecidableEq, Repr

structure Handler where
  script : Handling RtimCmd
  waitHeld : Bool := false
  spawnHeld : Bool := false

inductive Thread where
  | main (pc : MainPc)
  | dispatch (d : Dispatch)
  | handler (h : Handler)
  | shutdown (pc : ShutdownPc)
  /-- Child processes, as far as they terminate. -/
  | children
  /-- Any other caller of the TaskDB, such as the timer and the elos thread. -/
  | client

def Thread.runs (mode : Mode) : Thread → Bool
  | .dispatch d => d.mode = mode
  | _ => false

variable {t : Thread}

theorem runs_dispatch {mode : Mode} (h : t.runs mode = true) :
    ∃ d, t = .dispatch d ∧ d.mode = mode := by
  cases t with
  | dispatch d => exact ⟨d, rfl, by simpa [Thread.runs] using h⟩
  | _ => cases h

def dispatchFor (mode : Mode) (slot : Option Nat) (t : Task) : Thread :=
  .dispatch { mode := mode, slot := slot, task := t }

def Call.started : Call → List Thread
  | .spawnStop t ok => if ok then [dispatchFor .stop none t] else []
  | _ => []

def Handler.proceed (h : Handler) (c : Call) (script : Handling RtimCmd) : Handler where
  script := script
  waitHeld := match c with
    | .setInhibitWait inh ok => if ok then inh else h.waitHeld
    | _ => h.waitHeld
  spawnHeld := match c with
    | .db (.setSpawnInhibit inh) => inh
    | _ => h.spawnHeld

def startedBy (w : World) (a : Answers) : List Thread :=
  (w.db.spawnReady .start (some a.startOk)).started.map (dispatchFor .start (some w.db.taskSetSize))

def stopsStartedBy (w : World) (a : Answers) : List Thread :=
  (w.db.taskSet.filter fun t => 0 < t.stopCmds.length && a.startOk t .stop).map
    (dispatchFor .stop (some w.db.taskSetSize))

def DbOp.isScan : DbOp → Bool
  | .spawnReady _ _ => true
  | _ => false

/-- Nothing is defined behind a corrupt TaskDB. -/
def Thread.next (w : World) (t : Thread) (a : Answers) : Option (Event × Thread × List Thread) :=
  match t with
  | .main .scan => some (.db (.spawnReady .start (some a.startOk)), .main .gap, startedBy w a)
  | .main .gap => some (.sleep, .main .waiting, [])
  -- pthread_cond_wait may also return without a broadcast
  | .main .waiting => some (.wake, .main .scan, [])
  | .dispatch d => (d.next w a).map fun (e, d') => (e, .dispatch d', [])
  | .handler h =>
    match h.script with
    | .ret _ => none
    | .call c k => some (c.event, .handler (h.proceed c (k (c.reply w))), c.started)
  | .shutdown .stopCommands => some (.silent, .shutdown .inhibit, stopsStartedBy w a)
  | .shutdown .inhibit => some (.db (.setSpawnInhibit true), .shutdown .down, [])
  | .shutdown .down => none
  | .children => if a.pid ∈ w.running then some (.exited a.pid, .children, []) else none
  | .client => if a.op.isScan then none else some (.db a.op, .client, [])

def system : Program World Thread Answers Event := fun w t a =>
  if w.db.corrupt then none
  else (t.next w a).map fun (e, t', started) => ⟨e, w.after e, t', started⟩

abbrev Config := Conf World Thread
abbrev Step := Taken World Thread Answers Event

inductive Moves (w : World) (a : Answers) : Thread → Event → Thread → List Thread → Prop where
  | scan : Moves w a (.main .scan) (.db (.spawnReady .start (some a.startOk))) (.main .gap)
      (startedBy w a)
  | sleep : Moves w a (.main .gap) .sleep (.main .waiting) []
  | wake : Moves w a (.main .waiting) .wake (.main .scan) []
  | dispatch {d d' : Dispatch} {e : Event} (next : d.next w a = some (e, d')) :
      Moves w a (.dispatch d) e (.dispatch d') []
  | call (h : Handler) (c : Call) (k : Reply → Handling RtimCmd) (script : h.script = .call c k) :
      Moves w a (.handler h) c.event (.handler (h.proceed c (k (c.reply w)))) c.started
  | stopCommands : Moves w a (.shutdown .stopCommands) .silent (.shutdown .inhibit)
      (stopsStartedBy w a)
  | inhibit : Moves w a (.shutdown .inhibit) (.db (.setSpawnInhibit true)) (.shutdown .down) []
  | exited (running : a.pid ∈ w.running) : Moves w a .children (.exited a.pid) .children []
  | client (noScan : a.op.isScan = false) : Moves w a .client (.db a.op) .client []

variable {w : World} {a : Answers} {e : Event} {t' : Thread} {started : List Thread}

theorem next_moves (h : t.next w a = some (e, t', started)) :
    Moves w a t e t' started := by
  cases t with
  | main pc => cases pc <;> cases h <;> constructor
  | dispatch d =>
    simp only [Thread.next, Option.map_eq_some_iff, Prod.mk.injEq, Prod.exists] at h
    obtain ⟨e', d', next, rfl, rfl, rfl⟩ := h
    exact .dispatch next
  | handler hd =>
    simp only [Thread.next] at h
    split at h
    · cases h
    · rename_i c k script
      cases h
      exact .call hd c k script
  | shutdown pc => cases pc <;> cases h <;> constructor
  | children =>
    simp only [Thread.next] at h
    split_ifs at h with running
    cases h
    exact .exited running
  | client =>
    simp only [Thread.next] at h
    split_ifs at h with scan
    cases h
    exact .client (by simpa using scan)

/-- Who calls the TaskDB. -/
theorem moves_db {op : DbOp} (moves : Moves w a t (.db op) t' started) :
    (∃ d d', t = .dispatch d ∧ d.next w a = some (.db op, d')) ∨
    (∃ h k, t = .handler h ∧ h.script = .call (.db op) k) ∨ t = .client ∨
    (∃ mode ok, op = .spawnReady mode ok) ∨ op = .setSpawnInhibit true := by
  generalize same : Event.db op = e at moves
  cases moves with
  | scan =>
    cases same
    exact .inr (.inr (.inr (.inl ⟨_, _, rfl⟩)))
  | @dispatch d d' e next => exact .inl ⟨d, d', rfl, same ▸ next⟩
  | call h c k script =>
    cases c with
    | db op =>
      cases same
      exact .inr (.inl ⟨h, k, rfl, script⟩)
    | setInhibitWait inh ok => cases ok <;> cases same
    | _ => cases same
  | inhibit =>
    cases same
    exact .inr (.inr (.inr (.inr rfl)))
  | client => exact .inr (.inr (.inl rfl))
  | _ => cases same

variable {m : Move World Thread Event}

theorem system_sound (h : system w t a = some m) : w.db.corrupt = false := by
  unfold system at h
  split_ifs at h with corrupt
  exact Bool.not_eq_true _ ▸ corrupt

theorem system_moves (h : system w t a = some m) :
    m.shared = w.after m.event ∧ Moves w a t m.event m.thread m.started := by
  unfold system at h
  split_ifs at h
  simp only [Option.map_eq_some_iff, Prod.exists] at h
  obtain ⟨e, t', started, next, rfl⟩ := h
  exact ⟨rfl, next_moves next⟩

variable {d : Dispatch}

theorem moves_dispatch (moves : Moves w a (.dispatch d) e t' started) :
    ∃ d', t' = .dispatch d' ∧ DispatchMoves w d e d' := by
  cases moves with
  | dispatch next => exact ⟨_, rfl, next_dispatchMoves next⟩

theorem moves_to_dispatch {d' : Dispatch} (moves : Moves w a t e (.dispatch d') started) :
    ∃ d, t = .dispatch d ∧ DispatchMoves w d e d' := by
  cases moves with
  | dispatch next => exact ⟨_, rfl, next_dispatchMoves next⟩

def noOverwrite (e : Step) : Bool :=
  match e.move.event with
  | .db (.insert _ overwrite _) => !overwrite
  | _ => true

def pidsByDispatch (e : Step) : Bool :=
  match e.move.event, e.thread with
  | .db (.setTaskPID _ _), .dispatch _ => true
  | .db (.setTaskPID _ _), _ => false
  | _, _ => true

theorem pidsByDispatch_dispatch {e : Step} (h : pidsByDispatch e = true) {pid : Int} {n : String}
    (stores : e.move.event = .db (.setTaskPID pid n)) : ∃ d, e.thread = .dispatch d := by
  unfold pidsByDispatch at h
  rw [stores] at h
  cases thread : e.thread with
  | dispatch d => exact ⟨d, rfl⟩
  | _ => simp [thread] at h

inductive IsCommand : Handling RtimCmd → Prop where
  | stop (env : StopEnv) (cmd : RtimCmd) : IsCommand (execRtimCmdStop env cmd)
  | kill (env : StopEnv) (cmd : RtimCmd) : IsCommand (execRtimCmdKill env cmd)
  | restart (now : Timespec) (cmd : RtimCmd) : IsCommand (execRtimCmdRestart now cmd)
  | notify (env : NotifyEnv) (cmd : RtimCmd) : IsCommand (execRtimCmdNotify env cmd)
  | enable (ok : Bool) (cmd : RtimCmd) : IsCommand (execRtimCmdEnable ok cmd)
  | disable (ok depOk : Bool) (cmd : RtimCmd) : IsCommand (execRtimCmdDisable ok depOk cmd)
  | addSeries (env : SeriesEnv) (cmd : RtimCmd) : IsCommand (execRtimCmdAddSeries env cmd)

inductive Fresh : Thread → Prop where
  | command {script : Handling RtimCmd} (known : IsCommand script) : Fresh (.handler { script })
  | shutdown : Fresh (.shutdown .stopCommands)
  | children : Fresh .children
  | client : Fresh .client

/-- The daemon as it enters its main loop: the tasks of the series are loaded,
no process is started, and any number of commands may come. -/
structure Boot where
  db : TaskDB
  distinct : db.names.Nodup
  others : List Thread
  fresh : ∀ t ∈ others, Fresh t

def Boot.conf (b : Boot) : Config := ⟨{ db := b.db }, .main .scan :: b.others⟩

theorem fresh_children : ∀ t ∈ [Thread.children], Fresh t := by
  intro t mem
  cases List.mem_singleton.mp mem
  exact .children

def DispatchAt (c : Config) (j : Nat) (d : Dispatch) : Prop :=
  c.threads[j]? = some (.dispatch d)

theorem moves_started (moves : Moves w a t e t' started) {x : Nat}
    (new : started[x]? = some (.dispatch d)) :
    d.pc = .lock ∧ d.pid = -1 ∧
      (d.mode = .stop ∨ (d.mode = .start ∧ e = .db (.spawnReady .start (some a.startOk)) ∧
        (w.db.spawnReady .start (some a.startOk)).started[x]? = some d.task)) := by
  cases moves with
  | scan =>
    simp only [startedBy, getElem?_map, Option.map_eq_some_iff] at new
    obtain ⟨s, hs, eq⟩ := new
    cases eq
    exact ⟨rfl, rfl, .inr ⟨rfl, rfl, hs⟩⟩
  | stopCommands =>
    simp only [stopsStartedBy, getElem?_map, Option.map_eq_some_iff] at new
    obtain ⟨s, hs, eq⟩ := new
    cases eq
    exact ⟨rfl, rfl, .inl rfl⟩
  | call h c k script =>
    cases c with
    | spawnStop t ok =>
      have mem := mem_of_getElem? new
      simp only [Call.started] at mem
      split_ifs at mem
      · cases List.mem_singleton.mp mem
        exact ⟨rfl, rfl, .inl rfl⟩
      · cases mem
    | _ => cases mem_of_getElem? new
  | _ => cases mem_of_getElem? new

variable {c : Config} {i j : Nat}

theorem dispatch_origin (ht : c.threads[i]? = some t)
    (moves : Moves c.shared a t m.event m.thread m.started) (hd : DispatchAt (c.after i m) j d) :
    (∃ d₀, DispatchAt c j d₀ ∧ ((j ≠ i ∧ d = d₀) ∨ (j = i ∧ DispatchMoves c.shared d₀ m.event d))) ∨
    (c.threads.length ≤ j ∧ m.started[j - c.threads.length]? = some (.dispatch d)) := by
  rcases after_lookup ht hd with ⟨rfl, eq⟩ | ⟨ne, old⟩ | new
  · rw [← eq] at moves
    obtain ⟨d₀, rfl, steps⟩ := moves_to_dispatch moves
    exact .inl ⟨d₀, ht, .inr ⟨rfl, steps⟩⟩
  · exact .inl ⟨d, old, .inl ⟨ne, rfl⟩⟩
  · exact .inr new

theorem dispatch_next {d₀ : Dispatch} (ht : DispatchAt c i d₀)
    (moves : Moves c.shared a (.dispatch d₀) m.event m.thread m.started)
    (hd : DispatchAt (c.after i m) i d) : d₀.next c.shared a = some (m.event, d) := by
  have here := (after_self ht m).symm.trans hd
  rw [Option.some.injEq] at here
  rw [here] at moves
  generalize m.started = started at moves
  cases moves with
  | dispatch next => exact next

theorem start_origin {p : Dispatch → Bool} (starts : ∀ d, p d = true → d.mode = .start)
    (back : ∀ w d e d', DispatchMoves w d e d' → p d' = true → p d = true)
    (ht : c.threads[i]? = some t) (moves : Moves c.shared a t m.event m.thread m.started)
    (hd : DispatchAt (c.after i m) j d) (early : p d = true) :
    (∃ d₀, DispatchAt c j d₀ ∧ p d₀ = true ∧ d.task.name = d₀.task.name ∧
      (j = i → DispatchMoves c.shared d₀ m.event d)) ∨
    (c.threads.length ≤ j ∧ m.event = .db (.spawnReady .start (some a.startOk)) ∧
      (c.shared.db.spawnReady .start (some a.startOk)).started[j - c.threads.length]? =
        some d.task) := by
  rcases dispatch_origin ht moves hd with ⟨d₀, old, ⟨other, rfl⟩ | ⟨_, steps⟩⟩ | ⟨late, new⟩
  · exact .inl ⟨d, old, early, rfl, fun same => absurd same other⟩
  · exact .inl ⟨d₀, old, back _ _ _ _ steps early, (dispatchMoves_name steps).1, fun _ => steps⟩
  · obtain ⟨_, _, stop | ⟨_, scan, started⟩⟩ := moves_started moves new
    · rw [starts d early] at stop
      cases stop
    · exact .inr ⟨late, scan, started⟩

/-- A STOP-mode thread gets its task from the task set or from the handler that
starts it. -/
theorem started_stop (moves : Moves w a t e t' started) (new : .dispatch d ∈ started)
    (stop : d.mode = .stop) :
    e = .silent ∧ (d.task ∈ w.db.taskSet ∨
      ∃ h ok k, t = .handler h ∧ h.script = .call (.spawnStop d.task ok) k) := by
  cases moves with
  | scan =>
    obtain ⟨s, _, eq⟩ := List.mem_map.mp new
    cases eq
    cases stop
  | stopCommands =>
    obtain ⟨s, mem, eq⟩ := List.mem_map.mp new
    cases eq
    exact ⟨rfl, .inl (mem_of_mem_filter mem)⟩
  | call h c k script =>
    cases c with
    | spawnStop u ok =>
      simp only [Call.started] at new
      split_ifs at new
      · cases List.mem_singleton.mp new
        exact ⟨rfl, .inr ⟨h, ok, k, rfl, script⟩⟩
      · cases new
    | _ => cases new
  | _ => cases new

def HandlerAt (c : Config) (j : Nat) (h : Handler) : Prop :=
  c.threads[j]? = some (.handler h)

theorem started_dispatch {u : Thread} (moves : Moves w a t e t' started) (new : u ∈ started) :
    ∃ d, u = .dispatch d := by
  cases moves with
  | scan =>
    obtain ⟨s, _, rfl⟩ := List.mem_map.mp new
    exact ⟨_, rfl⟩
  | stopCommands =>
    obtain ⟨s, _, rfl⟩ := List.mem_map.mp new
    exact ⟨_, rfl⟩
  | call h c k script =>
    cases c with
    | spawnStop t ok =>
      simp only [Call.started] at new
      split_ifs at new
      · exact ⟨_, List.mem_singleton.mp new⟩
      · cases new
    | _ => cases new
  | _ => cases new

theorem handler_origin (ht : c.threads[i]? = some t)
    (moves : Moves c.shared a t m.event m.thread m.started) {h : Handler}
    (hh : HandlerAt (c.after i m) j h) :
    ∃ h₀, HandlerAt c j h₀ ∧ ((j ≠ i ∧ h = h₀) ∨ (j = i ∧ ∃ q k, h₀.script = .call q k ∧
      m.event = q.event ∧ h = h₀.proceed q (k (q.reply c.shared)))) := by
  rcases after_lookup ht hh with ⟨rfl, eq⟩ | ⟨ne, old⟩ | ⟨_, new⟩
  · obtain ⟨e, shared, t', started⟩ := m
    simp only at eq moves
    subst eq
    generalize hu : Thread.handler h = u at moves
    cases moves with
    | call h₀ q k script =>
      cases hu
      exact ⟨h₀, ht, .inr ⟨rfl, q, k, script, rfl, rfl⟩⟩
    | _ => cases hu
  · exact ⟨h, old, .inl ⟨ne, rfl⟩⟩
  · obtain ⟨d, eq⟩ := started_dispatch moves (mem_of_getElem? new)
    cases eq

def telnetHandler : Handler where
  script := execRtimCmdDisable true true ⟨.c .disable, ["telnet"]⟩

def telnetBoot : Boot where
  db := { taskSet := [{ name := "telnet" }] }
  distinct := by decide
  others := [.children, .handler telnetHandler]
  fresh := by
    intro t mem
    simp only [mem_cons, not_mem_nil, or_false] at mem
    rcases mem with rfl | rfl
    · exact .children
    · exact .command (.disable _ _ _)

theorem boot_threads (b : Boot) (h : b.conf.threads[j]? = some t) :
    (j = 0 ∧ t = .main .scan) ∨ (0 < j ∧ Fresh t) := by
  cases j with
  | zero => exact .inl ⟨rfl, by simpa [Boot.conf] using h.symm⟩
  | succ j =>
    exact .inr ⟨j.succ_pos, b.fresh t (mem_of_getElem? (by simpa [Boot.conf] using h))⟩

theorem boot_no_dispatch (b : Boot) : ¬ DispatchAt b.conf j d := by
  intro h
  rcases boot_threads b h with ⟨_, h⟩ | ⟨_, h⟩ <;> cases h

theorem run_distinct {guard : Step → Prop} {b : Boot} {tr : List Step}
    (run : Run system guard b.conf tr c) : c.shared.db.names.Nodup := by
  refine run.invariant (fun c => c.shared.db.names.Nodup) b.distinct ?_
  intro c i t m a distinct _ step _
  simpa only [Conf.after, (system_moves step).1] using distinct_after distinct m.event

def InsertedIn (tr : List Step) (n : String) : Prop :=
  ∃ e ∈ tr, ∃ op t, e.move.event = .db op ∧ op.Inserts t ∧ t.name = n

/-- No task gets lost or is there twice, and each new one comes from an insertion, as long as no
copy of a task fails. -/
theorem tasks_kept {guard : Step → Prop} {b : Boot} {tr : List Step}
    (run : Run system guard b.conf tr c) : c.shared.db.corrupt = false →
      c.shared.db.names.Nodup ∧
      ∃ added, c.shared.db.names = b.db.names ++ added ∧ ∀ n ∈ added, InsertedIn tr n := by
  refine fun _ => ⟨run_distinct run, run.history (fun tr c => ∃ added,
    c.shared.db.names = b.db.names ++ added ∧ ∀ n ∈ added, InsertedIn tr n)
    ⟨[], (append_nil _).symm, nofun⟩ ?_⟩
  rintro tr c i t m a ⟨added, names, origin⟩ - step -
  have earlier : ∀ n ∈ added, InsertedIn (tr ++ [⟨c, i, a, t, m⟩]) n := by
    intro n mem
    obtain ⟨e, there, facts⟩ := origin n mem
    exact ⟨e, mem_append_left _ there, facts⟩
  simp only [Conf.after, (system_moves step).1]
  rcases after_db c.shared m.event with same | ⟨op, event, same⟩
  · exact ⟨added, by rw [same, names], earlier⟩
  · rcases names_apply op c.shared.db with kept | ⟨new, inserts, _, set⟩
    · exact ⟨added, by rw [same, kept, names], earlier⟩
    · refine ⟨added ++ [new.name], ?_, fun n mem => ?_⟩
      · rw [same, TaskDB.names, set, map_append, ← append_assoc, ← names]
        rfl
      · rcases List.mem_append.mp mem with mem | mem
        · exact earlier n mem
        · exact ⟨_, mem_append_right _ mem_cons_self, op, new, event, inserts,
            (List.mem_singleton.mp mem).symm⟩

theorem telnet_kept : ∃ tr c, Run system (fun _ => true = true) telnetBoot.conf tr c ∧
    tr.length = 2 ∧ c.shared.db.names.Nodup := by
  have run := run_of_schedule system (fun _ => true) [(0, {}), (2, {})] telnetBoot.conf (by decide)
  exact ⟨_, _, run, rfl, (tasks_kept run (by decide)).1⟩

def Thread.startsTask (n : String) : Thread → Bool
  | .dispatch d => d.mode = .start && d.task.name = n
  | _ => false

def startsFor (n : String) (e : Step) : Bool := e.move.started.any (Thread.startsTask n)

theorem startsFor_ready (distinct : w.db.names.Nodup) (moves : Moves w a t e t' started)
    {n : String} (starts : started.any (Thread.startsTask n) = true) :
    e = .db (.spawnReady .start (some a.startOk)) ∧
      ∃ u, w.db.findTask n = some u ∧ taskIsReady u = true ∧
        (w.after e).db.findTask n = some (u.setState stateStarting) := by
  obtain ⟨v, mem, own⟩ := List.any_eq_true.mp starts
  obtain ⟨d, rfl⟩ := started_dispatch moves mem
  obtain ⟨x, new⟩ := mem_iff_getElem?.mp mem
  simp only [Thread.startsTask, Bool.and_eq_true, decide_eq_true_eq] at own
  obtain ⟨mode, rfl⟩ := own
  obtain ⟨_, _, stop | ⟨_, rfl, scanned⟩⟩ := moves_started moves new
  · rw [stop] at mode
    cases mode
  · obtain ⟨found, u, before, ready, same⟩ := started_found distinct (mem_of_getElem? scanned)
    exact ⟨rfl, u, before, ready, same ▸ found⟩

def turns (i count : Nat) : List (Nat × Answers) := List.replicate count (i, {})

end Crinit
