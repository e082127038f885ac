import Crinit.System

/-! What one dispatch thread does from its creation to its end, whatever the other threads do
meanwhile. -/
namespace Crinit

open Interleave List

/-- One dispatch thread by itself. The scheduler picks the world of every step, so
anything may happen between two steps. -/
def alone : Program Unit Dispatch (World × Answers) Event := fun _ d a =>
  (d.next a.1 a.2).map fun (e, d') => ⟨e, (), d', []⟩

abbrev Turn := Taken Unit Dispatch (World × Answers) Event

def knows (n : String) (e : Turn) : Bool := (e.answers.1.db.findTask n).isSome

def Life (d₀ : Dispatch) (past : List Turn) (d : Dispatch) : Prop :=
  Run alone (fun e => knows d₀.task.name e = true) ⟨(), [d₀]⟩ past ⟨(), [d]⟩

inductive Act where
  /-- Environment, launcher command and cgroup are set up. -/
  | prepared
  | spawned (i : Nat) (argv : List String)
  /-- Command `i` has exited normally with status 0. -/
  | returned (i : Nat)
  | stored (g : Stage)
  | fulfilled (g : Stage)
  deriving DecidableEq, Repr

def Dispatch.act (d : Dispatch) (w : World) (a : Answers) (e : Event) : Option Act :=
  match d.pc, e with
  | .setup, _ => if a.ok then some .prepared else none
  | .spawn i, .fork _ => some (.spawned i (d.cmds.getD i []))
  | .waitExit i, _ => if d.pid ∈ w.zombies ∧ a.ok then some (.returned i) else none
  | .setState g, .db (.setTaskState s n _) =>
    if s = g.state ∧ n = d.task.name then some (.stored g) else none
  | .fulfil g, .db (.fulfillDep dep none) =>
    if dep = ⟨d.task.name, g.event⟩ then some (.fulfilled g) else none
  | _, _ => none

def acts (past : List Turn) : List Act :=
  past.filterMap fun e => e.thread.act e.answers.1 e.answers.2 e.move.event

def begun (cmds : List (List String)) (i : Nat) : List Act :=
  .spawned i (cmds.getD i []) :: if i = 0 then [.stored .running, .fulfilled .running] else []

def ran (cmds : List (List String)) : Nat → List Act
  | 0 => [.prepared]
  | i + 1 => ran cmds i ++ begun cmds i ++ [.returned i]

inductive Broken (cmds : List (List String)) : List Act → Prop where
  | unprepared : Broken cmds []
  | unspawned {i : Nat} (inside : i < cmds.length) : Broken cmds (ran cmds i)
  | died {i : Nat} (inside : i < cmds.length) : Broken cmds (ran cmds i ++ begun cmds i)

def announced (g : Stage) : List Act := [.stored g, .fulfilled g]

inductive Ended (cmds : List (List String)) : List Act → Prop where
  | done : Ended cmds (ran cmds cmds.length ++ announced .done)
  | failed {acts : List Act} (broken : Broken cmds acts) : Ended cmds (acts ++ announced .failed)

inductive Told (cmds : List (List String)) : DispatchPc → List Act → Prop where
  | lock : Told cmds .lock []
  | setup : Told cmds .setup []
  | spawn {i : Nat} (inside : i < cmds.length) : Told cmds (.spawn i) (ran cmds i)
  | registerPid {i : Nat} (inside : i < cmds.length) :
      Told cmds (.registerPid i) (ran cmds i ++ [.spawned i (cmds.getD i [])])
  | setRunning (inside : 0 < cmds.length) :
      Told cmds (.setState .running) (ran cmds 0 ++ [.spawned 0 (cmds.getD 0 [])])
  | fulfilSpawn (inside : 0 < cmds.length) : Told cmds (.fulfil .running)
      (ran cmds 0 ++ [.spawned 0 (cmds.getD 0 []), .stored .running])
  | provideRunning {rest : List TaskPrv} (inside : 0 < cmds.length) :
      Told cmds (.provide .running rest) (ran cmds 0 ++ begun cmds 0)
  | waitExit {i : Nat} (inside : i < cmds.length) :
      Told cmds (.waitExit i) (ran cmds i ++ begun cmds i)
  | clearPid {i : Nat} (inside : i < cmds.length) : Told cmds (.clearPid i) (ran cmds (i + 1))
  | block {i : Nat} (inside : i < cmds.length) : Told cmds (.block i) (ran cmds (i + 1))
  | reap {i : Nat} (inside : i < cmds.length) : Told cmds (.reap i) (ran cmds (i + 1))
  | setDone : Told cmds (.setState .done) (ran cmds cmds.length)
  | fulfilWait : Told cmds (.fulfil .done) (ran cmds cmds.length ++ [.stored .done])
  | provideDone {rest : List TaskPrv} :
      Told cmds (.provide .done rest) (ran cmds cmds.length ++ announced .done)
  | setFailed {done : List Act} (broken : Broken cmds done) : Told cmds (.setState .failed) done
  | failClearPid {done : List Act} (broken : Broken cmds done) :
      Told cmds .failClearPid (done ++ [.stored .failed])
  | failBlock {done : List Act} (broken : Broken cmds done) :
      Told cmds .failBlock (done ++ [.stored .failed])
  | failReap {done : List Act} (broken : Broken cmds done) :
      Told cmds .failReap (done ++ [.stored .failed])
  | fulfilFail {done : List Act} (broken : Broken cmds done) :
      Told cmds (.fulfil .failed) (done ++ [.stored .failed])
  | provideFailed {rest : List TaskPrv} {done : List Act} (broken : Broken cmds done) :
      Told cmds (.provide .failed rest) (done ++ announced .failed)
  | exit {done : List Act} (ended : Ended cmds done) : Told cmds .exit done
  | finished {done : List Act} (ended : Ended cmds done) : Told cmds .finished done

@[simp] theorem goto_pc (d : Dispatch) (pc : DispatchPc) : (d.goto pc).pc = pc := rfl
@[simp] theorem goto_cmds (d : Dispatch) (pc : DispatchPc) : (d.goto pc).cmds = d.cmds := rfl

variable {i : Nat}

theorem told_chainAt (d : Dispatch) (inside : i ≤ d.cmds.length) :
    Told d.cmds (d.chainAt i) (ran d.cmds i) := by
  unfold Dispatch.chainAt
  split_ifs with more
  · exact .spawn more
  · have last : i = d.cmds.length := by omega
    rw [last]
    exact .setDone

variable {n : String}

theorem registered_known {db : TaskDB} {pid : Int} (known : (db.findTask n).isSome) :
    ((DbOp.setTaskPID pid n).apply db).ret = 0 := by
  obtain ⟨t, found⟩ := Option.isSome_iff_exists.mp known
  simp [DbOp.apply, TaskDB.setTaskPID, found]

theorem stored_known {db : TaskDB} {s : TaskState} {now : Timespec}
    (known : (db.findTask n).isSome) : ((DbOp.setTaskState s n now).apply db).ret = 0 := by
  obtain ⟨t, found⟩ := Option.isSome_iff_exists.mp known
  simp [DbOp.apply, TaskDB.setTaskState, found]

variable {cmds : List (List String)} {g : Stage} {done : List Act}

theorem told_provided {rest : List TaskPrv} (rest' : List TaskPrv)
    (told : Told cmds (.provide g rest) done) :
    Told cmds g.provided done ∧ Told cmds (.provide g rest') done := by
  cases told with
  | provideRunning inside => exact ⟨.waitExit inside, .provideRunning inside⟩
  | provideDone => exact ⟨.exit .done, .provideDone⟩
  | provideFailed broken => exact ⟨.exit (.failed broken), .provideFailed broken⟩

variable {d d' : Dispatch} {w : World} {a : Answers} {e : Event}

theorem provide_next {rest : List TaskPrv} (here : d.pc = .provide g rest)
    (next : d.next w a = some (e, d')) :
    d' = d.goto g.provided ∨
      ∃ rest', rest'.length < rest.length ∧ d' = d.goto (.provide g rest') := by
  unfold Dispatch.next at next
  rw [here] at next
  cases rest with
  | nil =>
    cases next
    exact .inl rfl
  | cons p rest =>
    simp only at next
    split_ifs at next
    all_goals
      cases next
      first | exact .inl rfl | exact .inr ⟨rest, Nat.lt_succ_self _, rfl⟩

theorem told_step (known : (w.db.findTask d.task.name).isSome) (next : d.next w a = some (e, d'))
    (told : Told d.cmds d.pc done) : Told d'.cmds d'.pc (done ++ (d.act w a e).toList) := by
  have provides {g : Stage} {rest : List TaskPrv} (here : d.pc = .provide g rest) :
      Told d'.cmds d'.pc (done ++ (d.act w a e).toList) := by
    have silent : d.act w a e = none := by simp [Dispatch.act, here]
    rw [here] at told
    rcases provide_next here next with rfl | ⟨rest', _, rfl⟩
    · simpa [silent] using (told_provided [] told).1
    · simpa [silent] using (told_provided _ told).2
  unfold Dispatch.next at next
  generalize here : d.pc = pc at told next
  cases told with
  | lock =>
    obtain ⟨t, _, out⟩ := Option.map_eq_some_iff.mp next
    cases out
    simpa [Dispatch.act, here] using Told.setup
  | setup =>
    cases next
    cases ok : a.ok with
    | true => simpa [Dispatch.act, here, ok, ran] using told_chainAt d (Nat.zero_le _)
    | false => simpa [Dispatch.act, here, ok] using Told.setFailed .unprepared
  | spawn inside =>
    simp only at next
    split_ifs at next with failed new
    · cases next
      simpa [Dispatch.act, here] using Told.setFailed (.unspawned inside)
    · cases next
      simp only [Dispatch.act, here]
      exact .registerPid inside
  | @registerPid i inside =>
    simp only [registered_known known] at next
    cases next
    cases i with
    | zero => simpa [Dispatch.act, here] using Told.setRunning inside
    | succ i => simpa [Dispatch.act, here, begun] using Told.waitExit inside
  | setRunning inside =>
    simp only [stored_known known] at next
    cases next
    simpa [Dispatch.act, here] using Told.fulfilSpawn inside
  | fulfilSpawn inside =>
    cases next
    simpa [Dispatch.act, here, begun] using Told.provideRunning inside
  | waitExit inside =>
    simp only at next
    split_ifs at next with running ended
    · cases next
      simp only [Dispatch.act, here, ended]
      exact .clearPid inside
    · cases next
      simpa [Dispatch.act, here, ended] using Told.setFailed (.died inside)
  | clearPid inside =>
    cases next
    simpa [Dispatch.act, here] using Told.block inside
  | block inside =>
    simp only at next
    split_ifs at next
    cases next
    simpa [Dispatch.act, here] using Told.reap inside
  | @reap i inside =>
    simp only at next
    split_ifs at next
    cases next
    simpa [Dispatch.act, here] using told_chainAt d (i := i + 1) inside
  | setDone =>
    cases next
    simpa [Dispatch.act, here] using Told.fulfilWait
  | fulfilWait =>
    cases next
    simpa [Dispatch.act, here, announced] using Told.provideDone
  | setFailed broken =>
    cases next
    simpa [Dispatch.act, here] using Told.failClearPid broken
  | failClearPid broken =>
    cases next
    simp only [goto_pc, goto_cmds, Dispatch.act, here]
    split_ifs
    · simpa using Told.failBlock broken
    · simpa using Told.fulfilFail broken
  | failBlock broken =>
    simp only at next
    split_ifs at next
    cases next
    simpa [Dispatch.act, here] using Told.failReap broken
  | failReap broken =>
    simp only at next
    split_ifs at next
    cases next
    simpa [Dispatch.act, here] using Told.fulfilFail broken
  | fulfilFail broken =>
    cases next
    simpa [Dispatch.act, here, announced] using Told.provideFailed broken
  | exit ended =>
    simp only at next
    split_ifs at next <;> cases next <;> simpa [Dispatch.act, here] using Told.finished ended
  | finished => cases next
  | provideRunning | provideDone | provideFailed => exact provides here

variable {d₀ : Dispatch} {past : List Turn}

/-- The induction every result about one thread goes through. -/
theorem Life.induction (P : List Turn → Dispatch → Prop) (start : P [] d₀)
    (turn : ∀ past d w a e d', P past d → (w.db.findTask d.task.name).isSome →
      d.next w a = some (e, d') → P (past ++ [⟨⟨(), [d]⟩, 0, (w, a), d, ⟨e, (), d', []⟩⟩]) d')
    (life : Life d₀ past d) : P past d := by
  have all := life.history
    (fun past c => ∃ d, c = ⟨(), [d]⟩ ∧ d.task.name = d₀.task.name ∧ P past d)
    ⟨d₀, rfl, rfl, start⟩ ?_
  · obtain ⟨d', same, _, holds⟩ := all
    cases same
    exact holds
  · rintro past c i d m ⟨w, a⟩ ⟨d₁, rfl, name, holds⟩ ht step known
    rw [getElem?_singleton] at ht
    split_ifs at ht with first
    cases ht
    subst first
    simp only [alone, Option.map_eq_some_iff, Prod.exists] at step
    obtain ⟨e, d', next, rfl⟩ := step
    refine ⟨d', rfl, (dispatchMoves_name (next_dispatchMoves next)).1.trans name, ?_⟩
    exact turn past d w a e d' holds (by simpa [knows, name] using known) next

theorem life_told (fresh : d₀.pc = .lock) (life : Life d₀ past d) :
    Told d.cmds d.pc (acts past) := by
  refine life.induction (fun past d => Told d.cmds d.pc (acts past)) (fresh ▸ .lock) ?_
  intro past d w a e d' told known next
  have told' := told_step known next told
  cases seen : d.act w a e <;> simpa [acts, filterMap_append, seen] using told'

theorem life_mode (life : Life d₀ past d) : d.mode = d₀.mode :=
  life.induction (fun _ d => d.mode = d₀.mode) rfl fun _ _ _ _ _ _ mode _ next =>
    (dispatchMoves_name (next_dispatchMoves next)).2.trans mode

def Act.argv : Act → Option (List String)
  | .spawned _ argv => some argv
  | _ => none

def spawnedCmds (done : List Act) : List (List String) := done.filterMap Act.argv

def Act.Needs (before : List Act) : Act → Prop
  | .spawned (i + 1) _ => .returned i ∈ before
  | .stored .running | .fulfilled .running => ∃ argv, .spawned 0 argv ∈ before
  | _ => True

def Ordered (done : List Act) : Prop :=
  ∀ before x after, done = before ++ x :: after → x.Needs before

def Act.ofStage (g : Stage) : Act → Bool
  | .stored h | .fulfilled h => h = g
  | _ => false

def announcements (g : Stage) (done : List Act) : List Act := done.filter (Act.ofStage g)

theorem ordered_snoc {x : Act} (ordered : Ordered done) (needs : x.Needs done) :
    Ordered (done ++ [x]) := by
  intro before y after eq
  rcases eq_nil_or_concat after with rfl | ⟨front, last, rfl⟩
  · obtain ⟨rfl, same⟩ := append_inj' eq rfl
    cases same
    exact needs
  · rw [concat_eq_append, ← cons_append, ← append_assoc] at eq
    exact ordered before y front (append_inj' eq rfl).1

theorem ordered_begun (ordered : Ordered done)
    (needs : Act.Needs done (.spawned i (cmds.getD i []))) : Ordered (done ++ begun cmds i) := by
  have first := ordered_snoc ordered needs
  cases i with
  | succ i => simpa [begun] using first
  | zero =>
    have spawned : ∃ argv, Act.spawned 0 argv ∈ done ++ [.spawned 0 (cmds.getD 0 [])] :=
      ⟨_, mem_append_right _ (List.mem_singleton.mpr rfl)⟩
    have second := ordered_snoc (x := .stored .running) first spawned
    have third := ordered_snoc (x := .fulfilled .running) second
      (spawned.imp fun argv => mem_append_left _)
    simpa [begun] using third

theorem returned_mem_ran (cmds : List (List String)) (i j : Nat) :
    .returned j ∈ ran cmds i ↔ j < i := by
  induction i with
  | zero => simp [ran]
  | succ i ih =>
    have apart : .returned j ∉ begun cmds i := by
      unfold begun
      split_ifs <;> simp
    simp only [ran, mem_append, ih, apart, or_false, mem_singleton, Act.returned.injEq]
    omega

theorem ran_ordered (cmds : List (List String)) (i : Nat) : Ordered (ran cmds i) := by
  induction i with
  | zero =>
    have none : Ordered [] := by
      intro before x after eq
      simp at eq
    exact ordered_snoc none trivial
  | succ i ih =>
    refine ordered_snoc (ordered_begun ih ?_) trivial
    cases i with
    | zero => trivial
    | succ i => exact (returned_mem_ran cmds (i + 1) i).mpr (Nat.lt_succ_self i)

theorem begun_spawned (cmds : List (List String)) (i : Nat) :
    spawnedCmds (begun cmds i) = [cmds.getD i []] := by
  unfold spawnedCmds begun
  split_ifs <;> simp [Act.argv]

theorem take_begun (inside : i < cmds.length) :
    cmds.take i ++ [cmds.getD i []] = cmds.take (i + 1) := by
  rw [take_add_one, getD_eq_getElem?_getD, getElem?_eq_getElem inside]
  rfl

theorem ran_spawned (inside : i ≤ cmds.length) : spawnedCmds (ran cmds i) = cmds.take i := by
  induction i with
  | zero => rfl
  | succ i ih =>
    have begins := begun_spawned cmds i
    have before := ih (by omega)
    simp only [spawnedCmds] at begins before ⊢
    rw [ran, filterMap_append, filterMap_append, before, begins, ← take_begun inside]
    simp [Act.argv]

theorem begun_announcements (cmds : List (List String)) (i : Nat) (g : Stage) :
    announcements g (begun cmds i) = if i = 0 ∧ g = .running then announced .running else [] := by
  unfold announcements begun
  by_cases first : i = 0 <;> cases g <;> simp [first, Act.ofStage, announced]

theorem ran_announcements (cmds : List (List String)) (i : Nat) (g : Stage) :
    announcements g (ran cmds i) = if i ≠ 0 ∧ g = .running then announced .running else [] := by
  induction i with
  | zero => rfl
  | succ i ih =>
    have begins := begun_announcements cmds i g
    unfold announcements at ih begins ⊢
    rw [ran, filter_append, filter_append, ih, begins]
    by_cases first : i = 0 <;> cases g <;> simp [first, Act.ofStage]

theorem ran_starts {j : Nat} (le : i ≤ j) : ran cmds i <+: ran cmds j := by
  induction le with
  | refl => exact prefix_rfl
  | step _ ih => exact ih.trans (by simp [ran, append_assoc])

def DispatchPc.announcing : DispatchPc → Bool
  | .registerPid i => i = 0
  | .setState g | .fulfil g => g = .running
  | _ => false

/-- What can be done before DONE or FAILED is stored. The flag tells of a thread
between the spawn of its first command and the announcement of it. -/
inductive Halfway (cmds : List (List String)) : Bool → List Act → Prop where
  | nothing : Halfway cmds false []
  | between {i : Nat} (inside : i ≤ cmds.length) : Halfway cmds false (ran cmds i)
  | begun {i : Nat} (inside : i < cmds.length) : Halfway cmds false (ran cmds i ++ begun cmds i)
  | opened {i : Nat} (inside : i < cmds.length) :
      Halfway cmds (i = 0) (ran cmds i ++ [.spawned i (cmds.getD i [])])
  | running (inside : 0 < cmds.length) :
      Halfway cmds true (ran cmds 0 ++ [.spawned 0 (cmds.getD 0 []), .stored .running])

theorem broken_halfway (broken : Broken cmds done) : Halfway cmds false done := by
  cases broken with
  | unprepared => exact .nothing
  | unspawned inside => exact .between (Nat.le_of_lt inside)
  | died inside => exact .begun inside

theorem told_halfway {pc : DispatchPc} (told : Told cmds pc done) :
    ∃ base tail g, done = base ++ tail ∧ Halfway cmds pc.announcing base ∧ g ≠ .running ∧
      tail <+: announced g := by
  have whole (half : Halfway cmds pc.announcing done) :
      ∃ base tail g, done = base ++ tail ∧ Halfway cmds pc.announcing base ∧ g ≠ .running ∧
        tail <+: announced g :=
    ⟨done, [], .done, by simp, half, by decide, nil_prefix⟩
  have stored (g : Stage) : [Act.stored g] <+: announced g := ⟨[.fulfilled g], rfl⟩
  cases told with
  | lock | setup => exact whole .nothing
  | spawn inside => exact whole (.between (Nat.le_of_lt inside))
  | registerPid inside => exact whole (.opened inside)
  | setRunning inside => exact whole (.opened (i := 0) inside)
  | fulfilSpawn inside => exact whole (.running inside)
  | provideRunning inside | waitExit inside => exact whole (.begun inside)
  | clearPid inside | block inside | reap inside => exact whole (.between inside)
  | setDone => exact whole (.between (Nat.le_refl _))
  | setFailed broken => exact whole (broken_halfway broken)
  | fulfilWait => exact ⟨_, _, .done, rfl, .between (Nat.le_refl _), by decide, stored .done⟩
  | provideDone =>
    exact ⟨_, _, .done, rfl, .between (Nat.le_refl _), by decide, prefix_rfl⟩
  | failClearPid broken | failBlock broken | failReap broken | fulfilFail broken =>
    exact ⟨_, _, .failed, rfl, broken_halfway broken, by decide, stored .failed⟩
  | provideFailed broken =>
    exact ⟨_, _, .failed, rfl, broken_halfway broken, by decide, prefix_rfl⟩
  | exit ended | finished ended =>
    cases ended with
    | done => exact ⟨_, _, .done, rfl, .between (Nat.le_refl _), by decide, prefix_rfl⟩
    | failed broken =>
      exact ⟨_, _, .failed, rfl, broken_halfway broken, by decide, prefix_rfl⟩

theorem halfway_inside {b : Bool} (half : Halfway cmds b done) : done <+: ran cmds cmds.length := by
  have inner {i : Nat} {begins : List Act} (inside : i < cmds.length)
      (early : begins <+: begun cmds i) : ran cmds i ++ begins <+: ran cmds cmds.length := by
    refine List.IsPrefix.trans ?_ (ran_starts (i := i + 1) inside)
    rw [ran, append_assoc, prefix_append_right_inj]
    exact early.trans (prefix_append _ _)
  cases half with
  | nothing => exact nil_prefix
  | between inside => exact ran_starts inside
  | begun inside => exact inner inside prefix_rfl
  | opened inside => exact inner inside ⟨_, rfl⟩
  | running inside => exact inner inside ⟨[.fulfilled .running], rfl⟩

theorem halfway_running (half : Halfway cmds false done) (some : spawnedCmds done ≠ []) :
    announcements .running done = announced .running := by
  generalize flag : false = b at half
  cases half with
  | nothing => exact absurd rfl some
  | @between i inside =>
    rw [ran_spawned inside] at some
    have later : i ≠ 0 := by
      rintro rfl
      exact some rfl
    simp [ran_announcements, later]
  | @begun i inside =>
    have first := ran_announcements cmds i .running
    have second := begun_announcements cmds i .running
    unfold announcements at first second ⊢
    rw [filter_append, first, second]
    by_cases zero : i = 0 <;> simp [zero]
  | @opened i inside =>
    have later : i ≠ 0 := by simpa using flag
    have first := ran_announcements cmds i .running
    unfold announcements at first ⊢
    rw [filter_append, first]
    simp [later, Act.ofStage]
  | running => cases flag

theorem ordered_start {more : List Act} (early : done <+: more) (ordered : Ordered more) :
    Ordered done := by
  obtain ⟨rest, rfl⟩ := early
  intro before x after eq
  exact ordered before x (after ++ rest) (by simp [eq])

theorem ordered_append {tail : List Act} (ordered : Ordered done)
    (free : ∀ x ∈ tail, ∀ before, x.Needs before) : Ordered (done ++ tail) := by
  induction tail generalizing done with
  | nil => simpa using ordered
  | cons x tail ih =>
    have first := ordered_snoc ordered (free x (mem_cons_self ..) done)
    simpa using ih first fun y hy => free y (mem_cons_of_mem _ hy)

theorem tail_silent (last : g ≠ .running) {tail : List Act} (early : tail <+: announced g) :
    spawnedCmds tail = [] ∧ announcements .running tail = [] ∧
      ∀ x ∈ tail, ∀ before, x.Needs before := by
  have each : ∀ x ∈ tail, x = .stored g ∨ x = .fulfilled g := by
    intro x mem
    simpa [announced] using early.subset mem
  refine ⟨List.filterMap_eq_nil_iff.mpr fun x mem => ?_,
    List.filter_eq_nil_iff.mpr fun x mem => ?_, fun x mem before => ?_⟩
  · rcases each x mem with rfl | rfl <;> rfl
  · rcases each x mem with rfl | rfl <;> simpa [Act.ofStage] using last
  · rcases each x mem with rfl | rfl <;> cases g <;> trivial

theorem announcements_ended {h : Stage} (last : h ≠ .running) {b : Bool}
    (half : Halfway cmds b done) :
    announcements h (done ++ announced g) = if g = h then announced g else [] := by
  have nothing : announcements h done = [] := by
    have whole := ran_announcements cmds cmds.length h
    have early := (halfway_inside half).filter (Act.ofStage h)
    unfold announcements at whole ⊢
    rw [whole, if_neg (fun both => last both.2)] at early
    exact List.prefix_nil.mp early
  unfold announcements at nothing ⊢
  rw [filter_append, nothing]
  cases g <;> cases h <;> simp [announced, Act.ofStage]

theorem broken_incomplete (broken : Broken cmds done) :
    ¬ (.prepared ∈ done ∧ ∀ i < cmds.length, .returned i ∈ done) := by
  rintro ⟨prepared, all⟩
  cases broken with
  | unprepared => cases prepared
  | @unspawned i inside => exact Nat.lt_irrefl i ((returned_mem_ran cmds i i).mp (all i inside))
  | @died i inside =>
    rcases List.mem_append.mp (all i inside) with mem | mem
    · exact Nat.lt_irrefl i ((returned_mem_ran cmds i i).mp mem)
    · unfold begun at mem
      split_ifs at mem <;> simp at mem

theorem prepared_mem_ran (cmds : List (List String)) (i : Nat) : .prepared ∈ ran cmds i :=
  (ran_starts (Nat.zero_le i)).subset (List.mem_singleton.mpr rfl)

theorem ended_result (ended : Ended cmds done) :
    ((announcements .done done = announced .done ∧ announcements .failed done = []) ∨
      (announcements .done done = [] ∧ announcements .failed done = announced .failed)) ∧
    (announcements .done done = announced .done ↔ .prepared ∈ done ∧ spawnedCmds done = cmds ∧
      ∀ i < cmds.length, .returned i ∈ done) := by
  cases ended with
  | done =>
    have half : Halfway cmds false (ran cmds cmds.length) := .between (Nat.le_refl _)
    have isDone := announcements_ended (g := .done) (h := .done) (by decide) half
    have notFailed := announcements_ended (g := .done) (h := .failed) (by decide) half
    refine ⟨.inl ⟨isDone, notFailed⟩, fun _ => ⟨?_, ?_, ?_⟩, fun _ => isDone⟩
    · exact mem_append_left _ (prepared_mem_ran _ _)
    · have all := ran_spawned (Nat.le_refl cmds.length)
      rw [take_length] at all
      unfold spawnedCmds at all ⊢
      rw [filterMap_append, all]
      simp [announced, Act.argv]
    · intro i more
      exact mem_append_left _ ((returned_mem_ran _ _ _).mpr more)
  | @failed before broken =>
    have half := broken_halfway broken
    have notDone := announcements_ended (g := .failed) (h := .done) (by decide) half
    have isFailed := announcements_ended (g := .failed) (h := .failed) (by decide) half
    refine ⟨.inr ⟨notDone, isFailed⟩, fun isDone => ?_, fun ⟨prepared, _, all⟩ => ?_⟩
    · rw [notDone] at isDone
      cases isDone
    · refine absurd ⟨?_, fun i more => ?_⟩ (broken_incomplete broken)
      · simpa [announced] using prepared
      · simpa [announced] using all i more

def restAfter (n p i : Nat) : Nat := (n - i - 1) * (p + 10) + p + 7

def DispatchPc.stepsLeft (n p : Nat) : DispatchPc → Nat
  | .lock | .setup => n * (p + 10) + p + 8
  | .spawn i => restAfter n p i + p + 9
  | .registerPid i => restAfter n p i + p + 8
  | .setState .running => restAfter n p 0 + p + 7
  | .fulfil .running => restAfter n p 0 + p + 6
  | .provide .running rest => restAfter n p 0 + rest.length + 5
  | .waitExit i => restAfter n p i + 4
  | .clearPid i => restAfter n p i + 3
  | .block i => restAfter n p i + 2
  | .reap i => restAfter n p i + 1
  | .setState _ => p + 7
  | .failClearPid => p + 6
  | .failBlock => p + 5
  | .failReap => p + 4
  | .fulfil _ => p + 3
  | .provide _ rest => rest.length + 2
  | .exit => 1
  | .finished => 0

theorem restAfter_succ {n p : Nat} (more : i + 1 < n) :
    restAfter n p i = restAfter n p (i + 1) + p + 10 := by
  obtain ⟨rest, rfl⟩ := Nat.exists_eq_add_of_lt more
  have here : i + 1 + rest + 1 - i - 1 = rest + 1 := by omega
  have there : i + 1 + rest + 1 - (i + 1) - 1 = rest := by omega
  unfold restAfter
  rw [here, there, Nat.add_mul]
  omega

theorem restAfter_zero {n p : Nat} (more : 0 < n) :
    n * (p + 10) + p + 7 = restAfter n p 0 + p + 10 := by
  obtain ⟨rest, rfl⟩ := Nat.exists_eq_add_of_lt more
  have there : 0 + rest + 1 - 0 - 1 = rest := by omega
  unfold restAfter
  rw [there, Nat.zero_add, Nat.add_mul]
  omega

theorem chainAt_left (d : Dispatch) (p i : Nat) :
    (d.chainAt (i + 1)).stepsLeft d.cmds.length p ≤ restAfter d.cmds.length p i ∧
      (d.chainAt 0).stepsLeft d.cmds.length p < d.cmds.length * (p + 10) + p + 8 := by
  unfold Dispatch.chainAt
  constructor
  · split_ifs with more
    · have := restAfter_succ (p := p) more
      simp only [DispatchPc.stepsLeft]
      omega
    · simp only [DispatchPc.stepsLeft, restAfter]
      omega
  · split_ifs with more
    · have := restAfter_zero (p := p) more
      simp only [DispatchPc.stepsLeft]
      omega
    · simp only [DispatchPc.stepsLeft]
      omega

theorem stepsLeft_decreases (locked : d.pc ≠ .lock) (next : d.next w a = some (e, d')) :
    d'.cmds = d.cmds ∧ d'.task = d.task ∧
      d'.pc.stepsLeft d.cmds.length d.task.prv.length <
        d.pc.stepsLeft d.cmds.length d.task.prv.length := by
  have least (i : Nat) : d.task.prv.length + 7 ≤ restAfter d.cmds.length d.task.prv.length i := by
    unfold restAfter
    omega
  cases next_dispatchMoves next with
  | copied t here => exact absurd here locked
  | forked i pid here =>
    refine ⟨rfl, rfl, ?_⟩
    simp only [here, DispatchPc.stepsLeft]
    omega
  | @goes _ pc edge =>
    refine ⟨rfl, rfl, ?_⟩
    have chain (i : Nat) := chainAt_left d d.task.prv.length i
    generalize here : d.pc = pc₀ at edge
    cases edge with
    | setup => exact (chain 0).2
    | reaped i => exact Nat.lt_succ_of_le (chain i).1
    | registered i =>
      have := least i
      simp only [goto_pc]
      split_ifs with first
      · subst first
        simp [DispatchPc.stepsLeft]
      · simp only [DispatchPc.stepsLeft]
        omega
    | stored g now => cases g <;> simp only [goto_pc, Stage.stored, DispatchPc.stepsLeft] <;> omega
    | fulfilled g => cases g <;> simp only [goto_pc, DispatchPc.stepsLeft] <;> omega
    | provided g rest e pc =>
      rcases provide_next here next with same | ⟨rest', shorter, same⟩
      · rw [congrArg Dispatch.pc same]
        cases g <;> simp only [goto_pc, Stage.provided, DispatchPc.stepsLeft] <;> omega
      · rw [congrArg Dispatch.pc same]
        cases g <;> simp only [goto_pc, DispatchPc.stepsLeft] <;> omega
    | failCleared => simp only [goto_pc]; split_ifs <;> simp only [DispatchPc.stepsLeft] <;> omega
    | setupFailed | spawnFailed | registerFailed | exited | waitFailed | cleared | passed
    | runningFailed | failPassed | failReaped | rearmed | left =>
      have first := least 0
      simp only [goto_pc, DispatchPc.stepsLeft]
      first | omega | (have later := least ‹Nat›; omega)

theorem unlocked (moves : DispatchMoves w d e d') : d'.pc ≠ .lock := by
  cases moves with
  | copied | forked => exact DispatchPc.noConfusion
  | goes edge =>
    simp only [goto_pc]
    generalize d.pc = pc at edge
    cases edge with
    | setup | reaped =>
      unfold Dispatch.chainAt
      split_ifs <;> exact DispatchPc.noConfusion
    | registered | failCleared => split_ifs <;> exact DispatchPc.noConfusion
    | stored g => cases g <;> exact DispatchPc.noConfusion
    | provided g rest e pc _ target =>
      rcases target with rfl | ⟨_, rfl⟩
      · cases g <;> exact DispatchPc.noConfusion
      · exact DispatchPc.noConfusion
    | _ => exact DispatchPc.noConfusion

def lifespan (n p : Nat) : Nat := n * (p + 10) + p + 9

theorem life_bounded (fresh : d₀.pc = .lock) (life : Life d₀ past d) :
    past.length ≤ lifespan d.cmds.length d.task.prv.length := by
  have all := life.induction (fun past d => (d.pc = .lock ∧ past = []) ∨ (d.pc ≠ .lock ∧
    past.length + d.pc.stepsLeft d.cmds.length d.task.prv.length ≤
      lifespan d.cmds.length d.task.prv.length)) (.inl ⟨fresh, rfl⟩) ?_
  · rcases all with ⟨_, rfl⟩ | ⟨_, bound⟩
    · exact Nat.zero_le _
    · omega
  · intro past d w a e d' before _ next
    refine .inr ⟨unlocked (next_dispatchMoves next), ?_⟩
    rw [length_append, length_singleton]
    rcases before with ⟨here, rfl⟩ | ⟨locked, bound⟩
    · unfold Dispatch.next at next
      rw [here] at next
      obtain ⟨t, _, out⟩ := Option.map_eq_some_iff.mp next
      cases out
      simp only [DispatchPc.stepsLeft, lifespan, length_nil]
      omega
    · obtain ⟨cmds, task, fewer⟩ := stepsLeft_decreases locked next
      rw [cmds, task]
      omega

/-- Only its process, the wait inhibition and the copy of its task hold a thread up. -/
theorem dispatch_progress (unfinished : d.pc ≠ .finished)
    (copies : d.pc = .lock → (d.dup w true).isSome) (ended : d.pid ∉ w.running)
    (free : w.waitInhibit = false) : ∃ a, (d.next w a).isSome := by
  cases here : d.pc with
  | lock => exact ⟨{}, by simpa [Dispatch.next, here] using copies here⟩
  | spawn i => exact ⟨{ ok := false }, by simp [Dispatch.next, here]⟩
  | provide g rest =>
    cases rest with
    | nil => exact ⟨{}, by simp [Dispatch.next, here]⟩
    | cons p rest =>
      refine ⟨{}, ?_⟩
      simp only [Dispatch.next, here]
      split_ifs <;> rfl
  | exit =>
    refine ⟨{}, ?_⟩
    simp only [Dispatch.next, here]
    split_ifs <;> rfl
  | finished => exact absurd here unfinished
  | _ => exact ⟨{}, by simp [Dispatch.next, here, ended, free]⟩

/-- A START-mode dispatch thread spawns its commands in order, each behind the success of the one
before, announces RUNNING once behind the first, and ends with one announcement, which is DONE if
and only if its preparations and all its commands succeeded. -/
theorem command_chain {slot : Option Nat} {task : Task} {past : List Turn} {d : Dispatch}
    (life : Life { mode := .start, slot := slot, task := task } past d) :
    spawnedCmds (acts past) <+: d.task.cmds ∧
    Ordered (acts past) ∧
    announcements .running (acts past) <+: announced .running ∧
    (spawnedCmds (acts past) ≠ [] → d.pc.announcing = false →
      announcements .running (acts past) = announced .running) ∧
    (d.pc = .finished →
      ((announcements .done (acts past) = announced .done ∧
          announcements .failed (acts past) = []) ∨
        (announcements .done (acts past) = [] ∧
          announcements .failed (acts past) = announced .failed)) ∧
      (announcements .done (acts past) = announced .done ↔
        .prepared ∈ acts past ∧ spawnedCmds (acts past) = d.task.cmds ∧
          ∀ i < d.task.cmds.length, .returned i ∈ acts past)) ∧
    past.length ≤ lifespan d.task.cmds.length d.task.prv.length ∧
    (d.pc = .finished ∨ ∀ w, (d.pc = .lock → (d.dup w true).isSome) → d.pid ∉ w.running →
      w.waitInhibit = false → ∃ a, (d.next w a).isSome) := by
  have cmds : d.cmds = d.task.cmds := by simp [Dispatch.cmds, life_mode life]
  have told := life_told rfl life
  have bounded := life_bounded rfl life
  rw [cmds] at told bounded
  obtain ⟨base, tail, g, eq, half, last, early⟩ := told_halfway told
  obtain ⟨noCommand, noRunning, free⟩ := tail_silent last early
  have inside := halfway_inside half
  have spawned : spawnedCmds (acts past) = spawnedCmds base := by
    rw [eq, spawnedCmds, filterMap_append]
    simpa [spawnedCmds] using noCommand
  have running : announcements .running (acts past) = announcements .running base := by
    rw [eq, announcements, filter_append]
    simpa [announcements] using noRunning
  refine ⟨?_, ?_, ?_, ?_, ?_, bounded, ?_⟩
  · have whole := inside.filterMap Act.argv
    have all := ran_spawned (Nat.le_refl d.task.cmds.length)
    rw [take_length] at all
    rw [spawned]
    unfold spawnedCmds at all ⊢
    rwa [all] at whole
  · rw [eq]
    exact ordered_append (ordered_start inside (ran_ordered _ _)) free
  · have whole := inside.filter (Act.ofStage .running)
    have all := ran_announcements d.task.cmds d.task.cmds.length .running
    rw [running]
    unfold announcements at all ⊢
    rw [all] at whole
    refine whole.trans ?_
    split_ifs
    · exact prefix_rfl
    · exact nil_prefix
  · intro some settled
    rw [spawned] at some
    rw [settled] at half
    exact running ▸ halfway_running half some
  · intro finished
    rw [finished] at told
    cases told with
    | finished ended => exact ended_result ended
  · by_cases finished : d.pc = .finished
    · exact .inl finished
    · exact .inr fun w copies ended free => dispatch_progress finished copies ended free

theorem Life.next (life : Life d₀ past d) (known : (w.db.findTask d₀.task.name).isSome)
    (next : d.next w a = some (e, d')) :
    Life d₀ (past ++ [⟨⟨(), [d]⟩, 0, (w, a), d, ⟨e, (), d', []⟩⟩]) d' :=
  Run.next 0 (w, a) life (step_iff.mpr ⟨d, ⟨e, (), d', []⟩, rfl, by simp [alone, next], rfl⟩) known

/-- What a START-mode thread of the running daemon has done is a life of its own. Its task is in the
TaskDB unless the last step was an insertion whose copy failed. -/
def LivesIn (tr : List Step) (c : Config) (j : Nat) (d : Dispatch) : Prop :=
  ∃ slot task past, Life { mode := .start, slot := slot, task := task } past d ∧
    task.name = d.task.name ∧
    (c.shared.db.corrupt = false → (c.shared.db.findTask d.task.name).isSome) ∧
    past.map (fun e => e.move.event) =
      (tr.filter fun e => e.index = j).map (fun e => e.move.event)

theorem known_after (known : (w.db.findTask n).isSome) : ((w.after e).db.findTask n).isSome := by
  rcases after_db w e with same | ⟨op, _, same⟩
  · rwa [same]
  · obtain ⟨t, found⟩ := Option.isSome_iff_exists.mp known
    obtain ⟨t', found', _⟩ := find_apply op found
    rw [same, found']
    rfl

theorem run_lives {guard : Step → Prop} {b : Boot} {tr : List Step} {c : Config}
    (run : Run system guard b.conf tr c) {j : Nat} (hd : DispatchAt c j d)
    (mode : d.mode = .start) : LivesIn tr c j d := by
  induction run generalizing j d with
  | start => exact absurd hd (boot_no_dispatch b)
  | @next tr c i a e before step _ ih =>
    obtain ⟨t, m, ht, taken, rfl⟩ := step_iff.mp step
    obtain ⟨shared, moves⟩ := system_moves taken
    have sound := system_sound taken
    have known' {n : String} (known : (c.shared.db.findTask n).isSome) :
        (m.shared.db.findTask n).isSome := shared ▸ known_after known
    rcases dispatch_origin ht moves hd with ⟨d₀, old, ⟨ne, rfl⟩ | ⟨rfl, steps⟩⟩ | ⟨late, new⟩
    · obtain ⟨slot, task, past, life, name, known, same⟩ := ih old mode
      have other : ¬ i = j := fun eq => ne eq.symm
      exact ⟨slot, task, past, life, name, fun _ => known' (known sound),
        by simpa [filter_append, filter_singleton, other] using same⟩
    · cases Option.some.inj (ht.symm.trans old)
      obtain ⟨name', mode'⟩ := dispatchMoves_name steps
      obtain ⟨slot, task, past, life, name, known, same⟩ := ih old (mode'.symm.trans mode)
      exact ⟨slot, task, _, life.next (name ▸ known sound) (dispatch_next ht moves hd),
        name.trans name'.symm, fun _ => name' ▸ known' (known sound),
        by simp [filter_append, same]⟩
    · obtain ⟨pc, pid, stop | ⟨_, scan, started⟩⟩ := moves_started moves new
      · rw [stop] at mode
        cases mode
      · have eq : d = { mode := .start, slot := d.slot, task := d.task } := by
          obtain ⟨_, _, _, _, _⟩ := d
          simp only at mode pc pid
          simp [mode, pc, pid]
        have found := (started_found (run_distinct before) (mem_of_getElem? started)).1
        have none : (tr ++ [⟨c, i, a, t, m⟩] : List Step).filter (fun e => e.index = j) = [] := by
          refine List.filter_eq_nil_iff.mpr (List.forall_mem_append.mpr ⟨fun e mem => ?_, ?_⟩)
          · have := before.index_lt e mem
            simp only [decide_eq_true_eq]
            omega
          · have := lookup_lt ht
            simp only [List.forall_mem_singleton, decide_eq_true_eq]
            omega
        refine ⟨d.slot, d.task, [], eq ▸ .start, rfl, fun _ => ?_, by rw [none]; rfl⟩
        simp only [Taken.result, Conf.after, shared, scan]
        exact Option.isSome_iff_exists.mpr ⟨_, found⟩

def chainTask : Task := { name := "net", cmds := [["/bin/up"], ["/bin/route", "add"]] }

def chainBoot : Boot where
  db := { taskSet := [chainTask] }
  distinct := by decide
  others := [.children]
  fresh := fresh_children

theorem chain_lives : ∃ tr c d, Run system (fun _ => true = true) chainBoot.conf tr c ∧
    DispatchAt c 2 d ∧ d.pc = .spawn 0 ∧ LivesIn tr c 2 d := by
  have run := run_of_schedule system (fun _ => true) [(0, {}), (2, {}), (2, {})] chainBoot.conf
    (by decide)
  exact ⟨_, _, _, run, rfl, by decide, run_lives run rfl rfl⟩

def quietWorld (t : Task) : World := { db := { taskSet := [t] }, zombies := [7] }

def chainSchedule : List (Nat × World × Answers) :=
  let idle : Nat × World × Answers := (0, quietWorld chainTask, {})
  let spawn : Nat × World × Answers := (0, { db := { taskSet := [chainTask] } }, { pid := 7 })
  List.replicate 2 idle ++ [spawn] ++ List.replicate 8 idle ++ [spawn] ++ [idle] ++
    [(0, quietWorld chainTask, { ok := false })] ++ List.replicate 8 idle

theorem command_chain_second_fails :
    ∃ past d, Life { mode := .start, slot := some 256, task := chainTask } past d ∧
      d.pc = .finished ∧ spawnedCmds (acts past) = chainTask.cmds ∧
      announcements .running (acts past) = announced .running ∧
      announcements .failed (acts past) = announced .failed := by
  have life : Life { mode := .start, slot := some 256, task := chainTask } _ _ :=
    run_of_schedule alone (knows "net") chainSchedule _ (by decide)
  obtain ⟨_, _, _, running, ended, _⟩ := command_chain life
  obtain ⟨one | one, _⟩ := ended (by decide)
  · exact absurd one.1 (by decide)
  · exact ⟨_, _, life, by decide, by decide, running (by decide) (by decide), one.2⟩

def groupTask : Task := { name := "group" }

def groupSchedule : List (Nat × World × Answers) :=
  let idle : Nat × World × Answers := (0, quietWorld groupTask, {})
  [idle, (0, quietWorld groupTask, { ok := false })] ++ List.replicate 5 idle

/-- A dependency group has no command, so all of its commands have returned. Its
thread fails all the same when it cannot be prepared. -/
theorem unprepared_group_fails :
    ∃ past d, Life { mode := .start, slot := some 256, task := groupTask } past d ∧
      d.pc = .finished ∧ spawnedCmds (acts past) = d.task.cmds ∧
      (∀ i < d.task.cmds.length, .returned i ∈ acts past) ∧
      announcements .done (acts past) = [] ∧
      announcements .failed (acts past) = announced .failed := by
  have life : Life { mode := .start, slot := some 256, task := groupTask } _ _ :=
    run_of_schedule alone (knows "group") groupSchedule _ (by decide)
  exact ⟨_, _, life, by decide, by decide, by decide, by decide, by decide⟩

end Crinit
