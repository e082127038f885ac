import Crinit.Lib.CondVar
import Crinit.WorkerPool

/-! The signals between the workers of the pool and its watchdog (`thrpool.c`). The watchdog goes
into `pthread_cond_wait` without a look at the counters. -/
namespace Crinit

open Interleave

/-! ### The pool with its condition variable -/

structure SignalledPool where
  pool : Pool
  threadAvailChanged : CondVar := {}
  deriving DecidableEq

structure WakeAnswers where
  calls : PoolAnswers := {}
  spurious : Bool := false

def Pool.dry (pool : Pool) : Bool := pool.threadAvail ≤ dryPoolThreshold pool.poolSize

/-- The busy callback is the step of a worker behind `accept`. -/
def condAfter (cond : CondVar) (t : PoolThread) (behind : Pool) (spurious : Bool) :
    Option CondVar :=
  match t with
  | .locking => some cond.wait
  | .waiting => cond.back spurious
  | .worker (.returned _) => some (if behind.dry then cond.signal else cond)
  | _ => some cond

def dryPoolProgram (host : Host) : Program SignalledPool PoolThread WakeAnswers PoolEvent :=
  fun s t o => (poolProgram host s.pool t o.calls).bind fun m =>
    (condAfter s.threadAvailChanged t m.shared o.spurious).map fun cond =>
      ⟨m.event, ⟨m.shared, cond⟩, m.thread, m.started⟩

def signalledInit (initialSize : BitVec 64) : Conf SignalledPool PoolThread :=
  ⟨⟨(threadPoolInit initialSize).shared, {}⟩, (threadPoolInit initialSize).threads⟩

abbrev WakeStep := Taken SignalledPool PoolThread WakeAnswers PoolEvent

/-! ### A shortage that nobody will see -/

def PoolThread.waits : PoolThread → Bool
  | .waiting => true
  | _ => false

def PoolThread.inBusyCallback : PoolThread → Bool
  | .worker (.returned _) => true
  | _ => false

def NoCallback (c : Conf SignalledPool PoolThread) : Prop :=
  c.threads.countP PoolThread.inBusyCallback = 0

instance (c : Conf SignalledPool PoolThread) : Decidable (NoCallback c) :=
  inferInstanceAs (Decidable (_ = 0))

structure Asleep (c : Conf SignalledPool PoolThread) : Prop where
  waits : 0 < c.threads.countP PoolThread.waits
  unsignalled : c.shared.threadAvailChanged.signalled = 0

structure Missed (c : Conf SignalledPool PoolThread) : Prop where
  asleep : Asleep c
  dry : c.shared.pool.dry = true
  outside : NoCallback c

structure SleepsInDry (e : WakeStep) : Prop where
  thread : e.thread = .locking
  dry : e.before.shared.pool.dry = true
  outside : NoCallback e.before

structure WrapsAsleep (e : WakeStep) : Prop where
  raises : raisesAvail e.thread = true
  full : e.before.shared.pool.threadAvail = BitVec.allOnes 64
  asleep : Asleep e.before
  outside : NoCallback e.before

variable {host : Host} {s : SignalledPool} {t : PoolThread} {o : WakeAnswers}
  {m : Move SignalledPool PoolThread PoolEvent}

theorem dryPool_step (taken : dryPoolProgram host s t o = some m) :
    poolProgram host s.pool t o.calls = some ⟨m.event, m.shared.pool, m.thread, m.started⟩ ∧
      condAfter s.threadAvailChanged t m.shared.pool o.spurious =
        some m.shared.threadAvailChanged := by
  obtain ⟨m', step, rest⟩ := Option.bind_eq_some_iff.mp taken
  obtain ⟨cond, effect, rfl⟩ := Option.map_eq_some_iff.mp rest
  exact ⟨step, effect⟩

def withoutCond (c : Conf SignalledPool PoolThread) : Conf Pool PoolThread :=
  ⟨c.shared.pool, c.threads⟩

def WakeStep.calls (e : WakeStep) : Taken Pool PoolThread PoolAnswers PoolEvent where
  before := withoutCond e.before
  index := e.index
  answers := e.answers.calls
  thread := e.thread
  move := ⟨e.move.event, e.move.shared.pool, e.move.thread, e.move.started⟩

variable {c : Conf SignalledPool PoolThread}

/-- Without its condition variable, a run is one of the pool. -/
theorem dryPool_run {guard : WakeStep → Prop} {c₀ : Conf SignalledPool PoolThread}
    {tr : List WakeStep} (run : Run (dryPoolProgram host) guard c₀ tr c) :
    Run (poolProgram host) (fun _ => True) (withoutCond c₀) (tr.map WakeStep.calls)
      (withoutCond c) := by
  induction run with
  | start => exact .start
  | next i o _ hs _ ih =>
    obtain ⟨t, m, ht, taken, rfl⟩ := step_iff.mp hs
    rw [List.map_append]
    refine .next i o.calls ih (step_iff.mpr ⟨t, _, ht, (dryPool_step taken).1, rfl⟩) trivial

def PoolThread.watches : PoolThread → Bool
  | .init _ => true
  | .locking => true
  | .waiting => true
  | .growing .watchdog _ => true
  | _ => false

inductive WakeKind (s : SignalledPool) (t : PoolThread)
    (m : Move SignalledPool PoolThread PoolEvent) : Prop where
  | quiet (before : t.waits = false ∧ t.inBusyCallback = false) (behind : m.thread.waits = false)
      (avail : m.shared.pool.threadAvail = s.pool.threadAvail)
      (size : m.shared.pool.poolSize = s.pool.poolSize)
      (cond : m.shared.threadAvailChanged = s.threadAvailChanged)
      (other : t ≠ .locking ∧ raisesAvail t = false)
  | raises (before : t.waits = false ∧ t.inBusyCallback = false)
      (behind : m.thread.waits = false ∧ m.thread.inBusyCallback = false)
      (avail : m.shared.pool.threadAvail = s.pool.threadAvail + 1)
      (size : m.shared.pool.poolSize = s.pool.poolSize ∨
        m.shared.pool.poolSize = s.pool.poolSize + 1)
      (cond : m.shared.threadAvailChanged = s.threadAvailChanged)
      (other : t ≠ .locking) (raises : raisesAvail t = true)
  | busy (before : t.waits = false) (behind : m.thread.waits = false)
      (cond : m.shared.threadAvailChanged =
        if m.shared.pool.dry then s.threadAvailChanged.signal else s.threadAvailChanged)
      (other : t ≠ .locking ∧ raisesAvail t = false)
  | sleeps (thread : t = .locking) (behind : m.thread = .waiting) (same : m.shared.pool = s.pool)
      (cond : m.shared.threadAvailChanged = s.threadAvailChanged.wait)
  | wakes (thread : t = .waiting) (behind : m.thread.waits = false) (spurious : Bool)
      (cond : s.threadAvailChanged.back spurious = some m.shared.threadAvailChanged)

structure WakeThreads (t : PoolThread) (m : Move SignalledPool PoolThread PoolEvent) : Prop where
  waits : m.started.countP PoolThread.waits = 0
  inside : m.started.countP PoolThread.inBusyCallback = 0
  watches : m.thread.watches.toNat + m.started.countP PoolThread.watches ≤ t.watches.toNat

theorem grow_kind {caller : Grower} {place : GrowAt} {o : PoolAnswers}
    (taken : threadPoolGrow host caller s.pool place o =
      some ⟨m.event, m.shared.pool, m.thread, m.started⟩)
    (cond : m.shared.threadAvailChanged = s.threadAvailChanged) :
    WakeKind s (.growing caller place) m ∧ WakeThreads (.growing caller place) m := by
  obtain ⟨event, ⟨pool, cond'⟩, thread, started⟩ := m
  revert taken
  fun_cases threadPoolGrow host caller s.pool place o with
  | case1 => rintro ⟨⟩
  | case7 =>
    rintro ⟨⟩
    exact ⟨.raises ⟨rfl, rfl⟩ ⟨rfl, rfl⟩ rfl (.inr rfl) cond PoolThread.noConfusion rfl, rfl, rfl,
      by cases caller <;> exact Nat.le_refl _⟩
  | case2 | case3 | case4 | case5 | case6 =>
    rintro ⟨⟩
    exact ⟨.quiet ⟨rfl, rfl⟩ (by cases caller <;> rfl) rfl rfl cond ⟨PoolThread.noConfusion, rfl⟩,
      rfl, rfl, by cases caller <;> exact Nat.le_refl _⟩

theorem worker_kind {place : WorkerAt} (taken : workerStep s.pool place o.calls =
      some ⟨m.event, m.shared.pool, m.thread, m.started⟩)
    (cond : condAfter s.threadAvailChanged (.worker place) m.shared.pool o.spurious =
      some m.shared.threadAvailChanged) :
    WakeKind s (.worker place) m ∧ WakeThreads (.worker place) m := by
  obtain ⟨event, ⟨pool, cond'⟩, thread, started⟩ := m
  revert taken
  fun_cases workerStep s.pool place o.calls with
  | case3 | case7 => rintro ⟨⟩
  | case4 connSockFd =>
    rintro ⟨⟩
    exact ⟨.busy rfl rfl (Option.some.inj cond).symm ⟨PoolThread.noConfusion, rfl⟩, rfl, rfl,
      Nat.le_refl _⟩
  | case8 =>
    rintro ⟨⟩
    exact ⟨.raises ⟨rfl, rfl⟩ ⟨rfl, rfl⟩ rfl (.inl rfl) (Option.some.inj cond).symm
      PoolThread.noConfusion rfl, rfl, rfl, Nat.le_refl _⟩
  | case1 | case2 | case5 | case6 =>
    rintro ⟨⟩
    exact ⟨.quiet ⟨rfl, rfl⟩ rfl rfl rfl (Option.some.inj cond).symm ⟨PoolThread.noConfusion, rfl⟩,
      rfl, rfl, Nat.le_refl _⟩

theorem dryPool_kind (taken : dryPoolProgram host s t o = some m) :
    WakeKind s t m ∧ WakeThreads t m := by
  obtain ⟨step, cond⟩ := dryPool_step taken
  cases t with
  | init initialSize =>
    obtain ⟨event, ⟨pool, cond'⟩, thread, started⟩ := m
    simp only [poolProgram] at step
    have kept := (Option.some.inj cond).symm
    split_ifs at step <;> cases step
    · exact ⟨.quiet ⟨rfl, rfl⟩ rfl rfl rfl kept ⟨PoolThread.noConfusion, rfl⟩, rfl, rfl,
        Nat.le_refl 1⟩
    · exact ⟨.quiet ⟨rfl, rfl⟩ rfl rfl rfl kept ⟨PoolThread.noConfusion, rfl⟩, rfl, rfl,
        Nat.zero_le 1⟩
  | returned => cases step
  | locking =>
    obtain ⟨event, ⟨pool, cond'⟩, thread, started⟩ := m
    simp only [poolProgram] at step
    split_ifs at step
    cases step
    exact ⟨.sleeps rfl rfl rfl (Option.some.inj cond).symm, rfl, rfl, Nat.le_refl _⟩
  | waiting =>
    obtain ⟨event, ⟨pool, cond'⟩, thread, started⟩ := m
    simp only [poolProgram] at step
    split_ifs at step <;> cases step <;>
      exact ⟨.wakes rfl rfl o.spurious cond, rfl, rfl, Nat.le_refl _⟩
  | growing caller place => exact grow_kind step (Option.some.inj cond).symm
  | worker place => exact worker_kind step cond

/-! ### One watchdog, and who waits -/

theorem wakeKind_cond (kind : WakeKind s t m) :
    CondEffect SignalledPool.threadAvailChanged PoolThread.waits s t m := by
  cases kind with
  | quiet before behind _ _ cond => exact .keeps (by rw [cond]) (by rw [before.1, behind])
  | raises before behind _ _ cond => exact .keeps (by rw [cond]) (by rw [before.1, behind.1])
  | busy before behind cond =>
    refine .keeps ?_ (by rw [before, behind])
    rw [cond]
    split_ifs
    · exact CondVar.signal_waiters _
    · rfl
  | sleeps thread behind _ cond =>
    subst thread
    exact .enters (by rw [cond, CondVar.wait_waiters]) rfl (by rw [behind]; rfl)
  | wakes thread behind spurious cond =>
    subst thread
    exact .returns (CondVar.back_waiters cond) rfl behind

structure WatchInv (c : Conf SignalledPool PoolThread) : Prop where
  waiters : c.threads.countP PoolThread.waits = c.shared.threadAvailChanged.waiters
  one : c.threads.countP PoolThread.watches ≤ 1

theorem waits_once (inv : WatchInv c) : c.threads.countP PoolThread.waits ≤ 1 := by
  refine Nat.le_trans (List.countP_mono_left fun t _ waits => ?_) inv.one
  cases t with
  | waiting => rfl
  | _ => cases waits

variable {i : Nat}

theorem watchInv_step (inv : WatchInv c) (ht : c.threads[i]? = some t)
    (taken : dryPoolProgram host c.shared t o = some m) : WatchInv (c.after i m) := by
  obtain ⟨kind, threads⟩ := dryPool_kind taken
  refine ⟨(wakeKind_cond kind).count threads.waits ht inv.waiters, ?_⟩
  have count := count_after ht PoolThread.watches m
  have one := inv.one
  have watches := threads.watches
  omega

theorem watchInv_run {guard : WakeStep → Prop} {initialSize : BitVec 64} {tr : List WakeStep}
    (run : Run (dryPoolProgram host) guard (signalledInit initialSize) tr c) : WatchInv c := by
  have initially : WatchInv (signalledInit initialSize) := ⟨rfl, Nat.le_refl 1⟩
  exact run.invariant WatchInv initially fun _ _ _ _ _ inv ht taken _ => watchInv_step inv ht taken

/-! ### How a shortage comes to be missed -/

theorem dry_iff (pool : Pool) :
    pool.dry = true ↔ pool.threadAvail.toNat ≤ pool.poolSize.toNat / 10 := by
  simp [Pool.dry, dryPoolThreshold, BitVec.le_def]

/-- One thread more makes a pool dry only when the counter wraps. -/
theorem dry_raised {before behind : Pool} (avail : behind.threadAvail = before.threadAvail + 1)
    (size : behind.poolSize = before.poolSize ∨ behind.poolSize = before.poolSize + 1)
    (dry : behind.dry = true) :
    before.dry = true ∨ before.threadAvail = BitVec.allOnes 64 := by
  have bound := before.threadAvail.isLt
  have bound' := before.poolSize.isLt
  rw [dry_iff, avail, raised] at dry
  rw [dry_iff, ← BitVec.toNat_inj, BitVec.toNat_allOnes]
  rcases size with same | more
  · rw [same] at dry
    omega
  · rw [more, raised] at dry
    omega

theorem dry_wrapped {before behind : Pool} (avail : behind.threadAvail = before.threadAvail + 1)
    (full : before.threadAvail = BitVec.allOnes 64) : behind.dry = true := by
  rw [dry_iff, avail, full]
  exact Nat.zero_le _

theorem counts_kept (ht : c.threads[i]? = some t) (threads : WakeThreads t m)
    (before : t.waits = false) (behind : m.thread.waits = false)
    (cond : m.shared.threadAvailChanged = c.shared.threadAvailChanged) :
    Asleep (c.after i m) ↔ Asleep c := by
  have count := count_after ht PoolThread.waits m
  rw [before, behind, threads.waits] at count
  have same : (c.after i m).threads.countP PoolThread.waits =
      c.threads.countP PoolThread.waits := by simpa using count
  have cond' : (c.after i m).shared.threadAvailChanged = c.shared.threadAvailChanged := cond
  constructor
  · rintro ⟨waits, unsignalled⟩
    exact ⟨same ▸ waits, cond' ▸ unsignalled⟩
  · rintro ⟨waits, unsignalled⟩
    exact ⟨same.symm ▸ waits, cond'.symm ▸ unsignalled⟩

theorem noCallback_after (ht : c.threads[i]? = some t) (threads : WakeThreads t m)
    (before : t.inBusyCallback = false) :
    NoCallback (c.after i m) ↔ NoCallback c ∧ m.thread.inBusyCallback = false := by
  have count := count_after ht PoolThread.inBusyCallback m
  rw [before, threads.inside] at count
  unfold NoCallback
  cases behind : m.thread.inBusyCallback with
  | false =>
    rw [behind, Bool.toNat_false] at count
    exact ⟨fun none => ⟨by omega, rfl⟩, fun none => by omega⟩
  | true =>
    rw [behind, Bool.toNat_true, Bool.toNat_false] at count
    exact ⟨fun none => absurd none (by omega), fun none => absurd none.2 (by decide)⟩

theorem signalled_awake (inv : WatchInv c) (ht : c.threads[i]? = some t)
    (threads : WakeThreads t m) (before : t.waits = false) (behind : m.thread.waits = false)
    (cond : m.shared.threadAvailChanged = c.shared.threadAvailChanged.signal) :
    ¬ Asleep (c.after i m) := by
  intro asleep
  have count := count_after ht PoolThread.waits m
  rw [before, behind, threads.waits] at count
  have waits := asleep.waits
  have waiters := inv.waiters
  have reached := CondVar.signal_reaches (v := c.shared.threadAvailChanged) (by omega)
  rw [← cond] at reached
  exact absurd asleep.unsignalled (Nat.ne_of_gt reached)

/-- The watchdog is the only one to wait, so no signal is left over for it. -/
theorem entered_asleep (inv : WatchInv c) (inv' : WatchInv (c.after i m))
    (ht : c.threads[i]? = some .locking) (threads : WakeThreads .locking m)
    (behind : m.thread = .waiting)
    (cond : m.shared.threadAvailChanged = c.shared.threadAvailChanged.wait) :
    Asleep (c.after i m) := by
  have count := count_after ht PoolThread.waits m
  rw [behind, threads.waits] at count
  have once := waits_once inv'
  have waiters := inv.waiters
  simp only [PoolThread.waits, Bool.toNat_false, Bool.toNat_true, CondVar.waiters]
    at count waiters
  refine ⟨by omega, ?_⟩
  change m.shared.threadAvailChanged.signalled = 0
  rw [cond]
  change c.shared.threadAvailChanged.signalled = 0
  omega

theorem returned_awake (inv : WatchInv c) (ht : c.threads[i]? = some .waiting)
    (threads : WakeThreads .waiting m) (behind : m.thread.waits = false) :
    ¬ Asleep (c.after i m) := by
  intro asleep
  have count := count_after ht PoolThread.waits m
  rw [behind, threads.waits] at count
  have once := waits_once inv
  have waits := asleep.waits
  simp only [PoolThread.waits, Bool.toNat_false, Bool.toNat_true] at count
  omega

theorem neither_misses {e : WakeStep} (other : e.thread ≠ .locking)
    (keeps : raisesAvail e.thread = false) : ¬ (SleepsInDry e ∨ WrapsAsleep e) := by
  rintro (sleeps | wraps)
  · exact other sleeps.thread
  · rw [wraps.raises] at keeps
    cases keeps

/-- A shortage that was not missed before is missed by these two kinds of steps only. -/
theorem missed_step (inv : WatchInv c) (ht : c.threads[i]? = some t)
    (taken : dryPoolProgram host c.shared t o = some m) (unmissed : ¬ Missed c) :
    Missed (c.after i m) ↔ SleepsInDry ⟨c, i, o, t, m⟩ ∨ WrapsAsleep ⟨c, i, o, t, m⟩ := by
  obtain ⟨kind, threads⟩ := dryPool_kind taken
  cases kind with
  | quiet before behind avail size cond other =>
    have dry : m.shared.pool.dry = c.shared.pool.dry := by rw [Pool.dry, Pool.dry, avail, size]
    refine iff_of_false (fun missed => unmissed ?_) (neither_misses other.1 other.2)
    have asleep := (counts_kept ht threads before.1 behind cond).mp missed.asleep
    exact ⟨asleep, dry ▸ missed.dry, ((noCallback_after ht threads before.2).mp missed.outside).1⟩
  | raises before behind avail size cond other raises =>
    have asleep := counts_kept ht threads before.1 behind.1 cond
    have out := noCallback_after ht threads before.2
    constructor
    · intro missed
      have outside := (out.mp missed.outside).1
      refine .inr ⟨raises, ?_, asleep.mp missed.asleep, outside⟩
      refine (dry_raised avail size missed.dry).resolve_left fun dry => unmissed ?_
      exact ⟨asleep.mp missed.asleep, dry, outside⟩
    · rintro (sleeps | wraps)
      · exact absurd sleeps.thread other
      · exact ⟨asleep.mpr wraps.asleep, dry_wrapped avail wraps.full,
          out.mpr ⟨wraps.outside, behind.2⟩⟩
  | busy before behind cond other =>
    refine iff_of_false (fun missed => ?_) (neither_misses other.1 other.2)
    -- the callback has found the pool dry, so it has sent a signal to the watchdog
    have dry : m.shared.pool.dry = true := missed.dry
    rw [dry, if_pos rfl] at cond
    exact signalled_awake inv ht threads before behind cond missed.asleep
  | sleeps thread behind same cond =>
    subst thread
    have dry : m.shared.pool.dry = c.shared.pool.dry := by rw [same]
    have out := noCallback_after ht threads rfl
    constructor
    · intro missed
      exact .inl ⟨rfl, dry ▸ missed.dry, (out.mp missed.outside).1⟩
    · rintro (sleeps | wraps)
      · refine ⟨?_, dry.symm ▸ sleeps.dry, out.mpr ⟨sleeps.outside, by rw [behind]; rfl⟩⟩
        exact entered_asleep inv (watchInv_step inv ht taken) ht threads behind cond
      · exact absurd (show raisesAvail .locking = true from wraps.raises) (by decide)
  | wakes thread behind spurious cond =>
    subst thread
    refine iff_of_false (fun missed => ?_) (neither_misses PoolThread.noConfusion rfl)
    exact returned_awake inv ht threads behind missed.asleep

/-- The watchdog misses no shortage exactly if, with no busy callback under way, it never goes into
its wait in a dry pool and `threadAvail` never wraps while it is asleep. -/
theorem no_shortage_missed_iff (host : Host) (initialSize : BitVec 64) (tr : List WakeStep)
    (c : Conf SignalledPool PoolThread)
    (run : Run (dryPoolProgram host) (fun _ => True) (signalledInit initialSize) tr c) :
    (∀ e ∈ tr, ¬ Missed e.result) ↔ ∀ e ∈ tr, ¬ (SleepsInDry e ∨ WrapsAsleep e) := by
  refine run.avoids_iff Missed _ (fun missed => ?_) fun e he unmissed => ?_
  · exact absurd missed.asleep.waits (Nat.lt_irrefl 0)
  · obtain ⟨⟨before, reached⟩, _, ht, taken⟩ := run.taken e he
    exact missed_step (watchInv_run reached) ht taken unmissed

def sleepsOrWraps (e : WakeStep) : Bool :=
  decide (e.before.threads.countP PoolThread.inBusyCallback = 0) &&
    (decide (e.thread = .locking) && e.before.shared.pool.dry ||
      raisesAvail e.thread && decide (e.before.shared.pool.threadAvail = BitVec.allOnes 64))

theorem brings_checked {e : WakeStep} (brings : SleepsInDry e ∨ WrapsAsleep e) :
    sleepsOrWraps e = true := by
  rcases brings with ⟨thread, dry, outside⟩ | ⟨raises, full, _, outside⟩
  · simp [sleepsOrWraps, thread, dry, show _ = 0 from outside]
  · simp [sleepsOrWraps, raises, full, show _ = 0 from outside]

def wakeTurns (i n : Nat) : List (Nat × WakeAnswers) := List.replicate n (i, {})

def shortageSeen : List (Nat × WakeAnswers) :=
  wakeTurns 0 5 ++ wakeTurns 1 1 ++ wakeTurns 2 3 ++ wakeTurns 1 5

theorem shortage_seen :
    ∃ tr c, Run (dryPoolProgram smallHost) (fun _ => True) (signalledInit 1) tr c ∧
      (∀ e ∈ tr, ¬ Missed e.result) ∧ c.shared.pool.poolSize = 2 ∧
      numbers (withoutCond c) .busy = 1 := by
  have run := run_of_any_schedule (dryPoolProgram smallHost) shortageSeen (signalledInit 1)
  refine ⟨_, _, run, (no_shortage_missed_iff smallHost 1 _ _ run).mpr fun e he brings => ?_,
    by decide, by decide⟩
  have checked : (steps (dryPoolProgram smallHost) (signalledInit 1) shortageSeen).all
      (fun e => !sleepsOrWraps e) = true := by
    decide
  have here := List.all_eq_true.mp checked e he
  simp [brings_checked brings] at here

def shortageMissed : List (Nat × WakeAnswers) := wakeTurns 0 5 ++ wakeTurns 2 3 ++ wakeTurns 1 1

/-- The signal of the busy callback finds nobody who waits for it. The watchdog then waits with
all workers of the pool at work. -/
theorem shortage_missed :
    ∃ tr c, Run (dryPoolProgram smallHost) (fun _ => True) (signalledInit 1) tr c ∧ Missed c ∧
      c.shared.pool.poolSize = 1 ∧ c.shared.pool.locked = false ∧
      numbers (withoutCond c) .busy = 1 := by
  have run := run_of_any_schedule (dryPoolProgram smallHost) shortageMissed (signalledInit 1)
  exact ⟨_, _, run, ⟨⟨by decide, by decide⟩, by decide, by decide⟩, by decide, by decide,
    by decide⟩

end Crinit
