import Mathlib.Tactic.Ring
import Crinit.Lib.Interleave

/-! The worker pool of the notification server (`thrpool.c`), its workers and its watchdog.
`crinitThreadPoolGrow` takes one step for each `pthread_create` and one for the counters behind it.
A wait may end at any time. -/
namespace Crinit

open Interleave

structure Pool where
  poolSize : BitVec 64
  poolSizeIncrement : BitVec 64
  threadAvail : BitVec 64
  locked : Bool
  /-- The workers the host has started, which is not a field of the source. -/
  threads : Nat
  deriving DecidableEq

structure Host where
  maxThreads : Nat
  small : maxThreads < 2 ^ 64

def threadpoolDefaultInitialSize : BitVec 64 := 8

def dryPoolThreshold (poolSize : BitVec 64) : BitVec 64 := poolSize / 10

def threadBusyCallback (pool : Pool) : Pool := { pool with threadAvail := pool.threadAvail - 1 }

def threadAvailCallback (pool : Pool) : Pool := { pool with threadAvail := pool.threadAvail + 1 }

inductive ConnStage where
  | accepted (connSockFd : Int)
  | setCredentials
  | sendReady
  | receive
  | parse
  | checkPerm
  | buildDenial
  | execute
  | toMsgStr
  | sendReply
  deriving DecidableEq

inductive WorkerAt where
  | top
  | accepting
  | returned (connSockFd : Int)
  | processing (stage : ConnStage)
  | closing
  deriving DecidableEq

inductive GrowAt where
  | lock (newSize : BitVec 64)
  | creating (newSize i : BitVec 64)
  | created (newSize i : BitVec 64)
  deriving DecidableEq

inductive Grower where
  | init
  | watchdog
  deriving DecidableEq

inductive PoolThread where
  | init (initialSize : BitVec 64)
  | returned (result : Int)
  | locking
  | waiting
  | growing (caller : Grower) (place : GrowAt)
  | worker (place : WorkerAt)
  deriving DecidableEq

structure PoolAnswers where
  connSockFd : Int := 3
  permitted : Bool := true
  ok : Bool := true

inductive PoolEvent where
  | busy
  | available
  | dropped
  | decided
  | grows
  | created
  | counted
  | other
  deriving DecidableEq

/-- `none` is one of the branches that `continue` without a word to the pool. -/
def ConnStage.next (stage : ConnStage) (o : PoolAnswers) : Option WorkerAt :=
  match stage with
  | .accepted connSockFd => if connSockFd = -1 then none else some (.processing .setCredentials)
  | .setCredentials => if o.ok then some (.processing .sendReady) else none
  | .sendReady => if o.ok then some (.processing .receive) else none
  | .receive => if o.ok then some (.processing .parse) else none
  | .parse => if o.ok then some (.processing .checkPerm) else none
  | .checkPerm => some (.processing (if o.permitted then .execute else .buildDenial))
  | .buildDenial => if o.ok then some (.processing .toMsgStr) else none
  | .execute => if o.ok then some (.processing .toMsgStr) else none
  | .toMsgStr => if o.ok then some (.processing .sendReply) else none
  | .sendReply => if o.ok then some .closing else none

def workerStep (pool : Pool) (place : WorkerAt) (o : PoolAnswers) :
    Option (Move Pool PoolThread PoolEvent) :=
  match place with
  | .top => some ⟨.other, pool, .worker .accepting, []⟩
  | .accepting => some ⟨.other, pool, .worker (.returned o.connSockFd), []⟩
  | .returned connSockFd =>
    if pool.locked then none
    else some ⟨.busy, threadBusyCallback pool, .worker (.processing (.accepted connSockFd)), []⟩
  | .processing stage =>
    match stage.next o with
    | some place' => some ⟨.other, pool, .worker place', []⟩
    | none => some ⟨.dropped, pool, .worker .top, []⟩
  | .closing =>
    if pool.locked then none
    else some ⟨.available, threadAvailCallback pool, .worker .top, []⟩

def Grower.back (caller : Grower) (result : Int) : PoolThread :=
  match caller with
  | .init => .returned result
  | .watchdog => .locking

def threadPoolGrow (host : Host) (caller : Grower) (pool : Pool) (place : GrowAt)
    (o : PoolAnswers) : Option (Move Pool PoolThread PoolEvent) :=
  match place with
  | .lock newSize =>
    if pool.locked then none
    else if newSize ≤ pool.poolSize ∨ o.ok = false then
      some ⟨.other, pool, caller.back (-1), []⟩
    else some ⟨.grows, { pool with locked := true },
      .growing caller (.creating newSize pool.poolSize), []⟩
  | .creating newSize i =>
    if i < newSize then
      if o.ok ∧ pool.threads < host.maxThreads then
        some ⟨.created, { pool with threads := pool.threads + 1 },
          .growing caller (.created newSize i), [.worker .top]⟩
      else some ⟨.other, { pool with locked := false }, caller.back (-1), []⟩
    else some ⟨.other, { pool with locked := false }, caller.back 0, []⟩
  | .created newSize i =>
    some ⟨.counted,
      { pool with poolSize := pool.poolSize + 1, threadAvail := pool.threadAvail + 1 },
      .growing caller (.creating newSize (i + 1)), []⟩

def poolProgram (host : Host) : Program Pool PoolThread PoolAnswers PoolEvent
  | pool, .init initialSize, o =>
    if pool.locked then none
    else if o.ok then some ⟨.other, pool, .growing .init (.lock initialSize), [.locking]⟩
    else some ⟨.other, pool, .returned (-1), []⟩
  | _, .returned _, _ => none
  | pool, .locking, _ => if pool.locked then none else some ⟨.other, pool, .waiting, []⟩
  | pool, .waiting, _ =>
    if pool.locked then none
    else if pool.threadAvail ≤ dryPoolThreshold pool.poolSize then
      some ⟨.decided, pool, .growing .watchdog (.lock (pool.poolSize + pool.poolSizeIncrement)), []⟩
    else some ⟨.other, pool, .locking, []⟩
  | pool, .growing caller place, o => threadPoolGrow host caller pool place o
  | pool, .worker place, o => workerStep pool place o

def threadPoolInit (initialSize : BitVec 64) : Conf Pool PoolThread :=
  let size := if initialSize = 0 then threadpoolDefaultInitialSize else initialSize
  ⟨⟨0, size, 0, false, 0⟩, [.init size]⟩

/-- A watchdog that has found the pool dry and has yet to take the lock in `crinitThreadPoolGrow` is
a role of its own. -/
inductive Role where
  | apart
  | decided
  | available
  | busy
  | creating
  | uncounted
  deriving DecidableEq

def PoolThread.role : PoolThread → Role
  | .worker (.processing _) => .busy
  | .worker .closing => .busy
  | .worker _ => .available
  | .growing .watchdog (.lock _) => .decided
  | .growing _ (.creating _ _) => .creating
  | .growing _ (.created _ _) => .uncounted
  | _ => .apart

def number (r : Role) (threads : List PoolThread) : Nat := threads.countP fun t => t.role = r

def numbers (c : Conf Pool PoolThread) (r : Role) : Nat := number r c.threads

def errorPath : PoolThread → PoolAnswers → Bool
  | .worker (.processing stage), o => (stage.next o).isNone
  | _, _ => false

def raisesAvail : PoolThread → Bool
  | .worker .closing => true
  | .growing _ (.created _ _) => true
  | _ => false

inductive PoolStep (host : Host) (pool : Pool) (t : PoolThread) (o : PoolAnswers) :
    Move Pool PoolThread PoolEvent → Prop where
  | stays {t' : PoolThread} {started : List PoolThread} (role : t'.role = t.role)
      (apart : ∀ r, r ≠ .apart → number r started = 0) (path : errorPath t o = false) :
      PoolStep host pool t o ⟨.other, pool, t', started⟩
  | busy {t' : PoolThread} (free : pool.locked = false) (before : t.role = .available)
      (behind : t'.role = .busy) (path : errorPath t o = false) :
      PoolStep host pool t o ⟨.busy, threadBusyCallback pool, t', []⟩
  | available {t' : PoolThread} (free : pool.locked = false) (before : t.role = .busy)
      (behind : t'.role = .available) (raises : raisesAvail t = true)
      (path : errorPath t o = false) :
      PoolStep host pool t o ⟨.available, threadAvailCallback pool, t', []⟩
  | dropped {t' : PoolThread} (before : t.role = .busy) (behind : t'.role = .available)
      (path : errorPath t o = true) : PoolStep host pool t o ⟨.dropped, pool, t', []⟩
  | decided {t' : PoolThread} (free : pool.locked = false)
      (dry : pool.threadAvail ≤ dryPoolThreshold pool.poolSize) (before : t.role = .apart)
      (behind : t'.role = .decided) (path : errorPath t o = false) :
      PoolStep host pool t o ⟨.decided, pool, t', []⟩
  | refused {t' : PoolThread} (before : t.role = .apart ∨ t.role = .decided)
      (behind : t'.role = .apart) (path : errorPath t o = false) :
      PoolStep host pool t o ⟨.other, pool, t', []⟩
  | grows {t' : PoolThread} (free : pool.locked = false)
      (before : t.role = .apart ∨ t.role = .decided) (behind : t'.role = .creating)
      (path : errorPath t o = false) :
      PoolStep host pool t o ⟨.grows, { pool with locked := true }, t', []⟩
  | created {t' : PoolThread} (room : pool.threads < host.maxThreads) (before : t.role = .creating)
      (behind : t'.role = .uncounted) (path : errorPath t o = false) :
      PoolStep host pool t o
        ⟨.created, { pool with threads := pool.threads + 1 }, t', [.worker .top]⟩
  | counted {t' : PoolThread} (before : t.role = .uncounted) (behind : t'.role = .creating)
      (raises : raisesAvail t = true) (path : errorPath t o = false) :
      PoolStep host pool t o ⟨.counted,
        { pool with poolSize := pool.poolSize + 1, threadAvail := pool.threadAvail + 1 }, t', []⟩
  | leaves {t' : PoolThread} (before : t.role = .creating) (behind : t'.role = .apart)
      (path : errorPath t o = false) :
      PoolStep host pool t o ⟨.other, { pool with locked := false }, t', []⟩

theorem number_nil (r : Role) : number r [] = 0 := rfl

theorem number_worker (r : Role) :
    number r [.worker .top] = (decide (Role.available = r)).toNat := by
  cases r <;> rfl

theorem number_locking (r : Role) (other : r ≠ .apart) : number r [.locking] = 0 := by
  cases r with
  | apart => exact absurd rfl other
  | _ => rfl

theorem back_role (caller : Grower) (result : Int) : (caller.back result).role = .apart := by
  cases caller <;> rfl

theorem lock_role (caller : Grower) (newSize : BitVec 64) :
    (PoolThread.growing caller (.lock newSize)).role = .apart ∨
      (PoolThread.growing caller (.lock newSize)).role = .decided := by
  cases caller with
  | init => exact .inl rfl
  | watchdog => exact .inr rfl

theorem next_busy (stage : ConnStage) (o : PoolAnswers) (place : WorkerAt)
    (next : stage.next o = some place) : (PoolThread.worker place).role = .busy := by
  revert next
  fun_cases ConnStage.next stage o <;> rintro ⟨⟩ <;> rfl

theorem workerStep_kind (host : Host) (pool : Pool) (place : WorkerAt) (o : PoolAnswers)
    (m : Move Pool PoolThread PoolEvent) (taken : workerStep pool place o = some m) :
    PoolStep host pool (.worker place) o m := by
  revert taken
  fun_cases workerStep pool place o with
  | case1 | case2 => rintro ⟨⟩; exact .stays rfl (fun r _ => number_nil r) rfl
  | case3 | case7 => rintro ⟨⟩
  | case4 connSockFd free => rintro ⟨⟩; exact .busy (by simpa using free) rfl rfl rfl
  | case5 stage place' next =>
    rintro ⟨⟩
    exact .stays (next_busy stage o place' next) (fun r _ => number_nil r)
      (by simp [errorPath, next])
  | case6 stage next => rintro ⟨⟩; exact .dropped rfl rfl (by simp [errorPath, next])
  | case8 free => rintro ⟨⟩; exact .available (by simpa using free) rfl rfl rfl rfl

theorem threadPoolGrow_kind (host : Host) (caller : Grower) (pool : Pool) (place : GrowAt)
    (o : PoolAnswers) (m : Move Pool PoolThread PoolEvent)
    (taken : threadPoolGrow host caller pool place o = some m) :
    PoolStep host pool (.growing caller place) o m := by
  revert taken
  fun_cases threadPoolGrow host caller pool place o with
  | case1 => rintro ⟨⟩
  | case2 newSize => rintro ⟨⟩; exact .refused (lock_role caller newSize) (back_role caller _) rfl
  | case3 newSize free =>
    rintro ⟨⟩
    exact .grows (by simpa using free) (lock_role caller newSize) (by cases caller <;> rfl) rfl
  | case4 newSize i below room =>
    rintro ⟨⟩
    exact .created room.2 (by cases caller <;> rfl) (by cases caller <;> rfl) rfl
  | case5 | case6 => rintro ⟨⟩; exact .leaves (by cases caller <;> rfl) (back_role caller _) rfl
  | case7 =>
    rintro ⟨⟩
    exact .counted (by cases caller <;> rfl) (by cases caller <;> rfl) rfl rfl

theorem poolProgram_kind (host : Host) (pool : Pool) (t : PoolThread) (o : PoolAnswers)
    (m : Move Pool PoolThread PoolEvent) (taken : poolProgram host pool t o = some m) :
    PoolStep host pool t o m := by
  cases t with
  | init initialSize =>
    simp only [poolProgram] at taken
    split_ifs at taken <;> cases taken
    · exact .stays rfl number_locking rfl
    · exact .stays rfl (fun r _ => number_nil r) rfl
  | returned => cases taken
  | locking =>
    simp only [poolProgram] at taken
    split_ifs at taken
    cases taken
    exact .stays rfl (fun r _ => number_nil r) rfl
  | waiting =>
    simp only [poolProgram] at taken
    split_ifs at taken with locked dry <;> cases taken
    · exact .decided (by simpa using locked) dry rfl rfl rfl
    · exact .stays rfl (fun r _ => number_nil r) rfl
  | growing caller place => exact threadPoolGrow_kind host caller pool place o m taken
  | worker place => exact workerStep_kind host pool place o m taken

structure Counted (host : Host) (errors : Nat) (pool : Pool) (n : Role → Nat) : Prop where
  workers : n .available + n .busy = pool.threads
  room : pool.threads ≤ host.maxThreads
  size : pool.poolSize.toNat + n .uncounted = pool.threads
  avail : (pool.threadAvail.toNat + n .uncounted + errors) % 2 ^ 64 = n .available % 2 ^ 64
  exact : errors = 0 → pool.threadAvail.toNat + n .uncounted = n .available
  lock : n .creating + n .uncounted = pool.locked.toNat

def Flow (t : PoolThread) (m : Move Pool PoolThread PoolEvent) (n n' : Role → Nat) : Prop :=
  ∀ r, n' r + (decide (t.role = r)).toNat =
    n r + (decide (m.thread.role = r)).toNat + number r m.started

variable {c : Conf Pool PoolThread} {t : PoolThread}

theorem numbers_after {i : Nat} (ht : c.threads[i]? = some t) (m : Move Pool PoolThread PoolEvent) :
    Flow t m (numbers c) (numbers (c.after i m)) :=
  fun r => count_after ht (fun t => decide (t.role = r)) m

theorem lowered (n : BitVec 64) : (n - 1).toNat = (2 ^ 64 - 1 + n.toNat) % 2 ^ 64 :=
  BitVec.toNat_sub n 1

theorem raised (n : BitVec 64) : (n + 1).toNat = (n.toNat + 1) % 2 ^ 64 := BitVec.toNat_add n 1

variable {host : Host} {pool : Pool} {n n' : Role → Nat} {m : Move Pool PoolThread PoolEvent}

theorem counted_unmoved {errors : Nat} (counted : Counted host errors pool n)
    (flow : Flow t m n n')
    (same : ∀ r, r ≠ .apart → r ≠ .decided → (t.role = r ↔ m.thread.role = r))
    (none : ∀ r, r ≠ .apart → number r m.started = 0) : Counted host errors pool n' := by
  have kept (r : Role) (counts : r ≠ .apart) (counts' : r ≠ .decided) : n' r = n r := by
    have numbers := flow r
    simp only [same r counts counts', none r counts] at numbers
    omega
  obtain ⟨workers, room, size, avail, exact, lock⟩ := counted
  rw [← kept .available (by decide) (by decide), ← kept .busy (by decide) (by decide)] at workers
  rw [← kept .uncounted (by decide) (by decide)] at size avail exact lock
  rw [← kept .available (by decide) (by decide)] at avail exact
  rw [← kept .creating (by decide) (by decide)] at lock
  exact ⟨workers, room, size, avail, exact, lock⟩

variable {o : PoolAnswers}

theorem counted_step {errors : Nat} (counted : Counted host errors pool n)
    (kind : PoolStep host pool t o m) (flow : Flow t m n n') :
    Counted host (errors + (errorPath t o).toNat) m.shared n' := by
  have ⟨workers, room, size, avail, exact, lock⟩ := counted
  have small := host.small
  have once := Bool.toNat_le pool.locked
  have available := flow .available
  have busy := flow .busy
  have creating := flow .creating
  have uncounted := flow .uncounted
  -- The roles of the thread before and behind the step settle the four numbers.
  cases kind with
  | stays role apart path =>
    rw [path]
    exact counted_unmoved counted flow (fun r _ _ => by rw [role]) apart
  | decided _ _ before behind path =>
    rw [path]
    refine counted_unmoved counted flow (fun r other other' => ?_) fun r _ => number_nil r
    simp [before, behind, other.symm, other'.symm]
  | refused before behind path =>
    rw [path]
    refine counted_unmoved counted flow (fun r other other' => ?_) fun r _ => number_nil r
    rcases before with before | before <;> simp [before, behind, other.symm, other'.symm]
  | busy free before behind path =>
    simp [before, behind, number_nil, free] at available busy creating uncounted lock
    constructor <;> simp only [threadBusyCallback, path, free, lowered, Bool.toNat_false] <;> omega
  | available free before behind _ path =>
    simp [before, behind, number_nil, free] at available busy creating uncounted lock
    constructor <;> simp only [threadAvailCallback, path, free, raised, Bool.toNat_false] <;> omega
  | dropped before behind path =>
    simp [before, behind, number_nil] at available busy creating uncounted
    constructor <;> simp only [path, Bool.toNat_true] <;> omega
  | grows free before behind path =>
    have left : t.role ≠ .available ∧ t.role ≠ .busy ∧ t.role ≠ .creating ∧
      t.role ≠ .uncounted := by
      rcases before with before | before <;> simp [before]
    simp [left, behind, number_nil, free] at available busy creating uncounted lock
    constructor <;> simp only [path, Bool.toNat_false, Bool.toNat_true] <;> omega
  | created room before behind path =>
    simp [before, behind, number_worker] at available busy creating uncounted
    constructor <;> simp only [path, Bool.toNat_false] <;> omega
  | counted before behind _ path =>
    simp [before, behind, number_nil] at available busy creating uncounted
    constructor <;> simp only [path, raised, Bool.toNat_false] <;> omega
  | leaves before behind path =>
    simp [before, behind, number_nil] at available busy creating uncounted
    constructor <;> simp only [path, Bool.toNat_false] <;> omega

def errors (tr : List (Taken Pool PoolThread PoolAnswers PoolEvent)) : Nat :=
  tr.countP fun e => errorPath e.thread e.answers

theorem errors_snoc (tr : List (Taken Pool PoolThread PoolAnswers PoolEvent))
    (e : Taken Pool PoolThread PoolAnswers PoolEvent) :
    errors (tr ++ [e]) = errors tr + (errorPath e.thread e.answers).toNat := by
  cases path : errorPath e.thread e.answers <;> simp [errors, path]

variable {tr : List (Taken Pool PoolThread PoolAnswers PoolEvent)}

theorem counted_run (host : Host) (initialSize : BitVec 64)
    {guard : Taken Pool PoolThread PoolAnswers PoolEvent → Prop}
    (run : Run (poolProgram host) guard (threadPoolInit initialSize) tr c) :
    Counted host (errors tr) c.shared (numbers c) := by
  refine run.history (fun tr c => Counted host (errors tr) c.shared (numbers c)) ?_ ?_
  · exact ⟨rfl, Nat.zero_le _, rfl, rfl, fun _ => rfl, rfl⟩
  · intro tr c i t m o counted ht taken _
    have kind := poolProgram_kind host c.shared t o m taken
    rw [errors_snoc]
    exact counted_step counted kind (numbers_after ht m)

/-! ### Workers that wait and workers that serve -/

def blocked (c : Conf Pool PoolThread) : Nat := c.threads.countP fun t => t = .worker .accepting

def PoolThread.settled : PoolThread → Bool
  | .worker .top => false
  | .worker (.returned _) => false
  | _ => true

def Settled (c : Conf Pool PoolThread) : Prop := ∀ t ∈ c.threads, t.settled = true

def MostlyBusy (c : Conf Pool PoolThread) : Prop :=
  9 * c.shared.poolSize.toNat ≤ 10 * numbers c .busy

theorem available_blocked (c : Conf Pool PoolThread) (settled : Settled c) :
    numbers c .available = blocked c := by
  refine List.countP_congr fun t ht => ?_
  cases t with
  | worker place =>
    have here := settled _ ht
    cases place with
    | top | returned => cases here
    | accepting | processing | closing => simp [PoolThread.role]
  | growing caller place => cases caller <;> cases place <;> simp [PoolThread.role]
  | init | returned | locking | waiting => simp [PoolThread.role]

/-- The counter is behind by the connections left on an error path. -/
theorem avail_iff {lost : Nat} (counted : Counted host lost c.shared (numbers c))
    (free : c.shared.locked = false) (settled : Settled c) :
    c.shared.threadAvail.toNat = blocked c ↔ lost % 2 ^ 64 = 0 := by
  obtain ⟨workers, room, size, avail, exact, lock⟩ := counted
  rw [← available_blocked c settled]
  have small := host.small
  have bound := c.shared.threadAvail.isLt
  simp only [free, Bool.toNat_false] at lock
  omega

theorem size_counted {lost : Nat} (counted : Counted host lost c.shared (numbers c))
    (free : c.shared.locked = false) :
    c.shared.poolSize.toNat = numbers c .available + numbers c .busy := by
  obtain ⟨workers, room, size, avail, exact, lock⟩ := counted
  simp only [free, Bool.toNat_false] at lock
  omega

theorem avail_bounded (counted : Counted host 0 c.shared (numbers c)) :
    c.shared.threadAvail ≤ c.shared.poolSize := by
  have waiting := counted.exact rfl
  have size := counted.size
  have workers := counted.workers
  rw [BitVec.le_def]
  omega

theorem dry_busy (counted : Counted host 0 c.shared (numbers c)) (free : c.shared.locked = false)
    (dry : c.shared.threadAvail ≤ dryPoolThreshold c.shared.poolSize) : MostlyBusy c := by
  have waiting := counted.exact rfl
  have size := size_counted counted free
  have lock := counted.lock
  have few : c.shared.threadAvail.toNat ≤ c.shared.poolSize.toNat / 10 := by
    simpa [dryPoolThreshold, BitVec.le_def] using dry
  simp only [free, Bool.toNat_false] at lock
  unfold MostlyBusy
  omega

def Undisturbed (e : Taken Pool PoolThread PoolAnswers PoolEvent) : Prop :=
  raisesAvail e.thread = true → numbers e.before .decided = 0

def keepsPath (e : Taken Pool PoolThread PoolAnswers PoolEvent) : Bool :=
  !errorPath e.thread e.answers

theorem errors_none {c₀ : Conf Pool PoolThread}
    (run : Run (poolProgram host) (fun e => keepsPath e = true) c₀ tr c) : errors tr = 0 := by
  refine List.countP_eq_zero.mpr fun e he => ?_
  have kept := (run.taken e he).2.1
  simp_all [keepsPath]

theorem decided_dry (kind : PoolStep host pool t o m) (decided : m.event = .decided) :
    m.shared = pool ∧ pool.locked = false ∧ pool.threadAvail ≤ dryPoolThreshold pool.poolSize := by
  cases kind with
  | decided free dry => exact ⟨rfl, free, dry⟩
  | _ => cases decided

theorem undecided_kept (kind : PoolStep host pool t o m) (flow : Flow t m n n')
    (other : m.event ≠ .decided) : n' .decided ≤ n .decided := by
  have decided := flow .decided
  cases kind with
  | stays role apart _ =>
    simp only [role, apart _ (show Role.decided ≠ .apart by decide)] at decided
    omega
  | decided => exact absurd rfl other
  | created _ _ behind _ =>
    simp only [behind, number_worker] at decided
    exact Nat.le_of_add_right_le (Nat.le_of_eq decided)
  | busy _ _ behind | available _ _ behind | dropped _ behind | refused _ behind
  | grows _ _ behind | counted _ behind | leaves _ behind =>
    simp only [behind, number_nil] at decided
    exact Nat.le_of_add_right_le (Nat.le_of_eq decided)

/-- Only a thread that adds to `threadAvail`, or an error path, takes a worker from
those that serve. -/
theorem serving_kept (kind : PoolStep host pool t o m) (flow : Flow t m n n')
    (quiet : raisesAvail t = false) (path : errorPath t o = false) :
    m.shared.poolSize = pool.poolSize ∧ n .busy ≤ n' .busy := by
  have busy := flow .busy
  cases kind with
  | stays role apart _ =>
    simp only [role, apart _ (show Role.busy ≠ .apart by decide)] at busy
    exact ⟨rfl, by omega⟩
  | available _ _ _ raises _ | counted _ _ raises _ => simp [quiet] at raises
  | dropped _ _ left => simp [path] at left
  | busy _ before | decided _ _ before | created _ before | leaves before =>
    simp [before] at busy
    exact ⟨rfl, by omega⟩
  | refused before | grows _ before =>
    have left : t.role ≠ .busy := by rcases before with before | before <;> simp [before]
    simp [left] at busy
    exact ⟨rfl, by omega⟩

theorem busy_until_growth (host : Host) (initialSize : BitVec 64)
    (run : Run (poolProgram host) (fun e => keepsPath e = true ∧ Undisturbed e)
      (threadPoolInit initialSize) tr c) :
    Counted host 0 c.shared (numbers c) ∧ (0 < numbers c .decided → MostlyBusy c) := by
  refine run.invariant (fun c => Counted host 0 c.shared (numbers c) ∧
    (0 < numbers c .decided → MostlyBusy c)) ?_ ?_
  · exact ⟨⟨rfl, Nat.zero_le _, rfl, rfl, fun _ => rfl, rfl⟩, fun decided => by cases decided⟩
  · rintro c i t m o ⟨counted, busy⟩ ht taken ⟨kept, undisturbed⟩
    have path : errorPath t o = false := by simpa [keepsPath] using kept
    have kind := poolProgram_kind host c.shared t o m taken
    have flow := numbers_after ht m
    have counted' : Counted host 0 (c.after i m).shared (numbers (c.after i m)) := by
      have step := counted_step counted kind flow
      rwa [path] at step
    refine ⟨counted', fun decided => ?_⟩
    by_cases event : m.event = .decided
    · obtain ⟨same, free, dry⟩ := decided_dry kind event
      have shared : (c.after i m).shared = c.shared := same
      exact dry_busy counted' (shared ▸ free) (shared ▸ dry)
    · have before := Nat.lt_of_lt_of_le decided (undecided_kept kind flow event)
      have quiet : raisesAvail t = false := by
        by_contra raises
        have none := undisturbed (by simpa using raises)
        exact Nat.ne_of_gt before none
      obtain ⟨size, serving⟩ := serving_kept kind flow quiet path
      have most := busy before
      have size' : (c.after i m).shared.poolSize = c.shared.poolSize := size
      unfold MostlyBusy at most ⊢
      rw [size']
      omega

/-- As long as no connection ends on an error path, the counters are right whenever the lock of the
pool is free, and the watchdog grows the pool only when 90 percent of the workers serve. -/
theorem pool_accounted (host : Host) (initialSize : BitVec 64)
    (tr : List (Taken Pool PoolThread PoolAnswers PoolEvent)) (c : Conf Pool PoolThread)
    (run : Run (poolProgram host) (fun e => keepsPath e = true) (threadPoolInit initialSize) tr c) :
    (c.shared.locked = false →
      (Settled c → c.shared.threadAvail.toNat = blocked c) ∧
      c.shared.poolSize.toNat = numbers c .available + numbers c .busy) ∧
    c.shared.threadAvail ≤ c.shared.poolSize ∧
    (∀ e ∈ tr, e.move.event = .decided → MostlyBusy e.before) ∧
    ((∀ e ∈ tr, Undisturbed e) → ∀ e ∈ tr, e.thread.role = .decided → e.move.event = .grows →
      MostlyBusy e.before) := by
  have counted := counted_run host initialSize run
  rw [errors_none run] at counted
  refine ⟨fun free => ⟨fun settled => ?_, size_counted counted free⟩, avail_bounded counted, ?_, ?_⟩
  · exact (avail_iff counted free settled).mpr rfl
  · intro e he decided
    obtain ⟨⟨before, reached⟩, _, _, taken⟩ := run.taken e he
    have counted' := counted_run host initialSize reached
    rw [errors_none reached] at counted'
    obtain ⟨_, free, dry⟩ := decided_dry (poolProgram_kind host _ _ _ _ taken) decided
    exact dry_busy counted' free dry
  · intro undisturbed e he decided _
    obtain ⟨⟨before, reached⟩, _, ht, _⟩ := (run.strengthen undisturbed).taken e he
    have some : 0 < numbers e.before .decided :=
      List.countP_pos_iff.mpr ⟨e.thread, List.mem_of_getElem? ht, by simpa using decided⟩
    exact (busy_until_growth host initialSize reached).2 some

def smallHost : Host := ⟨16, by decide⟩

def poolTurns (i n : Nat) : List (Nat × PoolAnswers) := List.replicate n (i, {})

def servedAndGrown : List (Nat × PoolAnswers) :=
  poolTurns 0 5 ++ poolTurns 2 3 ++ poolTurns 1 6 ++ poolTurns 2 11 ++ poolTurns 3 1

theorem grown_pool_accounted :
    ∃ tr c, Run (poolProgram smallHost) (fun e => keepsPath e = true) (threadPoolInit 1) tr c ∧
      c.shared.threadAvail.toNat = blocked c ∧ blocked c = 2 ∧
      ∃ e ∈ tr, e.move.event = .grows ∧ MostlyBusy e.before ∧ numbers e.before .busy = 1 := by
  have run := run_of_schedule (poolProgram smallHost) keepsPath servedAndGrown (threadPoolInit 1)
    (by decide)
  obtain ⟨counted, _, _, growth⟩ := pool_accounted smallHost 1 _ _ run
  refine ⟨_, _, run, (counted (by decide)).1 ?_, by decide, ?_⟩
  · exact List.all_eq_true.mp (by decide)
  · have quiet : (steps (poolProgram smallHost) (threadPoolInit 1) servedAndGrown).all
        (fun e => !raisesAvail e.thread || numbers e.before .decided = 0) = true := by
      decide
    have undisturbed : ∀ e ∈ steps (poolProgram smallHost) (threadPoolInit 1) servedAndGrown,
        Undisturbed e := by
      intro e he raises
      simpa [raises] using List.all_eq_true.mp quiet e he
    have found : (steps (poolProgram smallHost) (threadPoolInit 1) servedAndGrown).any
        (fun e => e.thread.role = .decided && e.move.event = .grows &&
          numbers e.before .busy = 1) = true := by
      decide
    obtain ⟨e, he, here⟩ := List.any_eq_true.mp found
    simp only [Bool.and_eq_true, decide_eq_true_eq] at here
    exact ⟨e, he, here.1.2, growth undisturbed e he here.1.1 here.1.2, here.2⟩

def failedAccept : List (Nat × PoolAnswers) :=
  poolTurns 2 1 ++ [(2, { connSockFd := -1 })] ++ poolTurns 2 2

/-- A worker of the pool of the server fails in `accept` nine times. The watchdog
takes its turn before the last time. -/
def nineFailedAccepts : List (Nat × PoolAnswers) :=
  poolTurns 0 19 ++ (List.replicate 8 failedAccept).flatten ++ poolTurns 1 2 ++ failedAccept ++
    (List.range 8).flatMap fun i => poolTurns (i + 2) 1

/-- All eight workers wait in `accept` and the counter has passed below zero. The
watchdog has found the pool dry with no worker at work. -/
theorem failed_accepts_lost :
    ∃ tr c, Run (poolProgram smallHost) (fun _ => True) (threadPoolInit 0) tr c ∧
      c.shared.locked = false ∧ Settled c ∧ blocked c = 8 ∧ c.shared.poolSize = 8 ∧
      c.shared.threadAvail.toNat = 2 ^ 64 - 1 ∧
      ∃ e ∈ tr, e.move.event = .decided ∧ numbers e.before .busy = 0 ∧ ¬ MostlyBusy e.before := by
  have run := run_of_any_schedule (poolProgram smallHost) nineFailedAccepts (threadPoolInit 0)
  have found : (steps (poolProgram smallHost) (threadPoolInit 0) nineFailedAccepts).any
      (fun e => e.move.event = .decided && numbers e.before .busy = 0 &&
        e.before.shared.poolSize = 8) = true := by
    decide
  obtain ⟨e, he, here⟩ := List.any_eq_true.mp found
  simp only [Bool.and_eq_true, decide_eq_true_eq] at here
  obtain ⟨⟨decided, idle⟩, size⟩ := here
  refine ⟨_, _, run, by decide, List.all_eq_true.mp (by decide), by decide, by decide, by decide,
    e, he, decided, idle, ?_⟩
  simp [MostlyBusy, idle, size]

end Crinit
