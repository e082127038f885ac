import Crinit.Task
import Mathlib.Algebra.Group.Int.Defs
import Mathlib.Algebra.Group.Nat.Defs

/-! The grace period of the shutdown thread. `clock_nanosleep` hands its error number back and
leaves `errno` alone, which the loop around it does not expect. -/
namespace Crinit

def timeT (x : Int) : Int := (x + 2 ^ 63) % 2 ^ 64 - 2 ^ 63

def Timespec.nanos (t : Timespec) : Int := t.sec * 1000000000 + t.nsec

/-- The nanoseconds are added as `unsigned long long`. -/
def graceDeadline (t : Timespec) (micros : Nat) : Timespec :=
  let sec := timeT (t.sec + (micros / 1000000 : Nat))
  let nsec := (micros % 1000000 * 1000 + (t.nsec % 2 ^ 64).toNat) % 2 ^ 64
  ⟨timeT (sec + (nsec / 1000000000 : Nat)), (nsec % 1000000000 : Nat)⟩

def eintr : Int := 4
def einval : Int := 22

/-- `clock_nanosleep` up to an absolute time: 0 or an error number. A signal that is caught comes
`signal` nanoseconds behind the call. -/
def clockNanosleep (t : Timespec) (late : Nat) (signal : Option Nat) (clock : Int) : Int × Int :=
  if t.nsec < 0 ∨ 1000000000 ≤ t.nsec then (einval, clock)
  else match signal.filter fun wait : Nat => clock + wait < t.nanos with
    | some wait => (eintr, clock + wait)
    | none => (0, max clock t.nanos + late)

/-- Each turn takes one of the signals. Without one the call does not fail with `EINTR`. -/
def sleepLoop (t : Timespec) (late : Nat) (errno : Int) : List Nat → Int → Int × Int
  | [], clock => clockNanosleep t late none clock
  | wait :: signals, clock =>
    let slept := clockNanosleep t late (some wait) clock
    if slept.1 = -1 ∧ errno = eintr then sleepLoop t late errno signals slept.2 else slept

/-- The answer of `clock_gettime`, the nanoseconds up to the first sleep, and the signals that are
caught, each from the start of its sleep on. -/
structure GraceRun where
  start : Option Timespec
  delay : Nat := 0
  signals : List Nat := []

def gracePeriod (run : GraceRun) (late : Nat) (errno : Int) (micros : Nat) : Int × Option Int :=
  match run.start with
  | none => (-1, none)
  | some t =>
    let slept := sleepLoop (graceDeadline t micros) late errno run.signals (t.nanos + run.delay)
    (if slept.1 = -1 then -1 else 0, some slept.2)

structure ClockTime (t : Timespec) : Prop where
  sec : -2 ^ 63 ≤ t.sec ∧ t.sec < 2 ^ 63
  nsec : 0 ≤ t.nsec ∧ t.nsec < 1000000000

def DeadlineFits (t : Timespec) (micros : Nat) : Prop :=
  t.nanos + micros * 1000 < 2 ^ 63 * 1000000000

structure WaitedOut (run : GraceRun) (start : Timespec) (micros : Nat) : Prop where
  reached : ∀ late errno clock, gracePeriod run late errno micros = (0, some clock) →
    start.nanos + micros * 1000 ≤ clock
  nsec : 0 ≤ (graceDeadline start micros).nsec ∧ (graceDeadline start micros).nsec < 1000000000
  exact : DeadlineFits start micros →
    (graceDeadline start micros).nanos = start.nanos + micros * 1000

section Grace

variable {t : Timespec} {micros : Nat}

theorem deadline_nsec (t : Timespec) (micros : Nat) :
    0 ≤ (graceDeadline t micros).nsec ∧ (graceDeadline t micros).nsec < 1000000000 := by
  simp only [graceDeadline]
  omega

theorem timeT_add (a b : Int) : timeT (timeT a + b) = timeT (a + b) := by
  unfold timeT
  omega

theorem deadline_eq (valid : ClockTime t) (micros : Nat) : graceDeadline t micros =
    ⟨timeT ((t.nanos + micros * 1000) / 1000000000), (t.nanos + micros * 1000) % 1000000000⟩ := by
  obtain ⟨-, low, high⟩ := valid
  obtain ⟨n, nsec⟩ := Int.eq_ofNat_of_zero_le low
  have unsigned : (t.nsec % 2 ^ 64).toNat = n := by omega
  have sum : (micros % 1000000 * 1000 + n) % 2 ^ 64 = micros % 1000000 * 1000 + n :=
    Nat.mod_eq_of_lt (by omega)
  simp only [graceDeadline, timeT_add, unsigned, sum, Timespec.nanos, Timespec.mk.injEq]
  constructor
  · congr 1
    omega
  · omega

theorem deadline_exact (valid : ClockTime t) (fits : DeadlineFits t micros) :
    (graceDeadline t micros).nanos = t.nanos + micros * 1000 := by
  have low := valid.sec.1
  have nsec := valid.nsec.1
  rw [deadline_eq valid]
  simp only [DeadlineFits, Timespec.nanos, timeT] at fits ⊢
  omega

theorem deadline_past (valid : ClockTime t) (range : micros < 2 ^ 64)
    (wrapped : ¬ DeadlineFits t micros) : (graceDeadline t micros).nanos ≤ t.nanos := by
  have high := valid.sec.2
  have nsec := valid.nsec.2
  rw [deadline_eq valid]
  simp only [DeadlineFits, Timespec.nanos, timeT] at wrapped ⊢
  omega

theorem nanosleep_error (t : Timespec) (late : Nat) (signal : Option Nat) (clock : Int) :
    (clockNanosleep t late signal clock).1 ≠ -1 := by
  unfold clockNanosleep
  split_ifs
  · exact (by decide : einval ≠ -1)
  · cases signal.filter fun wait : Nat => clock + wait < t.nanos with
    | none => exact (by decide : (0 : Int) ≠ -1)
    | some wait => exact (by decide : eintr ≠ -1)

/-- No error number is -1, so that there is only one turn. -/
theorem sleepLoop_once (t : Timespec) (late : Nat) (errno : Int) (signals : List Nat)
    (clock : Int) :
    sleepLoop t late errno signals clock = clockNanosleep t late signals.head? clock := by
  cases signals with
  | nil => rfl
  | cons wait signals => exact if_neg fun again => nanosleep_error _ _ _ _ again.1

theorem gracePeriod_eq {run : GraceRun} (got : run.start = some t) (late : Nat) (errno : Int) :
    gracePeriod run late errno micros = (0, some (clockNanosleep (graceDeadline t micros) late
      run.signals.head? (t.nanos + run.delay)).2) := by
  simp only [gracePeriod, got, sleepLoop_once]
  rw [if_neg (nanosleep_error _ _ _ _)]

/-- Up to the deadline, but not behind a signal that comes before it. -/
theorem nanosleep_clock (normal : 0 ≤ t.nsec ∧ t.nsec < 1000000000) (late : Nat)
    (signal : Option Nat) (clock : Int) :
    (∃ wait ∈ signal, clock + wait < t.nanos ∧
      (clockNanosleep t late signal clock).2 = clock + wait) ∨
    (∀ wait ∈ signal, t.nanos ≤ clock + wait) ∧
      (clockNanosleep t late signal clock).2 = max clock t.nanos + late := by
  unfold clockNanosleep
  rw [if_neg (by omega)]
  cases signal with
  | none => exact .inr ⟨by simp, rfl⟩
  | some wait =>
    by_cases early : clock + wait < t.nanos
    · refine .inl ⟨wait, rfl, early, ?_⟩
      rw [Option.filter_some, if_pos (decide_eq_true early)]
    · refine .inr ⟨by simpa using early, ?_⟩
      rw [Option.filter_some, if_neg (by simpa using early)]

end Grace

/-- The grace period is waited out if it is over before the first sleep, and otherwise as long as
its end fits into `time_t` and no signal comes before it. -/
theorem grace_period_iff {run : GraceRun} {start : Timespec} {micros : Nat}
    (got : run.start = some start) (valid : ClockTime start) (range : micros < 2 ^ 64) :
    WaitedOut run start micros ↔ micros * 1000 ≤ run.delay ∨
      DeadlineFits start micros ∧ ∀ wait ∈ run.signals.head?, micros * 1000 ≤ run.delay + wait := by
  have sleep late := nanosleep_clock (deadline_nsec start micros) late run.signals.head?
    (start.nanos + run.delay)
  constructor
  · intro waited
    refine or_iff_not_imp_left.2 fun early => ?_
    have reached := waited.reached 0 0 _ (gracePeriod_eq got 0 0)
    have fits : DeadlineFits start micros := by
      by_contra wrapped
      have past := deadline_past valid range wrapped
      rcases sleep 0 with ⟨wait, -, before, -⟩ | ⟨-, clock⟩ <;> omega
    rw [deadline_exact valid fits] at sleep
    refine ⟨fits, fun wait first => ?_⟩
    rcases sleep 0 with ⟨wait', -, before, clock⟩ | ⟨none, -⟩
    · omega
    · have := none wait first
      omega
  · intro right
    refine ⟨fun late errno clock ended => ?_, deadline_nsec .., deadline_exact valid⟩
    rw [gracePeriod_eq got, Prod.mk.injEq, Option.some.injEq] at ended
    rw [← ended.2]
    rcases right with elapsed | ⟨fits, first⟩
    · rcases sleep late with ⟨wait, -, -, clock⟩ | ⟨-, clock⟩ <;> omega
    · rw [deadline_exact valid fits] at sleep
      rcases sleep late with ⟨wait, signal, before, -⟩ | ⟨-, clock⟩
      · have := first wait signal
        omega
      · omega

/-- A signal comes at the end of the period. -/
theorem default_period_right :
    WaitedOut { start := some ⟨12, 999999999⟩, delay := 500, signals := [99999500, 7] }
      ⟨12, 999999999⟩ 100000 :=
  (grace_period_iff rfl ⟨by decide, by decide⟩ (by decide)).2
    (.inr ⟨by unfold DeadlineFits; decide, by decide⟩)

/-- A signal 2 ms behind the start of the sleep ends a period of 100 ms with 0. -/
theorem signal_ends_period :
    gracePeriod { start := some ⟨10, 0⟩, signals := [2000000] } 0 eintr 100000 =
        (0, some 10002000000) ∧
      ¬ WaitedOut { start := some ⟨10, 0⟩, signals := [2000000] } ⟨10, 0⟩ 100000 :=
  ⟨by decide, fun waited => absurd (waited.reached 0 eintr 10002000000 (by decide)) (by decide)⟩

end Crinit
