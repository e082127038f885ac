import Crinit.Lib.Interleave

/-! A condition variable among interleaved threads. A signal wakes one of the threads that wait, and
is lost if there is none. A wait may end without a signal. -/
namespace Interleave

/-- The threads in a wait: those without a signal, and those that one is on its way to. -/
structure CondVar where
  blocked : Nat := 0
  signalled : Nat := 0
  deriving DecidableEq, Repr

def CondVar.waiters (v : CondVar) : Nat := v.blocked + v.signalled

def CondVar.wait (v : CondVar) : CondVar := { v with blocked := v.blocked + 1 }

def CondVar.signal (v : CondVar) : CondVar :=
  if v.blocked = 0 then v else ⟨v.blocked - 1, v.signalled + 1⟩

def CondVar.back (v : CondVar) (spurious : Bool) : Option CondVar :=
  if spurious then
    if v.blocked = 0 then none else some { v with blocked := v.blocked - 1 }
  else if v.signalled = 0 then none else some { v with signalled := v.signalled - 1 }

theorem CondVar.wait_waiters (v : CondVar) : v.wait.waiters = v.waiters + 1 := by
  unfold CondVar.wait CondVar.waiters
  dsimp only
  omega

theorem CondVar.signal_waiters (v : CondVar) : v.signal.waiters = v.waiters := by
  unfold CondVar.signal CondVar.waiters
  split_ifs
  · rfl
  · dsimp only
    omega

theorem CondVar.signal_reaches {v : CondVar} (waits : 0 < v.waiters) :
    0 < v.signal.signalled := by
  unfold CondVar.waiters at waits
  unfold CondVar.signal
  split_ifs
  · omega
  · exact Nat.succ_pos _

theorem CondVar.back_waiters {v v' : CondVar} {spurious : Bool}
    (back : v.back spurious = some v') : v'.waiters + 1 = v.waiters := by
  unfold CondVar.back at back
  unfold CondVar.waiters
  split_ifs at back <;> cases back <;> dsimp only <;> omega

variable {S T O E : Type}

/-- What a step does to a condition variable: `cond` reads it, `waits` says who waits for it. -/
inductive CondEffect (cond : S → CondVar) (waits : T → Bool) (s : S) (t : T) (m : Move S T E) :
    Prop where
  | keeps (same : (cond m.shared).waiters = (cond s).waiters) (thread : waits m.thread = waits t)
  | enters (more : (cond m.shared).waiters = (cond s).waiters + 1) (before : waits t = false)
      (behind : waits m.thread = true)
  | returns (less : (cond m.shared).waiters + 1 = (cond s).waiters) (before : waits t = true)
      (behind : waits m.thread = false)

theorem CondEffect.count {cond : S → CondVar} {waits : T → Bool} {c : Conf S T} {i : Nat} {t : T}
    {m : Move S T E} (effect : CondEffect cond waits c.shared t m)
    (started : m.started.countP waits = 0) (ht : c.threads[i]? = some t)
    (counted : c.threads.countP waits = (cond c.shared).waiters) :
    (c.after i m).threads.countP waits = (cond (c.after i m).shared).waiters := by
  have count := count_after ht waits m
  change _ = (cond m.shared).waiters
  cases effect with
  | keeps same thread =>
    rw [thread, started] at count
    omega
  | enters more before behind =>
    rw [before, behind, started] at count
    simp only [Bool.toNat_true, Bool.toNat_false] at count
    omega
  | returns less before behind =>
    rw [before, behind, started] at count
    simp only [Bool.toNat_true, Bool.toNat_false] at count
    omega

end Interleave
