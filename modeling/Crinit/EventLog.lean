import Mathlib.Data.List.Infix
import Crinit.Lib.CondVar

/-! Events on their way to elos (`eloslog.c`). The callers of `crinitElosLog` put them into a ring
buffer; one thread takes all that are queued and publishes them. -/
namespace Crinit

open Interleave List

structure ElosEvent where
  date : Nat
  severity : BitVec 32
  classification : BitVec 64
  messageCode : BitVec 32
  payload : String
  deriving DecidableEq

structure LogCall where
  severity : BitVec 32 := 0
  messageCode : BitVec 32 := 0
  classification : BitVec 64 := 0
  payload : String := ""

structure EventQueue where
  ring : List ElosEvent := []
  transmitCounter : BitVec 32 := 0
  transmitCondition : CondVar := {}
  deriving DecidableEq

inductive LogReturn where
  | error
  | disabled
  | failed
  | unwritten
  | ok
  deriving DecidableEq

inductive CallAt where
  | outside
  | enqueuing (event : ElosEvent)
  /-- Between the write to the ring buffer and the signal. -/
  | enqueued
  deriving DecidableEq

inductive TransmitAt where
  | connecting
  | checking
  | reading
  | publishing (events : List ElosEvent)
  | testing
  | waiting
  | ended
  deriving DecidableEq

inductive LogThread where
  | caller (place : CallAt)
  | transmitter (place : TransmitAt)
  deriving DecidableEq

inductive LogStep where
  | internal
  | written (event : ElosEvent)
  | published (events : List ElosEvent)
  | returned (result : LogReturn)
  deriving DecidableEq

structure LogAnswers where
  call : LogCall := {}
  useElos : Option Bool := some true
  eventAllocated : Bool := true
  payloadAllocated : Bool := true
  clock : Option Nat := some 0
  /-- `safuRingBufferWrite` fails, or gives up so many of the oldest entries for the new one. -/
  write : Option Nat := some 0
  version : Bool := true
  read : Bool := true
  spurious : Bool := false

def elosLogEvent (o : LogAnswers) : Except LogReturn ElosEvent :=
  match o.useElos with
  | none => .error .error
  | some false => .error .disabled
  | some true =>
    if o.eventAllocated then
      if o.payloadAllocated then
        match o.clock with
        | none => .error .failed
        | some date =>
          .ok ⟨date, o.call.severity, o.call.classification, o.call.messageCode, o.call.payload⟩
      else .error .failed
    else .error .error

def callerStep (s : EventQueue) (o : LogAnswers) : CallAt → Move EventQueue LogThread LogStep
  | .outside =>
    match elosLogEvent o with
    | .error result => ⟨.returned result, s, .caller .outside, []⟩
    | .ok event => ⟨.internal, s, .caller (.enqueuing event), []⟩
  | .enqueuing event =>
    match o.write with
    | none => ⟨.returned .unwritten, s, .caller .outside, []⟩
    | some dropped =>
      ⟨.written event, { s with ring := s.ring.drop dropped ++ [event] }, .caller .enqueued, []⟩
  | .enqueued =>
    ⟨.returned .ok, { s with
      transmitCounter := s.transmitCounter + 1
      transmitCondition := s.transmitCondition.signal }, .caller .outside, []⟩

def transmitterStep (s : EventQueue) (o : LogAnswers) :
    TransmitAt → Option (Move EventQueue LogThread LogStep)
  | .connecting =>
    some ⟨.internal, s, .transmitter (if o.version then .checking else .ended), []⟩
  | .checking => some ⟨.internal, s, .transmitter .reading, []⟩
  | .reading =>
    if o.read then
      some ⟨.internal, { s with ring := [] }, .transmitter (.publishing s.ring), []⟩
    else some ⟨.internal, s, .transmitter .ended, []⟩
  | .publishing events => some ⟨.published events, s, .transmitter .testing, []⟩
  | .testing =>
    if 0 < s.transmitCounter.toInt then
      some ⟨.internal, { s with transmitCounter := 0 }, .transmitter .checking, []⟩
    else
      some ⟨.internal, { s with transmitCondition := s.transmitCondition.wait },
        .transmitter .waiting, []⟩
  | .waiting => (s.transmitCondition.back o.spurious).map fun cond =>
      ⟨.internal, { s with transmitCondition := cond }, .transmitter .checking, []⟩
  | .ended => none

def eloslogProgram : Program EventQueue LogThread LogAnswers LogStep
  | s, .caller place, o => some (callerStep s o place)
  | s, .transmitter place, o => transmitterStep s o place

def eloslogInit (callers : Nat) : Conf EventQueue LogThread :=
  ⟨{}, .transmitter .connecting :: List.replicate callers (.caller .outside)⟩

abbrev LogTaken := Taken EventQueue LogThread LogAnswers LogStep

/-! ### An event that nobody will publish -/

def LogThread.waits : LogThread → Bool
  | .transmitter .waiting => true
  | _ => false

def LogThread.enqueued : LogThread → Bool
  | .caller .enqueued => true
  | _ => false

structure Forgotten (c : Conf EventQueue LogThread) : Prop where
  waits : 0 < c.threads.countP LogThread.waits
  unsignalled : c.shared.transmitCondition.signalled = 0
  queued : c.shared.ring ≠ []
  outside : c.threads.countP LogThread.enqueued = 0

def CounterFits (e : LogTaken) : Prop :=
  e.thread = .caller .enqueued → e.before.shared.transmitCounter ≠ BitVec.intMax 32

instance (e : LogTaken) : Decidable (CounterFits e) := inferInstanceAs (Decidable (_ → _))

def LogThread.transmits : LogThread → Bool
  | .transmitter _ => true
  | _ => false

def LogThread.hasRead : LogThread → Bool
  | .transmitter (.publishing _) => true
  | .transmitter .testing => true
  | _ => false

inductive LogKind (s : EventQueue) (t : LogThread) (m : Move EventQueue LogThread LogStep) :
    Prop where
  | idle (same : m.shared = s) (waits : t.waits = false ∧ m.thread.waits = false)
      (enqueued : t.enqueued = false ∧ m.thread.enqueued = false)
      (hasRead : m.thread.hasRead = true → t.hasRead = true)
  | writes (event : ElosEvent) (dropped : Nat) (thread : t = .caller (.enqueuing event))
      (behind : m.thread = .caller .enqueued)
      (shared : m.shared = { s with ring := s.ring.drop dropped ++ [event] })
  | signals (thread : t = .caller .enqueued) (behind : m.thread = .caller .outside)
      (shared : m.shared = { s with
        transmitCounter := s.transmitCounter + 1
        transmitCondition := s.transmitCondition.signal })
  | reads (thread : t = .transmitter .reading)
    (behind : m.thread = .transmitter (.publishing s.ring))
      (shared : m.shared = { s with ring := [] })
  | resets (thread : t = .transmitter .testing) (behind : m.thread = .transmitter .checking)
      (shared : m.shared = { s with transmitCounter := 0 })
  | sleeps (thread : t = .transmitter .testing) (behind : m.thread = .transmitter .waiting)
      (unsent : ¬ 0 < s.transmitCounter.toInt)
      (shared : m.shared = { s with transmitCondition := s.transmitCondition.wait })
  | wakes (thread : t = .transmitter .waiting) (behind : m.thread = .transmitter .checking)
      (cond : CondVar) (spurious : Bool) (back : s.transmitCondition.back spurious = some cond)
      (shared : m.shared = { s with transmitCondition := cond })

structure LogThreads (t : LogThread) (m : Move EventQueue LogThread LogStep) : Prop where
  started : m.started = []
  transmits : m.thread.transmits = t.transmits

theorem caller_kind (s : EventQueue) (o : LogAnswers) (place : CallAt) :
    LogKind s (.caller place) (callerStep s o place) ∧
      LogThreads (.caller place) (callerStep s o place) := by
  cases place with
  | outside =>
    simp only [callerStep]
    split <;> exact ⟨.idle rfl ⟨rfl, rfl⟩ ⟨rfl, rfl⟩ id, rfl, rfl⟩
  | enqueuing event =>
    simp only [callerStep]
    split
    · exact ⟨.idle rfl ⟨rfl, rfl⟩ ⟨rfl, rfl⟩ id, rfl, rfl⟩
    · exact ⟨.writes event _ rfl rfl rfl, rfl, rfl⟩
  | enqueued => exact ⟨.signals rfl rfl rfl, rfl, rfl⟩

variable {c : Conf EventQueue LogThread} {s : EventQueue} {i : Nat} {t : LogThread} {o : LogAnswers}
  {m : Move EventQueue LogThread LogStep}

theorem transmitter_kind {place : TransmitAt} (taken : transmitterStep s o place = some m) :
    LogKind s (.transmitter place) m ∧ LogThreads (.transmitter place) m := by
  cases place with
  | connecting =>
    obtain rfl := Option.some.inj taken
    cases o.version <;> exact ⟨.idle rfl ⟨rfl, rfl⟩ ⟨rfl, rfl⟩ id, rfl, rfl⟩
  | checking =>
    obtain rfl := Option.some.inj taken
    exact ⟨.idle rfl ⟨rfl, rfl⟩ ⟨rfl, rfl⟩ id, rfl, rfl⟩
  | reading =>
    simp only [transmitterStep] at taken
    split_ifs at taken <;> cases taken
    · exact ⟨.reads rfl rfl rfl, rfl, rfl⟩
    · exact ⟨.idle rfl ⟨rfl, rfl⟩ ⟨rfl, rfl⟩ id, rfl, rfl⟩
  | publishing events =>
    obtain rfl := Option.some.inj taken
    exact ⟨.idle rfl ⟨rfl, rfl⟩ ⟨rfl, rfl⟩ id, rfl, rfl⟩
  | testing =>
    simp only [transmitterStep] at taken
    split_ifs at taken with sent <;> cases taken
    · exact ⟨.resets rfl rfl rfl, rfl, rfl⟩
    · exact ⟨.sleeps rfl rfl sent rfl, rfl, rfl⟩
  | waiting =>
    obtain ⟨cond, back, rfl⟩ := Option.map_eq_some_iff.mp taken
    exact ⟨.wakes rfl rfl cond o.spurious back rfl, rfl, rfl⟩
  | ended => cases taken

theorem eloslog_kind (taken : eloslogProgram s t o = some m) : LogKind s t m ∧ LogThreads t m := by
  cases t with
  | caller place =>
    obtain rfl := Option.some.inj taken
    exact caller_kind s o place
  | transmitter place => exact transmitter_kind taken

/-! ### What the counter and the signals tell -/

def Announced (c : Conf EventQueue LogThread) : Prop :=
  c.shared.ring ≠ [] → 0 < c.shared.transmitCounter.toInt ∨ 0 < c.threads.countP LogThread.enqueued

structure QueueInv (c : Conf EventQueue LogThread) : Prop where
  counter : 0 ≤ c.shared.transmitCounter.toInt
  one : c.threads.countP LogThread.transmits ≤ 1
  waiters : c.threads.countP LogThread.waits = c.shared.transmitCondition.waiters
  announced : 0 < c.threads.countP LogThread.hasRead → Announced c
  remembered : ¬ Forgotten c

theorem counter_raised {counter : BitVec 32} (counted : 0 ≤ counter.toInt)
    (inRange : counter ≠ BitVec.intMax 32) : 0 < (counter + 1).toInt := by
  have bound := counter.isLt
  rw [BitVec.toInt_eq_toNat_cond] at counted ⊢
  rw [ne_eq, ← BitVec.toNat_inj] at inRange
  have most : (BitVec.intMax 32).toNat = 2147483647 := by decide
  rw [BitVec.toNat_add]
  simp only [BitVec.ofNat_eq_ofNat, BitVec.toNat_ofNat] at *
  omega

theorem logKind_cond (kind : LogKind s t m) :
    CondEffect EventQueue.transmitCondition LogThread.waits s t m := by
  cases kind with
  | idle same waits => exact .keeps (by rw [same]) (by rw [waits.1, waits.2])
  | writes event dropped thread behind shared =>
    subst thread
    exact .keeps (by rw [shared]) (by rw [behind]; rfl)
  | signals thread behind shared =>
    subst thread
    exact .keeps (by rw [shared, CondVar.signal_waiters]) (by rw [behind]; rfl)
  | reads thread behind shared =>
    subst thread
    exact .keeps (by rw [shared]) (by rw [behind]; rfl)
  | resets thread behind shared =>
    subst thread
    exact .keeps (by rw [shared]) (by rw [behind]; rfl)
  | sleeps thread behind unsent shared =>
    subst thread
    exact .enters (by rw [shared, CondVar.wait_waiters]) rfl (by rw [behind]; rfl)
  | wakes thread behind cond spurious back shared =>
    subst thread
    exact .returns (by rw [shared, CondVar.back_waiters back]) rfl (by rw [behind]; rfl)

/-- Only the transmitter reads and waits. -/
theorem transmits_split (threads : List LogThread) :
    threads.countP LogThread.hasRead + threads.countP LogThread.waits ≤
      threads.countP LogThread.transmits := by
  induction threads with
  | nil => exact Nat.le_refl 0
  | cons t rest ih =>
    simp only [countP_cons]
    have here : (if t.hasRead = true then 1 else 0) + (if t.waits = true then 1 else 0) ≤
        if t.transmits = true then 1 else 0 := by
      cases t with
      | caller place => exact Nat.le_refl 0
      | transmitter place =>
        cases place <;> simp [LogThread.hasRead, LogThread.waits, LogThread.transmits]
    omega

structure CountsMoved (c : Conf EventQueue LogThread) (i : Nat) (t : LogThread)
    (m : Move EventQueue LogThread LogStep) : Prop where
  waits : (c.after i m).threads.countP LogThread.waits + t.waits.toNat =
    c.threads.countP LogThread.waits + m.thread.waits.toNat
  enqueued : (c.after i m).threads.countP LogThread.enqueued + t.enqueued.toNat =
    c.threads.countP LogThread.enqueued + m.thread.enqueued.toNat
  hasRead : (c.after i m).threads.countP LogThread.hasRead + t.hasRead.toNat =
    c.threads.countP LogThread.hasRead + m.thread.hasRead.toNat
  transmits : (c.after i m).threads.countP LogThread.transmits =
    c.threads.countP LogThread.transmits

theorem counts_after_move (ht : c.threads[i]? = some t) (threads : LogThreads t m) :
    CountsMoved c i t m := by
  have count : ∀ p : LogThread → Bool, (c.after i m).threads.countP p + (p t).toNat =
      c.threads.countP p + (p m.thread).toNat := by
    intro p
    have all := count_after ht p m
    rw [threads.started, countP_nil] at all
    exact all
  have transmits := count LogThread.transmits
  rw [threads.transmits] at transmits
  exact ⟨count _, count _, count _, by omega⟩

theorem counter_step (kind : LogKind s t m) (counted : 0 ≤ s.transmitCounter.toInt)
    (inRange : t = .caller .enqueued → s.transmitCounter ≠ BitVec.intMax 32) :
    0 ≤ m.shared.transmitCounter.toInt := by
  cases kind with
  | idle same => rwa [same]
  | signals thread _ shared =>
    rw [shared]
    exact Int.le_of_lt (counter_raised counted (inRange thread))
  | resets _ _ shared =>
    rw [shared]
    exact Int.le_refl 0
  | writes _ _ _ _ shared | reads _ _ shared | sleeps _ _ _ shared | wakes _ _ _ _ _ shared =>
    rwa [shared]

theorem announced_step (inv : QueueInv c) (ht : c.threads[i]? = some t)
    (kind : LogKind c.shared t m) (counts : CountsMoved c i t m)
    (inRange : t = .caller .enqueued → c.shared.transmitCounter ≠ BitVec.intMax 32)
    (read : 0 < (c.after i m).threads.countP LogThread.hasRead) : Announced (c.after i m) := by
  have once := inv.one
  have split := transmits_split c.threads
  have enqueued := counts.enqueued
  have hasRead := counts.hasRead
  intro queued
  cases kind with
  | idle same _ noEnqueue reads =>
    have shared : (c.after i m).shared = c.shared := same
    rw [noEnqueue.1, noEnqueue.2] at enqueued
    have earlier : 0 < c.threads.countP LogThread.hasRead := by
      cases behind : m.thread.hasRead with
      | true => exact List.countP_pos_iff.mpr ⟨t, mem_of_getElem? ht, reads behind⟩
      | false =>
        rw [behind, Bool.toNat_false] at hasRead
        omega
    rw [shared] at queued ⊢
    exact (inv.announced earlier queued).imp_right fun between => by omega
  | writes event dropped thread behind shared =>
    rw [thread, behind] at enqueued
    simp only [LogThread.enqueued, Bool.toNat_true, Bool.toNat_false] at enqueued
    exact .inr (by omega)
  | signals thread _ shared =>
    left
    change 0 < m.shared.transmitCounter.toInt
    rw [shared]
    exact counter_raised inv.counter (inRange thread)
  | reads _ _ shared =>
    change m.shared.ring ≠ [] at queued
    rw [shared] at queued
    exact absurd rfl queued
  | resets thread behind | sleeps thread behind =>
    rw [thread, behind] at hasRead
    simp only [LogThread.hasRead, Bool.toNat_true, Bool.toNat_false] at hasRead
    omega
  | wakes thread behind =>
    have asleep : 0 < c.threads.countP LogThread.waits :=
      List.countP_pos_iff.mpr ⟨t, mem_of_getElem? ht, by rw [thread]; rfl⟩
    rw [thread, behind] at hasRead
    simp only [LogThread.hasRead, Bool.toNat_false] at hasRead
    omega

theorem remembered_step (inv : QueueInv c) (ht : c.threads[i]? = some t)
    (kind : LogKind c.shared t m) (counts : CountsMoved c i t m) : ¬ Forgotten (c.after i m) := by
  have once := inv.one
  have split := transmits_split c.threads
  have waits := counts.waits
  have enqueued := counts.enqueued
  have hasRead := counts.hasRead
  rintro ⟨asleep, unsignalled, queued, outside⟩
  change m.shared.transmitCondition.signalled = 0 at unsignalled
  change m.shared.ring ≠ [] at queued
  cases kind with
  | idle same noWait noEnqueue =>
    rw [noWait.1, noWait.2] at waits
    rw [noEnqueue.1, noEnqueue.2] at enqueued
    rw [same] at unsignalled queued
    exact inv.remembered ⟨by omega, unsignalled, queued, by omega⟩
  | writes event dropped thread behind shared =>
    rw [thread, behind] at enqueued
    simp only [LogThread.enqueued, Bool.toNat_true, Bool.toNat_false] at enqueued
    omega
  | signals thread behind shared =>
    -- the signal is on its way to the transmitter
    rw [thread, behind] at waits
    simp only [LogThread.waits, Bool.toNat_false] at waits
    have counted := inv.waiters
    have reached := CondVar.signal_reaches (v := c.shared.transmitCondition) (by omega)
    rw [shared] at unsignalled
    exact absurd unsignalled (Nat.ne_of_gt reached)
  | reads thread behind shared =>
    rw [shared] at queued
    exact absurd rfl queued
  | resets thread behind shared =>
    have read : 0 < c.threads.countP LogThread.hasRead :=
      List.countP_pos_iff.mpr ⟨t, mem_of_getElem? ht, by rw [thread]; rfl⟩
    rw [thread, behind] at waits
    simp only [LogThread.waits, Bool.toNat_false] at waits
    omega
  | sleeps thread behind unsent shared =>
    -- nothing has been counted, so a caller is still to send its signal
    have read : 0 < c.threads.countP LogThread.hasRead :=
      List.countP_pos_iff.mpr ⟨t, mem_of_getElem? ht, by rw [thread]; rfl⟩
    rw [shared] at queued
    rw [thread, behind] at enqueued
    simp only [LogThread.enqueued, Bool.toNat_false] at enqueued
    exact (inv.announced read queued).elim unsent fun between => by omega
  | wakes thread behind cond spurious back shared =>
    rw [thread, behind] at waits
    simp only [LogThread.waits, Bool.toNat_true, Bool.toNat_false] at waits
    omega

theorem queueInv_step (inv : QueueInv c) (ht : c.threads[i]? = some t)
    (taken : eloslogProgram c.shared t o = some m) (inRange : CounterFits ⟨c, i, o, t, m⟩) :
    QueueInv (c.after i m) := by
  obtain ⟨kind, threads⟩ := eloslog_kind taken
  have counts := counts_after_move ht threads
  exact {
    counter := counter_step kind inv.counter inRange
    one := counts.transmits ▸ inv.one
    waiters := (logKind_cond kind).count (by rw [threads.started]; rfl) ht inv.waiters
    announced := announced_step inv ht kind counts inRange
    remembered := remembered_step inv ht kind counts }

theorem queueInv_init (callers : Nat) : QueueInv (eloslogInit callers) := by
  have none : ∀ p : LogThread → Bool, p (.caller .outside) = false →
      (List.replicate callers (LogThread.caller .outside)).countP p = 0 := by
    intro p unlike
    exact List.countP_eq_zero.mpr fun t ht => by simp [eq_of_mem_replicate ht, unlike]
  have count : ∀ p : LogThread → Bool, p (.caller .outside) = false →
      (eloslogInit callers).threads.countP p = (p (.transmitter .connecting)).toNat := by
    intro p unlike
    change List.countP p (_ :: _) = _
    rw [countP_cons, none p unlike]
    cases p (.transmitter .connecting) <;> rfl
  exact {
    counter := Int.le_refl 0
    one := Nat.le_of_eq (count LogThread.transmits rfl)
    waiters := count LogThread.waits rfl
    announced := fun read => absurd read (by rw [count LogThread.hasRead rfl]; decide)
    remembered := fun lost => lost.queued rfl }

/-! ### What is queued has not been published -/

def LogThread.inHand : LogThread → List ElosEvent
  | .transmitter (.publishing events) => events
  | _ => []

def LogStep.writes : LogStep → List ElosEvent
  | .written event => [event]
  | _ => []

def LogStep.publishes : LogStep → List ElosEvent
  | .published events => events
  | _ => []

def writtenEvents (tr : List LogTaken) : List ElosEvent := tr.flatMap (·.move.event.writes)

def publishedEvents (tr : List LogTaken) : List ElosEvent := tr.flatMap (·.move.event.publishes)

/-- The front of the ring buffer goes into the hands of the thread or gets lost. -/
def EventFlow (s : EventQueue) (t : LogThread) (m : Move EventQueue LogThread LogStep) : Prop :=
  m.event.publishes = t.inHand ∧ ∃ gone kept, s.ring = gone ++ kept ∧
    m.shared.ring = kept ++ m.event.writes ∧ m.thread.inHand.Sublist gone

theorem EventFlow.idle (publishes : m.event.publishes = t.inHand) (writes : m.event.writes = [])
    (ring : m.shared.ring = s.ring) (inHand : m.thread.inHand = []) : EventFlow s t m :=
  ⟨publishes, [], s.ring, rfl, by rw [ring, writes, append_nil], inHand ▸ .refl _⟩

theorem eloslog_flow (taken : eloslogProgram s t o = some m) : EventFlow s t m := by
  cases t with
  | caller place =>
    obtain rfl := Option.some.inj taken
    cases place with
    | outside =>
      simp only [callerStep]
      split <;> exact .idle rfl rfl rfl rfl
    | enqueuing event =>
      simp only [callerStep]
      split
      · exact .idle rfl rfl rfl rfl
      · exact ⟨rfl, _, _, (take_append_drop _ _).symm, rfl, nil_sublist _⟩
    | enqueued => exact .idle rfl rfl rfl rfl
  | transmitter place =>
    cases place with
    | connecting =>
      obtain rfl := Option.some.inj taken
      cases o.version <;> exact .idle rfl rfl rfl rfl
    | checking =>
      obtain rfl := Option.some.inj taken
      exact .idle rfl rfl rfl rfl
    | reading =>
      simp only [eloslogProgram, transmitterStep] at taken
      split_ifs at taken <;> cases taken
      · exact ⟨rfl, s.ring, [], (append_nil _).symm, rfl, .refl _⟩
      · exact .idle rfl rfl rfl rfl
    | publishing events =>
      obtain rfl := Option.some.inj taken
      exact .idle rfl rfl rfl rfl
    | testing =>
      simp only [eloslogProgram, transmitterStep] at taken
      split_ifs at taken <;> cases taken <;> exact .idle rfl rfl rfl rfl
    | waiting =>
      obtain ⟨cond, back, rfl⟩ := Option.map_eq_some_iff.mp taken
      exact .idle rfl rfl rfl rfl
    | ended => cases taken

structure QueueOrder (tr : List LogTaken) (c : Conf EventQueue LogThread) (past : List ElosEvent) :
    Prop where
  written : writtenEvents tr = past ++ c.shared.ring
  published : (publishedEvents tr).Sublist past
  inHand : ∀ (j : Nat) (u : LogThread), c.threads[j]? = some u →
    (publishedEvents tr ++ u.inHand).Sublist past
  only : ∀ (j : Nat) (u : LogThread), c.threads[j]? = some u → u.transmits = true → j = 0

theorem lookup_after {j : Nat} {u : LogThread} (ht : c.threads[i]? = some t)
    (started : m.started = []) (hu : (c.after i m).threads[j]? = some u) :
    (j = i ∧ u = m.thread) ∨ (j ≠ i ∧ c.threads[j]? = some u) := by
  rcases after_lookup ht hu with here | other | ⟨_, fresh⟩
  · exact .inl here
  · exact .inr other
  · rw [started] at fresh
    cases fresh

variable {tr : List LogTaken} {past : List ElosEvent}

/-- The past grows by what the step takes from the ring buffer. -/
theorem queueOrder_step (order : QueueOrder tr c past) (ht : c.threads[i]? = some t)
    (taken : eloslogProgram c.shared t o = some m) :
    ∃ past', QueueOrder (tr ++ [⟨c, i, o, t, m⟩]) (c.after i m) past' := by
  obtain ⟨_, threads⟩ := eloslog_kind taken
  obtain ⟨publishes, gone, kept, ring, behind, inHand⟩ := eloslog_flow taken
  have published : publishedEvents (tr ++ [⟨c, i, o, t, m⟩]) = publishedEvents tr ++ t.inHand := by
    simp [publishedEvents, publishes]
  refine ⟨past ++ gone, ?_, ?_, fun j u hu => ?_, fun j u hu transmits => ?_⟩
  · have before := order.written
    simp only [writtenEvents, flatMap_append, flatMap_singleton] at before ⊢
    rw [before, ring]
    simp only [Conf.after, behind, append_assoc]
  · rw [published]
    exact (order.inHand i t ht).trans (sublist_append_left _ _)
  · rw [published]
    rcases lookup_after ht threads.started hu with ⟨_, rfl⟩ | ⟨other, there⟩
    · exact (order.inHand i t ht).append inHand
    · -- one of the two threads is no transmitter, so it has nothing in its hands
      refine .trans ?_ (sublist_append_left past gone)
      cases u with
      | caller place => simpa [LogThread.inHand] using order.inHand i t ht
      | transmitter place =>
        cases t with
        | caller place => simpa [LogThread.inHand] using order.inHand j _ there
        | transmitter place =>
          exact absurd ((order.only j _ there rfl).trans (order.only i _ ht rfl).symm) other
  · rcases lookup_after ht threads.started hu with ⟨rfl, rfl⟩ | ⟨_, there⟩
    · exact order.only j t ht (threads.transmits ▸ transmits)
    · exact order.only j u there transmits

/-- The ring buffer holds the last events that were written, and those that were published come
from before them. -/
theorem queued_unpublished {guard : LogTaken → Prop} (callers : Nat)
    (run : Run eloslogProgram guard (eloslogInit callers) tr c) :
    ∃ past, writtenEvents tr = past ++ c.shared.ring ∧ (publishedEvents tr).Sublist past := by
  have order : ∃ past, QueueOrder tr c past := by
    refine run.history (fun tr c => ∃ past, QueueOrder tr c past) ⟨[], rfl, .refl _, ?_, ?_⟩ ?_
    · intro j u hu
      have empty : u.inHand = [] := by
        rcases List.mem_cons.mp (mem_of_getElem? hu) with rfl | called
        · rfl
        · rw [eq_of_mem_replicate called]
          rfl
      rw [empty]
      exact .refl _
    · intro j u hu transmits
      cases j with
      | zero => rfl
      | succ j =>
        rw [eq_of_mem_replicate (mem_of_getElem? hu)] at transmits
        cases transmits
    · rintro tr c i t m o ⟨past, order⟩ ht taken _
      exact queueOrder_step order ht taken
  obtain ⟨past, order⟩ := order
  exact ⟨past, order.written, order.published⟩

/-- While the counter stays within an `int`, the transmitter never waits for a signal with an event
in the ring buffer that no caller is about to announce. -/
theorem no_event_forgotten (callers : Nat) (tr : List LogTaken) (c : Conf EventQueue LogThread)
    (run : Run eloslogProgram CounterFits (eloslogInit callers) tr c) : ¬ Forgotten c := by
  have inv : QueueInv c := run.invariant QueueInv (queueInv_init callers)
    fun _ _ _ _ _ inv ht taken inRange => queueInv_step inv ht taken inRange
  exact inv.remembered

def logTurns (i n : Nat) : List (Nat × LogAnswers) := List.replicate n (i, {})

def writtenLate : List (Nat × LogAnswers) := logTurns 0 3 ++ logTurns 1 3 ++ logTurns 0 6

theorem late_event_published :
    ∃ tr c, Run eloslogProgram CounterFits (eloslogInit 1) tr c ∧ ¬ Forgotten c ∧
      0 < c.threads.countP LogThread.waits ∧ publishedEvents tr = [⟨0, 0, 0, 0, ""⟩] := by
  have run := (run_of_schedule eloslogProgram (fun e => decide (CounterFits e)) writtenLate
    (eloslogInit 1) (by decide)).weaken fun e checked => of_decide_eq_true checked
  exact ⟨_, _, run, no_event_forgotten 1 _ _ run, by decide, by decide⟩

theorem late_event_queued : ∃ tr c past, Run eloslogProgram (fun _ => True) (eloslogInit 1) tr c ∧
    c.shared.ring.length = 1 ∧ writtenEvents tr = past ++ c.shared.ring ∧
      (publishedEvents tr).Sublist past := by
  have run := run_of_any_schedule eloslogProgram (logTurns 0 3 ++ logTurns 1 3) (eloslogInit 1)
  obtain ⟨past, order⟩ := queued_unpublished 1 run
  exact ⟨_, _, past, run, rfl, order⟩

def textless : ElosEvent := ⟨0, 0, 0, 0, ""⟩

def heldUp (n : Nat) : Conf EventQueue LogThread :=
  ⟨⟨List.replicate (min n 1) textless, BitVec.ofNat 32 n, {}⟩,
    [.transmitter .testing, .caller .outside]⟩

def oneKept : LogAnswers := { write := some 1 }

theorem heldUp_logs (n : Nat) :
    ∃ tr, Run eloslogProgram (fun _ => True) (heldUp n) tr (heldUp (n + 1)) := by
  have run := run_of_any_schedule eloslogProgram (List.replicate 3 (1, oneKept)) (heldUp n)
  have reached : final (heldUp n) (steps eloslogProgram (heldUp n)
      (List.replicate 3 (1, oneKept))) = heldUp (n + 1) := by
    have kept : (List.replicate (min n 1) textless).drop 1 = [] :=
      drop_eq_nil_of_le (by rw [length_replicate]; exact Nat.min_le_right n 1)
    have one : min (n + 1) 1 = 1 := Nat.min_eq_right (Nat.le_add_left 1 n)
    have raised : BitVec.ofNat 32 (n + 1) = BitVec.ofNat 32 n + 1 := BitVec.ofNat_add n 1
    unfold heldUp
    rw [one, raised]
    change (⟨⟨(List.replicate (min n 1) textless).drop 1 ++ [textless], _, {}⟩, _⟩ :
      Conf EventQueue LogThread) = _
    rw [kept]
    rfl
  rw [reached] at run
  exact ⟨_, run⟩

theorem heldUp_logs_many (n : Nat) :
    ∃ tr, Run eloslogProgram (fun _ => True) (heldUp 0) tr (heldUp n) := by
  induction n with
  | zero => exact ⟨[], .start⟩
  | succ n ih =>
    obtain ⟨earlier, run⟩ := ih
    obtain ⟨last, more⟩ := heldUp_logs n
    exact ⟨earlier ++ last, run.append more⟩

/-- The counter of 2^31 events is negative, so the transmitter waits with the last of them in the
ring buffer. -/
theorem event_forgotten :
    ∃ tr c, Run eloslogProgram (fun _ => True) (eloslogInit 1) tr c ∧ Forgotten c ∧
      c.shared.transmitCounter.toInt = -2147483648 := by
  have begins := run_of_any_schedule eloslogProgram (logTurns 0 4) (eloslogInit 1)
  obtain ⟨logs, logged⟩ := heldUp_logs_many 2147483648
  have waits := run_of_any_schedule eloslogProgram (logTurns 0 1) (heldUp 2147483648)
  exact ⟨_, _, (Run.append begins logged).append waits,
    ⟨by decide, by decide, by decide, by decide⟩, by decide⟩

end Crinit
