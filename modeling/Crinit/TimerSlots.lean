import Crinit.Lib.Interleave
import Crinit.TimerAdd

/-! The two arrays of the timer pool (`timerdb.c`) under concurrent calls, where adding looks for
the name in one section under the lock and inserts in another. -/
namespace Crinit

open Interleave List

structure PooledTimer where
  name : String := ""
  refs : BitVec 64 := 0
  next : Timespec := {}
  /-- The descriptor created for the timer. The source keeps it in `pollList` only. -/
  createdFd : Int := 0
  deriving DecidableEq

structure PollEntry where
  fd : Int := 0
  revents : BitVec 16 := 0#16
  deriving DecidableEq

structure TimerArrays where
  timerList : List PooledTimer
  pollList : List PollEntry
  size : Nat
  updates : Nat := 0
  timers_length : timerList.length = timerDbInitialCap
  poll_length : pollList.length = timerDbInitialCap
  deriving DecidableEq

def TimerArrays.timerAt (p : TimerArrays) (i : Nat) : PooledTimer := p.timerList.getD i {}

def TimerArrays.pollAt (p : TimerArrays) (i : Nat) : PollEntry := p.pollList.getD i {}

def TimerArrays.put (p : TimerArrays) (i : Nat) (timer : PooledTimer) (entry : PollEntry) :
    TimerArrays :=
  { p with
    timerList := p.timerList.set i timer
    pollList := p.pollList.set i entry
    timers_length := by rw [length_set, p.timers_length]
    poll_length := by rw [length_set, p.poll_length] }

def timerArraysInit (eventFd : Int) : TimerArrays where
  timerList := List.replicate timerDbInitialCap {}
  pollList := (List.replicate timerDbInitialCap {}).set 0 { fd := eventFd }
  size := 1
  timers_length := length_replicate
  poll_length := by rw [length_set, length_replicate]

def TimerArrays.find (p : TimerArrays) (timerStr : String) : Option Nat :=
  (List.range' 1 (p.size - 1)).find? fun i => (p.timerAt i).name = timerStr

def TimerArrays.ref (sys : TimerSys) (p : TimerArrays) (i : Nat) : TimerArrays :=
  { p.put i { p.timerAt i with refs := (p.timerAt i).refs + 1 } (p.pollAt i) with
    updates := p.updates + sys.notify }

def TimerSys.creates (sys : TimerSys) : Bool := sys.fd ≠ -1 && sys.settimeOk

def TimerArrays.insert (sys : TimerSys) (timer : PooledTimer) (p : TimerArrays) : TimerArrays :=
  if p.size ≥ timerDbInitialCap then p
  else if sys.creates then
    { p.put p.size { timer with createdFd := sys.fd } { p.pollAt p.size with fd := sys.fd } with
      size := p.size + 1
      updates := p.updates + sys.notify }
  else p

def PooledTimer.unref (t : PooledTimer) : PooledTimer :=
  if t.refs = 0 then t else { t with refs := t.refs - 1 }

def TimerArrays.removeAt (sys : TimerSys) (timerStr : String) (p : TimerArrays) (i : Nat) :
    TimerArrays :=
  if (p.timerAt i).name = timerStr then
    let t := (p.timerAt i).unref
    let p := { p.put i t (p.pollAt i) with updates := p.updates + sys.notify }
    if t.refs = 0 then
      if i < p.size - 1 then
        { p.put i (p.timerAt (p.size - 1)) (p.pollAt (p.size - 1)) with size := p.size - 1 }
      else { p with size := p.size - 1 }
    else p
  else p

def TimerArrays.removeLoop (sys : TimerSys) (timerStr : String) :
    Nat → Nat → TimerArrays → TimerArrays
  | 0, _, p => p
  | turns + 1, i, p =>
    if i < p.size then removeLoop sys timerStr turns (i + 1) (p.removeAt sys timerStr i) else p

def TimerArrays.remove (sys : TimerSys) (timerStr : String) (p : TimerArrays) : TimerArrays :=
  TimerArrays.removeLoop sys timerStr (p.size - 1) 1 p

inductive TimerThread where
  | adding (timerStr : String)
  | inserting (timerStr : String) (next : Timespec)
  | removing (timerStr : String)
  | done
  deriving DecidableEq

def preparedTimer (timerStr : String) (next : Timespec) : PooledTimer :=
  { name := timerStr, refs := 1, next := next }

def timerProgram : Program TimerArrays TimerThread TimerSys Unit
  | p, .adding timerStr, sys =>
    match p.find timerStr with
    | some i => some ⟨(), p.ref sys i, .done, []⟩
    | none => some ⟨(), p, .inserting timerStr (newTimer sys timerStr).next, []⟩
  | p, .inserting timerStr next, sys =>
    some ⟨(), p.insert sys (preparedTimer timerStr next), .done, []⟩
  | p, .removing timerStr, sys => some ⟨(), p.remove sys timerStr, .done, []⟩
  | _, .done, _ => none

inductive TimerCall where
  | add (timerStr : String)
  | remove (timerStr : String)

def TimerCall.thread : TimerCall → TimerThread
  | .add timerStr => .adding timerStr
  | .remove timerStr => .removing timerStr

def timerCalls (eventFd : Int) (calls : List TimerCall) : Conf TimerArrays TimerThread :=
  ⟨timerArraysInit eventFd, calls.map TimerCall.thread⟩

abbrev TimerTaken := Taken TimerArrays TimerThread TimerSys Unit

/-! ### The structure of the pool -/

def TimerArrays.Holds (p : TimerArrays) (i : Nat) : Prop := 1 ≤ i ∧ i < p.size

def TimerArrays.Stores (p : TimerArrays) (timerStr : String) : Prop :=
  ∃ i, p.Holds i ∧ (p.timerAt i).name = timerStr

structure PoolOk (eventFd : Int) (p : TimerArrays) : Prop where
  reserved : p.timerAt 0 = {} ∧ p.pollAt 0 = { fd := eventFd }
  sized : 1 ≤ p.size ∧ p.size ≤ timerDbInitialCap
  polled : ∀ i, p.Holds i → (p.pollAt i).fd = (p.timerAt i).createdFd
  referenced : ∀ i, p.Holds i → (p.timerAt i).refs ≠ 0
  distinct : ∀ i j, p.Holds i → p.Holds j → (p.timerAt i).name = (p.timerAt j).name → i = j

structure InsertsTwice (e : TimerTaken) (timerStr : String) (next : Timespec) : Prop where
  thread : e.thread = .inserting timerStr next
  room : e.before.shared.size < timerDbInitialCap
  creates : e.answers.creates = true
  stored : e.before.shared.Stores timerStr

structure RefsWrap (e : TimerTaken) (timerStr : String) (i : Nat) : Prop where
  thread : e.thread = .adding timerStr
  held : e.before.shared.Holds i
  name : (e.before.shared.timerAt i).name = timerStr
  full : (e.before.shared.timerAt i).refs = BitVec.allOnes 64

def Breaks (e : TimerTaken) : Prop :=
  (∃ timerStr next, InsertsTwice e timerStr next) ∨ ∃ timerStr i, RefsWrap e timerStr i

section
variable {eventFd : Int} {p q : TimerArrays} {sys : TimerSys} {i j : Nat} {timerStr : String}
  {timer : PooledTimer} {entry : PollEntry}

theorem getD_set {α : Type} {l : List α} {a d : α} (inside : i < l.length) :
    (l.set i a).getD j d = if j = i then a else l.getD j d := by
  simp only [getD_eq_getElem?_getD, getElem?_set]
  split_ifs with same other
  · rfl
  · omega
  · omega
  · rfl

structure PutAt (p q : TimerArrays) (i : Nat) (timer : PooledTimer) (entry : PollEntry) : Prop where
  timers : ∀ j, q.timerAt j = if j = i then timer else p.timerAt j
  polls : ∀ j, q.pollAt j = if j = i then entry else p.pollAt j

theorem put_at (inside : i < timerDbInitialCap) (timer : PooledTimer) (entry : PollEntry)
    (size updates : Nat) :
    PutAt p { p.put i timer entry with size := size, updates := updates } i timer entry where
  timers _ := getD_set (by rw [p.timers_length]; exact inside)
  polls _ := getD_set (by rw [p.poll_length]; exact inside)

theorem PutAt.again {r : TimerArrays} {timer' : PooledTimer} {entry' : PollEntry}
    (first : PutAt p q i timer entry) (second : PutAt q r i timer' entry') :
    PutAt p r i timer' entry' where
  timers j := by
    rw [second.timers, first.timers]
    split_ifs <;> rfl
  polls j := by
    rw [second.polls, first.polls]
    split_ifs <;> rfl

structure SlotsFrom (p q : TimerArrays) (source : Nat → Nat) : Prop where
  holds : ∀ i, q.Holds i → p.Holds (source i)
  apart : ∀ i j, q.Holds i → q.Holds j → source i = source j → i = j
  name : ∀ i, q.Holds i → (q.timerAt i).name = (p.timerAt (source i)).name
  created : ∀ i, q.Holds i → (q.timerAt i).createdFd = (p.timerAt (source i)).createdFd
  fd : ∀ i, q.Holds i → (q.pollAt i).fd = (p.pollAt (source i)).fd
  referenced : ∀ i, q.Holds i → (q.timerAt i).refs ≠ 0
  zero : q.timerAt 0 = p.timerAt 0 ∧ q.pollAt 0 = p.pollAt 0
  sized : 1 ≤ q.size ∧ q.size ≤ p.size

theorem SlotsFrom.ok {source : Nat → Nat} (moved : SlotsFrom p q source) (ok : PoolOk eventFd p) :
    PoolOk eventFd q := by
  refine ⟨?_, ⟨moved.sized.1, moved.sized.2.trans ok.sized.2⟩, fun i here => ?_,
    moved.referenced, fun i j here there same => ?_⟩
  · rw [moved.zero.1, moved.zero.2]
    exact ok.reserved
  · rw [moved.fd i here, moved.created i here]
    exact ok.polled _ (moved.holds i here)
  · rw [moved.name i here, moved.name j there] at same
    exact moved.apart i j here there
      (ok.distinct _ _ (moved.holds i here) (moved.holds j there) same)

theorem slots_replaced {k : Nat} (ok : PoolOk eventFd p) (here : p.Holds i) (there : p.Holds k)
    (put : PutAt p q i timer (p.pollAt k)) (name : timer.name = (p.timerAt k).name)
    (created : timer.createdFd = (p.timerAt k).createdFd) (some : q.Holds i → timer.refs ≠ 0)
    (sized : 1 ≤ q.size ∧ q.size ≤ p.size) (gone : k = i ∨ q.size ≤ k) :
    SlotsFrom p q fun j => if j = i then k else j := by
  have positive : 0 ≠ i := Nat.ne_of_lt here.1
  refine ⟨fun j held => ?_, fun j l held held' same => ?_, fun j held => ?_, fun j held => ?_,
    fun j held => ?_, fun j held => ?_, ⟨?_, ?_⟩, sized⟩
  · split_ifs
    · exact there
    · exact ⟨held.1, Nat.lt_of_lt_of_le held.2 sized.2⟩
  · have bound := held.2
    have bound' := held'.2
    split_ifs at same <;> omega
  · rw [put.timers]
    split_ifs
    · exact name
    · rfl
  · rw [put.timers]
    split_ifs
    · exact created
    · rfl
  · rw [put.polls]
    split_ifs <;> rfl
  · rw [put.timers]
    split_ifs with same
    · exact some (same ▸ held)
    · exact ok.referenced j ⟨held.1, Nat.lt_of_lt_of_le held.2 sized.2⟩
  · rw [put.timers, if_neg positive]
  · rw [put.polls, if_neg positive]

theorem ref_ok_iff (ok : PoolOk eventFd p) (here : p.Holds i) :
    PoolOk eventFd (p.ref sys i) ↔ (p.timerAt i).refs ≠ BitVec.allOnes 64 := by
  have put : PutAt p (p.ref sys i) i { p.timerAt i with refs := (p.timerAt i).refs + 1 }
      (p.pollAt i) := put_at (Nat.lt_of_lt_of_le here.2 ok.sized.2) _ _ _ _
  have wraps : (p.timerAt i).refs + 1 ≠ 0 ↔ (p.timerAt i).refs ≠ BitVec.allOnes 64 := by
    have bound := (p.timerAt i).refs.isLt
    rw [ne_eq, ne_eq, ← BitVec.toNat_inj, ← BitVec.toNat_inj, BitVec.toNat_add,
      BitVec.toNat_allOnes]
    simp only [BitVec.ofNat_eq_ofNat, BitVec.toNat_ofNat]
    omega
  constructor
  · intro after
    have some := after.referenced i here
    rw [put.timers, if_pos rfl] at some
    exact wraps.mp some
  · intro fits
    exact (slots_replaced ok here here put rfl rfl (fun _ => wraps.mpr fits)
      ⟨ok.sized.1, Nat.le_refl _⟩ (.inl rfl)).ok ok

theorem unref_name (t : PooledTimer) : t.unref.name = t.name := by
  unfold PooledTimer.unref
  split_ifs <;> rfl

theorem unref_created (t : PooledTimer) : t.unref.createdFd = t.createdFd := by
  unfold PooledTimer.unref
  split_ifs <;> rfl

inductive Removal (sys : TimerSys) (timerStr : String) (p : TimerArrays) (i : Nat)
    (q : TimerArrays) : Prop where
  | other (name : (p.timerAt i).name ≠ timerStr) (same : q = p)
  | counted (name : (p.timerAt i).name = timerStr) (some : (p.timerAt i).unref.refs ≠ 0)
      (put : PutAt p q i (p.timerAt i).unref (p.pollAt i)) (size : q.size = p.size)
      (updates : q.updates = p.updates + sys.notify)
  | replaced (name : (p.timerAt i).name = timerStr) (none : (p.timerAt i).unref.refs = 0)
      (before : i < p.size - 1)
      (put : PutAt p q i (p.timerAt (p.size - 1)) (p.pollAt (p.size - 1)))
      (size : q.size = p.size - 1) (updates : q.updates = p.updates + sys.notify)
  | dropped (name : (p.timerAt i).name = timerStr) (none : (p.timerAt i).unref.refs = 0)
      (atEnd : p.size - 1 ≤ i) (put : PutAt p q i (p.timerAt i).unref (p.pollAt i))
      (size : q.size = p.size - 1) (updates : q.updates = p.updates + sys.notify)

theorem removeAt_cases (sys : TimerSys) (timerStr : String) (inside : i < timerDbInitialCap) :
    Removal sys timerStr p i (p.removeAt sys timerStr i) := by
  have put := put_at (p := p) inside (p.timerAt i).unref (p.pollAt i)
  unfold TimerArrays.removeAt
  split_ifs with name
  · dsimp only
    split_ifs with none before
    · have elsewhere : p.size - 1 ≠ i := Nat.ne_of_gt before
      have timer := (put p.size (p.updates + sys.notify)).timers (p.size - 1)
      have entry := (put p.size (p.updates + sys.notify)).polls (p.size - 1)
      rw [if_neg elsewhere] at timer entry
      refine .replaced name none before ?_ rfl rfl
      rw [← timer, ← entry]
      exact (put p.size _).again (put_at inside _ _ (p.size - 1) _)
    · exact .dropped name none (Nat.not_lt.mp before) (put _ _) rfl rfl
    · exact .counted name none (put _ _) rfl rfl
  · exact .other name rfl

theorem removeAt_ok (sys : TimerSys) (timerStr : String) (ok : PoolOk eventFd p)
    (here : p.Holds i) :
    PoolOk eventFd (p.removeAt sys timerStr i) := by
  obtain ⟨positive, held⟩ := here
  have kind := removeAt_cases (p := p) sys timerStr (Nat.lt_of_lt_of_le held ok.sized.2)
  generalize p.removeAt sys timerStr i = q at kind ⊢
  cases kind with
  | other _ same => exact same.symm ▸ ok
  | counted _ some put size =>
    exact (slots_replaced ok ⟨positive, held⟩ ⟨positive, held⟩ put (unref_name _)
      (unref_created _) (fun _ => some) (size.symm ▸ ⟨ok.sized.1, Nat.le_refl _⟩) (.inl rfl)).ok ok
  | replaced _ _ before put size =>
    have last : p.Holds (p.size - 1) := ⟨by omega, by omega⟩
    exact (slots_replaced ok ⟨positive, held⟩ last put rfl rfl (fun _ => ok.referenced _ last)
      ⟨by omega, by omega⟩ (.inr (Nat.le_of_eq size))).ok ok
  | dropped _ _ atEnd put size =>
    refine (slots_replaced ok ⟨positive, held⟩ ⟨positive, held⟩ put (unref_name _)
      (unref_created _) (fun still => ?_) ⟨by omega, by omega⟩ (.inl rfl)).ok ok
    have inside := still.2
    omega

theorem removeLoop_ok (turns i : Nat) (p : TimerArrays) (ok : PoolOk eventFd p)
    (positive : 1 ≤ i) : PoolOk eventFd (TimerArrays.removeLoop sys timerStr turns i p) := by
  induction turns generalizing i p with
  | zero => exact ok
  | succ turns ih =>
    unfold TimerArrays.removeLoop
    split_ifs with held
    · exact ih (i + 1) _ (removeAt_ok sys timerStr ok ⟨positive, held⟩) (Nat.le_add_left 1 i)
    · exact ok

theorem inserted_ok (ok : PoolOk eventFd p) {fd : Int}
    (put : PutAt p q p.size { timer with createdFd := fd } { p.pollAt p.size with fd := fd })
    (size : q.size = p.size + 1) (room : p.size < timerDbInitialCap) (some : timer.refs ≠ 0)
    (fresh : ¬ p.Stores timer.name) : PoolOk eventFd q := by
  have positive : 0 ≠ p.size := Nat.ne_of_lt ok.sized.1
  have earlier : ∀ i, q.Holds i → i ≠ p.size → p.Holds i := by
    rintro i ⟨first, last⟩ apart
    exact ⟨first, by omega⟩
  refine ⟨⟨?_, ?_⟩, ⟨by omega, by omega⟩, fun i here => ?_, fun i here => ?_,
    fun i j here there same => ?_⟩
  · rw [put.timers, if_neg positive]
    exact ok.reserved.1
  · rw [put.polls, if_neg positive]
    exact ok.reserved.2
  · rw [put.timers, put.polls]
    split_ifs with new
    · rfl
    · exact ok.polled i (earlier i here new)
  · rw [put.timers]
    split_ifs with new
    · exact some
    · exact ok.referenced i (earlier i here new)
  · rw [put.timers, put.timers] at same
    split_ifs at same with new new' new'
    · rw [new, new']
    · exact absurd ⟨j, earlier j there new', same.symm⟩ fresh
    · exact absurd ⟨i, earlier i here new, same⟩ fresh
    · exact ok.distinct i j (earlier i here new) (earlier j there new') same

theorem insert_ok_iff (ok : PoolOk eventFd p) (some : timer.refs ≠ 0) :
    PoolOk eventFd (p.insert sys timer) ↔
      ¬ (p.size < timerDbInitialCap ∧ sys.creates = true ∧ p.Stores timer.name) := by
  unfold TimerArrays.insert
  split_ifs with full creates
  · exact ⟨fun _ room => absurd room.1 (Nat.not_lt.mpr full), fun _ => ok⟩
  · have room := Nat.not_le.mp full
    have put := put_at (p := p) room { timer with createdFd := sys.fd }
      { p.pollAt p.size with fd := sys.fd } (p.size + 1) (p.updates + sys.notify)
    constructor
    · rintro after ⟨_, _, i, here, same⟩
      have apart : i ≠ p.size := Nat.ne_of_lt here.2
      have equal := after.distinct i p.size ⟨here.1, Nat.lt_succ_of_lt here.2⟩
        ⟨ok.sized.1, Nat.lt_succ_self _⟩
      rw [put.timers, put.timers, if_neg apart, if_pos rfl] at equal
      exact apart (equal same)
    · intro twice
      exact inserted_ok ok put rfl room some fun stored => twice ⟨room, creates, stored⟩
  · exact ⟨fun _ created => absurd created.2.1 creates, fun _ => ok⟩

theorem find_some (found : p.find timerStr = some i) :
    p.Holds i ∧ (p.timerAt i).name = timerStr := by
  have member := mem_range'_1.mp (mem_of_find?_eq_some found)
  have name := find?_some found
  exact ⟨⟨member.1, by omega⟩, by simpa using name⟩

theorem find_none (missing : p.find timerStr = none) : ¬ p.Stores timerStr := by
  rintro ⟨i, here, name⟩
  have absent := List.find?_eq_none.mp missing i
    (mem_range'_1.mpr ⟨here.1, by have := here.2; omega⟩)
  simp [name] at absent

/-- What a step does to a pool in order, by its kind. -/
theorem timer_step_iff {c : Conf TimerArrays TimerThread} {t : TimerThread}
    {m : Move TimerArrays TimerThread Unit} (ok : PoolOk eventFd c.shared)
    (taken : timerProgram c.shared t sys = some m) :
    PoolOk eventFd m.shared ↔ ¬ Breaks ⟨c, i, sys, t, m⟩ := by
  cases t with
  | adding timerStr =>
    simp only [timerProgram] at taken
    cases found : c.shared.find timerStr with
    | none =>
      rw [found] at taken
      cases taken
      refine ⟨?_, fun _ => ok⟩
      rintro _ (⟨_, _, twice⟩ | ⟨_, j, wraps⟩)
      · cases twice.thread
      · cases wraps.thread
        exact find_none found ⟨j, wraps.held, wraps.name⟩
    | some k =>
      obtain ⟨here, name⟩ := find_some found
      rw [found] at taken
      cases taken
      rw [ref_ok_iff ok here]
      constructor
      · rintro fits (⟨_, _, twice⟩ | ⟨_, j, wraps⟩)
        · cases twice.thread
        · cases wraps.thread
          have same := ok.distinct k j here wraps.held (name.trans wraps.name.symm)
          exact fits (same ▸ wraps.full)
      · exact fun unbroken full => unbroken (.inr ⟨timerStr, k, rfl, here, name, full⟩)
  | inserting timerStr next =>
    cases taken
    rw [insert_ok_iff ok (show (1 : BitVec 64) ≠ 0 by decide)]
    refine not_congr ⟨?_, ?_⟩
    · rintro ⟨room, creates, stored⟩
      exact .inl ⟨timerStr, next, rfl, room, creates, stored⟩
    · rintro (⟨_, _, twice⟩ | ⟨_, _, wraps⟩)
      · cases twice.thread
        exact ⟨twice.room, twice.creates, twice.stored⟩
      · cases wraps.thread
  | removing timerStr =>
    cases taken
    refine ⟨?_, fun _ => removeLoop_ok _ _ _ ok (Nat.le_refl 1)⟩
    rintro _ (⟨_, _, twice⟩ | ⟨_, _, wraps⟩)
    · cases twice.thread
    · cases wraps.thread
  | done => cases taken

theorem init_ok (eventFd : Int) : PoolOk eventFd (timerArraysInit eventFd) := by
  have empty : ∀ i, ¬ (timerArraysInit eventFd).Holds i := fun i here =>
    absurd (Nat.lt_of_le_of_lt here.1 here.2) (Nat.lt_irrefl 1)
  exact ⟨⟨rfl, rfl⟩, ⟨Nat.le_refl 1, Nat.le_add_left 1 255⟩, fun i here => absurd here (empty i),
    fun i here => absurd here (empty i), fun i _ here => absurd here (empty i)⟩

end

/-- The pool keeps its structure in a run exactly if no call inserts a timer of a name that has come
in since it looked for it, and none adds a reference to a timer that has 2^64 - 1 of them. -/
theorem pool_structure_iff (eventFd : Int) (calls : List TimerCall) (tr : List TimerTaken)
    (c : Conf TimerArrays TimerThread)
    (run : Run timerProgram (fun _ => True) (timerCalls eventFd calls) tr c) :
    (∀ e ∈ tr, PoolOk eventFd e.result.shared) ↔ ∀ e ∈ tr, ¬ Breaks e := by
  have initially : ¬ ¬ PoolOk eventFd (timerCalls eventFd calls).shared := not_not_intro (init_ok _)
  have avoids := run.avoids_iff (fun c => ¬ PoolOk eventFd c.shared) Breaks initially
    fun e he ok => by
      obtain ⟨_, _, _, taken⟩ := run.taken e he
      exact (not_congr (timer_step_iff (not_not.mp ok) taken)).trans not_not
  simpa only [not_not] using avoids

/-! ### The sections of a call, one behind the other -/

def PooledTimer.slot (t : PooledTimer) (entry : PollEntry) : TimerSlot :=
  ⟨⟨t.name, t.refs.toNat, t.next⟩, entry.fd, entry.revents⟩

def TimerArrays.slotAt (p : TimerArrays) (i : Nat) : TimerSlot := (p.timerAt i).slot (p.pollAt i)

def TimerArrays.db (p : TimerArrays) : TimerDB where
  event := p.slotAt 0
  timers := (List.range' 1 (p.size - 1)).map p.slotAt
  updates := p.updates

section
variable {eventFd : Int} {p q : TimerArrays} {sys : TimerSys} {i : Nat} {timerStr : String}

theorem db_timers_get (p : TimerArrays) (k : Nat) :
    p.db.timers[k]? = if k + 1 < p.size then some (p.slotAt (k + 1)) else none := by
  simp only [TimerArrays.db, getElem?_map]
  split_ifs with inside
  · rw [getElem?_range' (by omega)]
    simp [Nat.add_comm]
  · rw [getElem?_eq_none (by rw [length_range']; omega)]
    rfl

theorem db_length (p : TimerArrays) : p.db.timers.length = p.size - 1 := by
  simp [TimerArrays.db]

theorem PutAt.slotAt {timer : PooledTimer} {entry : PollEntry} (put : PutAt p q i timer entry)
    (j : Nat) : q.slotAt j = if j = i then timer.slot entry else p.slotAt j := by
  unfold TimerArrays.slotAt
  rw [put.timers, put.polls]
  split_ifs <;> rfl

theorem insert_db (ok : PoolOk eventFd p) (timer : PooledTimer) :
    (p.insert sys timer).db =
      (insertTimer { sys with revents := (p.pollAt p.size).revents }
        ⟨timer.name, timer.refs.toNat, timer.next⟩ p.db).2 := by
  obtain ⟨first, last⟩ := ok.sized
  have slots : p.db.slots.length = p.size := by
    rw [TimerDB.slots, length_cons, db_length]
    omega
  unfold TimerArrays.insert insertTimer
  rw [slots]
  by_cases full : p.size ≥ timerDbInitialCap
  · rw [if_pos full, if_pos full]
  rw [if_neg full, if_neg full]
  by_cases opened : sys.fd = -1
  · simp [TimerSys.creates, opened]
  cases set : sys.settimeOk with
  | false => simp [TimerSys.creates, set]
  | true =>
    have creates : sys.creates = true := by simp [TimerSys.creates, opened, set]
    have put := put_at (p := p) (Nat.not_le.mp full) { timer with createdFd := sys.fd }
      { p.pollAt p.size with fd := sys.fd } (p.size + 1) (p.updates + sys.notify)
    rw [if_pos creates, if_neg opened, if_neg (by simp)]
    have others : ∀ j, j ≠ p.size → TimerArrays.slotAt _ j = p.slotAt j := fun j apart => by
      rw [put.slotAt, if_neg apart]
    have new := put.slotAt p.size
    rw [if_pos rfl] at new
    have indices : List.range' 1 (p.size + 1 - 1) = List.range' 1 (p.size - 1) ++ [p.size] := by
      have last : p.size + 1 - 1 = p.size - 1 + 1 := by omega
      rw [last, range'_1_concat]
      congr
      omega
    simp only [TimerArrays.db, TimerDB.mk.injEq]
    refine ⟨others 0 (by omega), ?_, rfl⟩
    rw [indices, map_append, map_singleton, new]
    refine congrArg (· ++ _) (map_congr_left fun j member => others j ?_)
    have bound := mem_range'_1.mp member
    omega

theorem unref_toNat (t : PooledTimer) : t.unref.refs.toNat = t.refs.toNat - 1 := by
  unfold PooledTimer.unref
  split_ifs with none
  · simp [none]
  · have some : t.refs.toNat ≠ 0 := fun zero => none (BitVec.eq_of_toNat_eq zero)
    rw [BitVec.toNat_sub_of_le]
    · rfl
    · exact Nat.one_le_iff_ne_zero.mpr some

theorem refFirst_map (put : PutAt p q i { p.timerAt i with refs := (p.timerAt i).refs + 1 }
      (p.pollAt i)) (fits : (p.timerAt i).refs ≠ BitVec.allOnes 64) (indices : List Nat)
    (once : indices.Nodup)
    (found : indices.find? (fun j => (p.timerAt j).name = timerStr) = some i) :
    refFirst timerStr (indices.map p.slotAt) = indices.map q.slotAt := by
  induction indices with
  | nil => cases found
  | cons j rest ih =>
    obtain ⟨fresh, once⟩ := List.nodup_cons.mp once
    have named : (p.slotAt j).named timerStr = decide ((p.timerAt j).name = timerStr) := rfl
    rw [map_cons, map_cons, refFirst, named]
    by_cases name : (p.timerAt j).name = timerStr
    · rw [find?_cons_of_pos (by simp [name])] at found
      obtain rfl := Option.some.inj found
      have raised : ((p.timerAt j).refs + 1).toNat = (p.timerAt j).refs.toNat + 1 := by
        have bound := (p.timerAt j).refs.isLt
        rw [ne_eq, ← BitVec.toNat_inj, BitVec.toNat_allOnes] at fits
        rw [BitVec.toNat_add]
        simp only [BitVec.ofNat_eq_ofNat, BitVec.toNat_ofNat]
        omega
      rw [if_pos (decide_eq_true name), put.slotAt, if_pos rfl, PooledTimer.slot, raised]
      refine congrArg (_ :: ·) (map_congr_left fun k member => ?_)
      have apart : k ≠ j := fun same => fresh (same ▸ member)
      rw [put.slotAt, if_neg apart]
    · rw [find?_cons_of_neg (by simp [name])] at found
      have member := mem_of_find?_eq_some found
      have apart : j ≠ i := fun same => fresh (same ▸ member)
      rw [if_neg (by simp [name]), ih once found, put.slotAt, if_neg apart]

theorem ref_db (ok : PoolOk eventFd p) (found : p.find timerStr = some i)
    (fits : (p.timerAt i).refs ≠ BitVec.allOnes 64) :
    (p.ref sys i).db = refTimer sys timerStr p.db := by
  obtain ⟨⟨first, last⟩, _⟩ := find_some found
  have put := put_at (p := p) (Nat.lt_of_lt_of_le last ok.sized.2)
    { p.timerAt i with refs := (p.timerAt i).refs + 1 } (p.pollAt i) p.size
    (p.updates + sys.notify)
  have event := put.slotAt 0
  rw [if_neg (Nat.ne_of_lt first)] at event
  have timers := refFirst_map put fits _ nodup_range' found
  simp only [TimerArrays.db, refTimer, TimerDB.mk.injEq]
  exact ⟨event, timers.symm, rfl⟩

theorem unref_slot (p : TimerArrays) (i : Nat) :
    (p.timerAt i).unref.slot (p.pollAt i) = { p.slotAt i with
      timer := { (p.slotAt i).timer with refs := (p.slotAt i).timer.refs - 1 } } := by
  have next : (p.timerAt i).unref.next = (p.timerAt i).next := by
    unfold PooledTimer.unref
    split_ifs <;> rfl
  rw [PooledTimer.slot, unref_name, unref_toNat, next]
  rfl

theorem PutAt.db {k : Nat} {timer : PooledTimer} {entry : PollEntry}
    (put : PutAt p q (k + 1) timer entry) (inside : k + 1 < p.size) (smaller : q.size ≤ p.size) :
    q.db = { p.db with
      timers := (p.db.timers.set k (timer.slot entry)).take (q.size - 1)
      updates := q.updates } := by
  have timers : q.db.timers = (p.db.timers.set k (timer.slot entry)).take (q.size - 1) := by
    refine ext_getElem? fun j => ?_
    rw [db_timers_get, put.slotAt, getElem?_take, getElem?_set, db_timers_get, db_length]
    split_ifs <;> first | rfl | omega
  have event : q.slotAt 0 = p.slotAt 0 := put.slotAt 0
  change TimerDB.mk (q.slotAt 0) q.db.timers q.updates = _
  rw [timers, event]
  rfl

theorem removeAt_db (ok : PoolOk eventFd p) (k : Nat) (inside : k + 1 < p.size)
    (written : sys.writeOk = true) :
    (p.removeAt sys timerStr (k + 1)).db = removeTimerAt timerStr p.db k := by
  have found : p.db.timers[k]? = some (p.slotAt (k + 1)) := by rw [db_timers_get, if_pos inside]
  have notify : sys.notify = 1 := by simp [TimerSys.notify, written]
  have refs : (p.slotAt (k + 1)).timer.refs - 1 = 0 ↔ (p.timerAt (k + 1)).unref.refs = 0 := by
    rw [← BitVec.toNat_inj]
    exact Eq.congr_left (unref_toNat _).symm
  have length := db_length p
  have kind := removeAt_cases (p := p) sys timerStr (Nat.lt_of_lt_of_le inside ok.sized.2)
  generalize p.removeAt sys timerStr (k + 1) = q at kind ⊢
  unfold removeTimerAt
  rw [found]
  dsimp only
  cases kind with
  | other name same => rw [if_neg (show ¬ (p.slotAt (k + 1)).timer.name = timerStr from name), same]
  | counted name some put size updates =>
    have whole : ∀ x, (p.db.timers.set k x).take (p.size - 1) = p.db.timers.set k x := fun x =>
      take_of_length_le (by rw [length_set, length])
    rw [if_pos (show (p.slotAt (k + 1)).timer.name = timerStr from name),
      if_neg fun zero => some (refs.mp zero), put.db inside (Nat.le_of_eq size), unref_slot, size,
      whole, updates, notify]
    rfl
  | replaced name none before put size updates =>
    have ends : ∀ x, p.db.timers.getLastD x = p.slotAt (p.size - 1) := by
      intro x
      have last : p.size - 1 - 1 + 1 = p.size - 1 := by omega
      rw [getLastD_eq_getLast?, getLast?_eq_getElem?, length, db_timers_get,
        if_pos (by omega), last]
      rfl
    rw [if_pos (show (p.slotAt (k + 1)).timer.name = timerStr from name), if_pos (refs.mpr none),
      if_pos (by omega), put.db inside (by omega), size, updates, notify, dropLast_eq_take,
      ends, length_set, length]
    rfl
  | dropped name none atEnd put size updates =>
    rw [if_pos (show (p.slotAt (k + 1)).timer.name = timerStr from name), if_pos (refs.mpr none),
      if_neg (by omega), put.db inside (by omega), size, updates, notify, dropLast_eq_take,
      length, take_set_of_le (by omega)]
    rfl

theorem removeLoop_db (written : sys.writeOk = true) (turns k : Nat) (p : TimerArrays)
    (ok : PoolOk eventFd p) :
    (TimerArrays.removeLoop sys timerStr turns (k + 1) p).db =
      removeTimerLoop timerStr turns k p.db := by
  induction turns generalizing k p with
  | zero => rfl
  | succ turns ih =>
    unfold TimerArrays.removeLoop removeTimerLoop
    rw [db_length]
    by_cases inside : k + 1 < p.size
    · have next := removeAt_ok sys timerStr ok ⟨Nat.le_add_left 1 k, inside⟩
      rw [if_pos inside, if_pos (by omega), ih (k + 1) _ next, removeAt_db ok k inside written]
    · rw [if_neg inside, if_neg (by omega)]

theorem remove_db (written : sys.writeOk = true) (ok : PoolOk eventFd p) :
    (p.remove sys timerStr).db = removeTimerLoop timerStr p.db.timers.length 0 p.db := by
  rw [db_length]
  exact removeLoop_db written (p.size - 1) 0 p ok

theorem db_has (p : TimerArrays) (timerStr : String) :
    p.db.has timerStr = (p.find timerStr).isSome := by
  simp only [TimerDB.has, TimerArrays.db, any_map, TimerArrays.find]
  rw [Bool.eq_iff_iff, find?_isSome, any_eq_true]
  rfl

/-- A call of `crinitTimerDBAddTimer` with no other one between its sections. -/
def TimerArrays.add (sys : TimerSys) (timerStr : String) (p : TimerArrays) : TimerArrays :=
  match p.find timerStr with
  | some i => p.ref sys i
  | none => p.insert sys (preparedTimer timerStr (newTimer sys timerStr).next)

def TimerArrays.RefFits (p : TimerArrays) (timerStr : String) : Prop :=
  ∀ i, p.find timerStr = some i → (p.timerAt i).refs ≠ BitVec.allOnes 64

theorem add_db (ok : PoolOk eventFd p) (fits : p.RefFits timerStr) :
    (p.add sys timerStr).db =
      addTimer { sys with revents := (p.pollAt p.size).revents } timerStr p.db := by
  unfold TimerArrays.add addTimer
  rw [db_has]
  cases found : p.find timerStr with
  | none =>
    have one : (preparedTimer timerStr (newTimer sys timerStr).next).refs.toNat = 1 := rfl
    rw [if_neg (by simp)]
    dsimp only
    rw [insert_db ok, one]
    simp only [newTimer, preparedTimer]
  | some i =>
    rw [if_pos (Option.isSome_some)]
    exact ref_db ok found (fits i found)

theorem add_ok (ok : PoolOk eventFd p) (fits : p.RefFits timerStr) :
    PoolOk eventFd (p.add sys timerStr) := by
  unfold TimerArrays.add
  cases found : p.find timerStr with
  | none =>
    refine (insert_ok_iff ok ?_).mpr fun twice => find_none found twice.2.2
    show (1 : BitVec 64) ≠ 0
    decide
  | some i => exact (ref_ok_iff ok (find_some found).1).mpr (fits i found)

/-- Calls one behind the other, on the arrays and on the list of timers. The slot of a new timer
has the events that were polled of the one before. -/
inductive CalledInTurn (eventFd : Int) : TimerArrays → TimerDB → Prop
  | init : CalledInTurn eventFd (timerArraysInit eventFd)
      { event := { timer := { name := "", refs := 0 }, fd := eventFd } }
  | add {p : TimerArrays} {db : TimerDB} (sys : TimerSys) (timerStr : String)
      (before : CalledInTurn eventFd p db) (fits : p.RefFits timerStr) :
      CalledInTurn eventFd (p.add sys timerStr)
        (addTimer { sys with revents := (p.pollAt p.size).revents } timerStr db)
  | remove {p : TimerArrays} {db : TimerDB} (sys : TimerSys) (timerStr : String)
      (before : CalledInTurn eventFd p db) (written : sys.writeOk = true) :
      CalledInTurn eventFd (p.remove sys timerStr)
        (removeTimerLoop timerStr db.timers.length 0 db)

/-- The arrays are the list of timers, whatever was called. -/
theorem pool_refines {db : TimerDB} (calls : CalledInTurn eventFd p db) :
    PoolOk eventFd p ∧ p.db = db := by
  induction calls with
  | init => exact ⟨init_ok eventFd, rfl⟩
  | add sys timerStr _ fits ih => exact ⟨add_ok ih.1 fits, by rw [add_db ih.1 fits, ih.2]⟩
  | remove sys timerStr _ written ih =>
    exact ⟨removeLoop_ok _ _ _ ih.1 (Nat.le_refl 1), by rw [remove_db written ih.1, ih.2]⟩

end

def breakSuspected (e : TimerTaken) : Bool :=
  match e.thread with
  | .inserting timerStr _ => (e.before.shared.find timerStr).isSome
  | .adding _ => (List.range' 1 (e.before.shared.size - 1)).any fun i =>
      (e.before.shared.timerAt i).refs = BitVec.allOnes 64
  | _ => false

theorem breaks_suspected {e : TimerTaken} (breaks : Breaks e) : breakSuspected e = true := by
  rcases breaks with ⟨timerStr, next, twice⟩ | ⟨timerStr, i, wraps⟩
  · simp only [breakSuspected, twice.thread]
    cases found : e.before.shared.find timerStr with
    | none => exact absurd twice.stored (find_none found)
    | some _ => rfl
  · simp only [breakSuspected, wraps.thread, any_eq_true]
    have last := wraps.held.2
    exact ⟨i, mem_range'_1.mpr ⟨wraps.held.1, by omega⟩, by simp [wraps.full]⟩

def timerTurns (turns : List Nat) : List (Nat × TimerSys) := turns.map fun i => (i, { fd := i + 4 })

def daily : String := "*-*-*-00:00:00"

def inTurn : List TimerCall := [.add daily, .add daily, .remove daily, .remove daily]

/-- The second call finds the timer of the first, and both of its references are removed. -/
theorem called_in_turn :
    ∃ tr c, Run timerProgram (fun _ => True) (timerCalls 3 inTurn) tr c ∧
      (∀ e ∈ tr, PoolOk 3 e.result.shared) ∧ tr.length = 5 ∧ c.shared.size = 1 := by
  have run := run_of_any_schedule timerProgram (timerTurns [0, 0, 1, 2, 3]) (timerCalls 3 inTurn)
  refine ⟨_, _, run, (pool_structure_iff 3 _ _ _ run).mpr fun e he breaks => ?_, by decide,
    by decide⟩
  have checked : (steps timerProgram (timerCalls 3 inTurn) (timerTurns [0, 0, 1, 2, 3])).all
      (fun e => !breakSuspected e) = true := by
    decide
  have here := List.all_eq_true.mp checked e he
  simp [breaks_suspected breaks] at here

/-- Both calls look for the name before one of them inserts it. -/
theorem added_twice :
    ∃ tr c, Run timerProgram (fun _ => True) (timerCalls 3 [.add daily, .add daily]) tr c ∧
      ¬ PoolOk 3 c.shared ∧ c.shared.size = 3 ∧ (c.shared.timerAt 1).name = daily ∧
      (c.shared.timerAt 2).name = daily := by
  have run := run_of_any_schedule timerProgram (timerTurns [0, 1, 0, 1])
    (timerCalls 3 [.add daily, .add daily])
  refine ⟨_, _, run, fun ok => ?_, by decide, by decide, by decide⟩
  have same := ok.distinct 1 2 ⟨by decide, by decide⟩ ⟨by decide, by decide⟩ (by decide)
  exact absurd same (by decide)

/-- Of three timers the first one is removed, so that the last takes its slot. -/
theorem daily_refines : ∃ p db, CalledInTurn 3 p db ∧
    db.timers.map (fun s => s.timer.name) = ["*-*-*-02:00:00", "*-*-*-01:00:00"] ∧ p.db = db := by
  have calls : CalledInTurn 3 _ _ := .remove {} daily (.add { fd := 6 } "*-*-*-02:00:00"
    (.add { fd := 5 } "*-*-*-01:00:00" (.add { fd := 4 } daily .init nofun) nofun) nofun) rfl
  exact ⟨_, _, calls, by decide, (pool_refines calls).2⟩

end Crinit
