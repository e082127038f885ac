import Crinit.Lib.CText
import Crinit.TimerParser
import Crinit.TimerPool

/-! How a timer gets into the pool: `crinitTimerDBAddTimer`, called for the entries
`@timer:...` of a DEPENDS or TRIGGER value. -/
namespace Crinit

open CText List Locks

structure TimerSys where
  now : Timespec := {}
  fd : Int := 4
  settimeOk : Bool := true
  writeOk : Bool := true
  /-- What still stands in the entry of `pollList`, which is not cleared. -/
  revents : BitVec 16 := 0#16
  deriving DecidableEq, Repr

def timerDbInitialCap : Nat := 256

def TimerSlot.named (timerStr : String) (s : TimerSlot) : Bool := s.timer.name = timerStr

def TimerDB.has (p : TimerDB) (timerStr : String) : Bool := p.timers.any (TimerSlot.named timerStr)

def TimerSlot.ref (s : TimerSlot) : TimerSlot :=
  { s with timer := { s.timer with refs := s.timer.refs + 1 } }

def refFirst (timerStr : String) : List TimerSlot → List TimerSlot
  | [] => []
  | s :: rest => if s.named timerStr then s.ref :: rest else s :: refFirst timerStr rest

def TimerSys.notify (sys : TimerSys) : Nat := if sys.writeOk then 1 else 0

def refTimer (sys : TimerSys) (timerStr : String) (p : TimerDB) : TimerDB :=
  { p with timers := refFirst timerStr p.timers, updates := p.updates + sys.notify }

def insertTimer (sys : TimerSys) (timer : Timer) (p : TimerDB) : Int × TimerDB :=
  if p.slots.length ≥ timerDbInitialCap then (-1, p)
  else if sys.fd = -1 then (-1, p)
  else if !sys.settimeOk then (-1, p)
  else (if sys.writeOk then 0 else -1, { p with
    timers := p.timers ++ [{ timer := timer, fd := sys.fd, revents := sys.revents }]
    updates := p.updates + sys.notify })

/-- The result of `crinitTimerParse` is not looked at. -/
def newTimer (sys : TimerSys) (timerStr : String) : Timer :=
  { name := timerStr, refs := 1, next := timerNextTime sys.now (timerParse timerStr.toList).2 }

/-- `crinitTimerDBAddTimer`. A failed insertion is logged only. -/
def addTimer (sys : TimerSys) (timerStr : String) (p : TimerDB) : TimerDB :=
  if p.has timerStr then refTimer sys timerStr p else (insertTimer sys (newTimer sys timerStr) p).2

/-! ### The entries of a dependency list -/

def parseDep (text : String) : Option TaskDep := do
  let (name, rest) ← strtokR ':' text.toList
  let (event, _) ← strtokR ' ' rest
  return ⟨String.ofList name, String.ofList event⟩

structure DepEntry where
  text : String
  strdupOk : Bool := true
  sys : TimerSys := {}
  deriving DecidableEq, Repr

def elosDepName : String := "@elos"

structure DepList where
  ret : Int
  list : List TaskDep
  pool : TimerDB
  deriving DecidableEq, Repr

/-- The loop of `crinitDepListHandler`. It is left at the first entry that fails; a timer
added before stays. -/
def depListLoop (enableElos : Bool) : List DepEntry → List TaskDep → TimerDB → DepList
  | [], list, p => ⟨0, list, p⟩
  | d :: ds, list, p =>
    if !d.strdupOk then ⟨-1, list, p⟩
    else match parseDep d.text with
      | none => ⟨-1, list, p⟩
      | some dep =>
        let p := if dep.name = timerDepName then addTimer d.sys dep.event p else p
        if !enableElos && dep.name = elosDepName then ⟨-1, list, p⟩
        else depListLoop enableElos ds (list ++ [dep]) p

def depListHandler (enableElos : Bool) (tempDeps : Option (List DepEntry)) (memOk : Bool)
    (list : List TaskDep) (p : TimerDB) : DepList :=
  match tempDeps with
  | none => ⟨-1, list, p⟩
  | some [] => ⟨0, list, p⟩
  | some (d :: ds) => if !memOk then ⟨-1, list, p⟩ else depListLoop enableElos (d :: ds) list p

def cfgDepHandler (enableElos : Bool) (val : Option (List DepEntry)) (memOk : Bool) (t : Task)
    (p : TimerDB) :
    Int × Task × TimerDB :=
  let r := depListHandler enableElos val memOk t.deps p
  (r.ret, { t with deps := r.list }, r.pool)

def cfgTrigHandler (enableElos : Bool) (val : Option (List DepEntry)) (memOk : Bool) (t : Task)
    (p : TimerDB) :
    Int × Task × TimerDB :=
  let r := depListHandler enableElos val memOk t.trig p
  (r.ret, { t with trig := r.list }, r.pool)

/-! ### What the pool has afterwards -/

def Insertable (sys : TimerSys) (timerStr : String) (p : TimerDB) : Prop :=
  p.has timerStr = false ∧ p.slots.length < timerDbInitialCap ∧ sys.fd ≠ -1 ∧ sys.settimeOk = true

section Pool

variable {sys : TimerSys} {s : String} {p : TimerDB}

theorem refFirst_any (timerStr : String) (slots : List TimerSlot) :
    (refFirst timerStr slots).any (TimerSlot.named s) = slots.any (TimerSlot.named s) := by
  induction slots with
  | nil => rfl
  | cons slot rest ih =>
    rw [refFirst]
    split_ifs
    · rfl
    · rw [any_cons, any_cons, ih]

theorem insertTimer_has (timer : Timer) : (insertTimer sys timer p).2.has s = true ↔
    p.has s = true ∨ timer.name = s ∧ p.slots.length < timerDbInitialCap ∧ sys.fd ≠ -1 ∧
      sys.settimeOk = true := by
  unfold insertTimer
  split_ifs with full failed unset
  · simp [Nat.not_lt.2 full]
  · simp [failed]
  · simp_all
  all_goals simp_all [TimerDB.has, TimerSlot.named]

theorem addTimer_has (timerStr : String) : (addTimer sys timerStr p).has s = true ↔
    p.has s = true ∨ timerStr = s ∧ Insertable sys s p := by
  unfold addTimer
  split_ifs with there
  · have same : (refTimer sys timerStr p).has s = p.has s := refFirst_any timerStr p.timers
    rw [same]
    constructor
    · exact .inl
    · rintro (has | ⟨rfl, absent, -⟩)
      · exact has
      · rw [there] at absent
        cases absent
  · rw [insertTimer_has]
    constructor
    · rintro (has | ⟨rfl, room, opened, set⟩)
      · exact .inl has
      · exact .inr ⟨rfl, Bool.eq_false_iff.2 there, room, opened, set⟩
    · rintro (has | ⟨rfl, -, room, opened, set⟩)
      · exact .inl has
      · exact .inr ⟨rfl, room, opened, set⟩

end Pool

section List

variable {enableElos : Bool} {s : String} {p : TimerDB} {list : List TaskDep}

def DepEntry.Inserts (s : String) (d : DepEntry) (p : TimerDB) : Prop :=
  d.strdupOk = true ∧ parseDep d.text = some ⟨timerDepName, s⟩ ∧ Insertable d.sys s p

def ListInserts (enableElos : Bool) (s : String) (ds : List DepEntry) (list : List TaskDep)
    (p : TimerDB) : Prop :=
  ∃ (pre : List DepEntry) (d : DepEntry) (post : List DepEntry), ds = pre ++ d :: post ∧
    (depListLoop enableElos pre list p).ret = 0 ∧
      d.Inserts s (depListLoop enableElos pre list p).pool

theorem listInserts_cons {d : DepEntry} {ds : List DepEntry} :
    ListInserts enableElos s (d :: ds) list p ↔
    d.Inserts s p ∨ ∃ (pre : List DepEntry) (d' : DepEntry) (post : List DepEntry),
      ds = pre ++ d' :: post ∧
      (depListLoop enableElos (d :: pre) list p).ret = 0 ∧ d'.Inserts s
      (depListLoop enableElos (d :: pre) list p).pool := by
  constructor
  · rintro ⟨pre, d', post, same, reached, inserts⟩
    cases pre with
    | nil =>
      cases same
      exact .inl inserts
    | cons x pre =>
      cases same
      exact .inr ⟨pre, d', post, rfl, reached, inserts⟩
  · rintro (inserts | ⟨pre, d', post, rfl, reached, inserts⟩)
    · exact ⟨[], d, ds, rfl, rfl, inserts⟩
    · exact ⟨d :: pre, d', post, rfl, reached, inserts⟩

theorem entry_has {d : DepEntry} {dep : TaskDep} (dup : d.strdupOk = true)
    (parsed : parseDep d.text = some dep) :
    (if dep.name = timerDepName then addTimer d.sys dep.event p else p).has s = true ↔
      p.has s = true ∨ d.Inserts s p := by
  obtain ⟨name, event⟩ := dep
  unfold DepEntry.Inserts
  rw [parsed]
  split_ifs with timer
  · rw [addTimer_has]
    simp only [dup, true_and, Option.some.injEq, TaskDep.mk.injEq]
    exact or_congr_right (and_congr_left' (and_iff_right timer).symm)
  · constructor
    · exact .inl
    · rintro (has | ⟨-, same, -⟩)
      · exact has
      · cases same
        exact (timer rfl).elim

theorem depListLoop_has (ds : List DepEntry) :
    (depListLoop enableElos ds list p).pool.has s = true ↔
    p.has s = true ∨ ListInserts enableElos s ds list p := by
  induction ds generalizing list p with
  | nil =>
    constructor
    · exact .inl
    · rintro (has | ⟨pre, d, post, same, -⟩)
      · exact has
      · cases pre <;> cases same
  | cons d ds ih =>
    rw [listInserts_cons]
    unfold depListLoop
    by_cases dup : d.strdupOk = true
    · simp only [dup, Bool.not_true, Bool.false_eq_true, if_false]
      cases parsed : parseDep d.text with
      | none => simp [DepEntry.Inserts, parsed]
      | some dep =>
        have entry := entry_has (p := p) (s := s) dup parsed
        dsimp only
        generalize (if dep.name = timerDepName then addTimer d.sys dep.event p else p) =
          p' at entry ⊢
        split_ifs with elos
        · simp [entry]
        · rw [ih, entry, or_assoc]
          exact Iff.rfl
    · simp [DepEntry.Inserts, dup]

def ValueInserts (enableElos : Bool) (s : String) (tempDeps : Option (List DepEntry)) (memOk : Bool)
    (list : List TaskDep) (p : TimerDB) : Prop :=
  memOk = true ∧ ∃ ds ∈ tempDeps, ListInserts enableElos s ds list p

theorem depListHandler_has (tempDeps : Option (List DepEntry)) (memOk : Bool) :
    (depListHandler enableElos tempDeps memOk list p).pool.has s = true ↔
      p.has s = true ∨ ValueInserts enableElos s tempDeps memOk list p := by
  rcases tempDeps with _ | _ | ⟨d, ds⟩
  · simp [depListHandler, ValueInserts]
  · have none : ¬ ListInserts enableElos s [] list p := by
      rintro ⟨pre, d, post, same, -⟩
      cases pre <;> cases same
    simp [depListHandler, ValueInserts, none]
  · cases memOk with
    | false => simp [depListHandler, ValueInserts]
    | true => simpa [depListHandler, ValueInserts] using depListLoop_has (d :: ds)

theorem absent_of_inserts {tempDeps : Option (List DepEntry)} {memOk : Bool}
    (inserts : ValueInserts enableElos s tempDeps memOk list p) : p.has s = false := by
  obtain ⟨-, ds, -, pre, d, post, -, -, -, -, absent, -⟩ := inserts
  rw [← Bool.not_eq_true] at absent ⊢
  exact fun has => absent ((depListLoop_has pre).2 (.inl has))

end List

/-! ### What the timer thread makes of the pool -/

def TimerSlot.fired (s : TimerSlot) : Bool := s.revents = pollIn

def served (ready : Int) (w : TimerWorld) : List TaskDep :=
  if ready = -1 ∨ w.pool.event.revents &&& pollIn ≠ 0#16 then []
  else (w.pool.timers.filter TimerSlot.fired).map timerDep

def fulfilAll (deps : List TaskDep) (db : TaskDB) : TaskDB :=
  deps.foldl (fun db dep => (db.fulfillDep dep none).db) db

theorem runSlots_db (nextTime : Timer → Timespec) (turns i : Nat) {held : List Mutex}
    (locked : .timerPool ∈ held)
    (free : .taskDB ∉ held) (w : TimerWorld) (enough : w.pool.slots.length ≤ i + turns)
    {h : Holding Mutex TimerWorld}
    (done : (runSlots nextTime turns i).run ⟨held, w⟩ = some ((), h)) :
    h.state.db = fulfilAll (((w.pool.slots.drop i).filter TimerSlot.fired).map timerDep) w.db := by
  induction turns generalizing i w with
  | zero =>
    rw [drop_eq_nil_of_le (by simpa using enough)]
    cases done
    rfl
  | succ turns ih =>
    unfold runSlots at done
    simp only [StateT.run_bind, access_run, Option.bind_eq_bind, Option.bind_some] at done
    by_cases inside : i < w.pool.slots.length
    · rw [getElem?_eq_getElem inside] at done
      rw [drop_eq_getElem_cons inside]
      generalize w.pool.slots[i] = slot at done ⊢
      dsimp only at done
      by_cases fired : slot.revents = pollIn
      · have fulfil := fulfillDepCalls_run (s := ⟨held, w⟩)
          (show (timerDep slot).name = timerDepName from rfl) locked free
        have hit : slot.fired = true := decide_eq_true fired
        simp only [fired, if_true, StateT.run_bind, fulfil] at done
        split_ifs at done with waits
        · cases done
        · have rest := ih (i + 1) ⟨w.pool.reset nextTime i,
            (w.db.fulfillDep (timerDep slot) none).db⟩ (by rw [reset_length]; omega) done
          rw [rest, reset_drop, filter_cons, if_pos hit]
          rfl
      · have miss : ¬ slot.fired = true := by simpa [TimerSlot.fired] using fired
        simp only [fired, if_false] at done
        rw [filter_cons, if_neg miss]
        exact ih (i + 1) w (by omega) done
    · rw [getElem?_eq_none (by omega)] at done
      rw [drop_eq_nil_of_le (by omega)]
      cases done
      rfl

/-- An iteration that gets through fulfils the dependencies of the fired timers. -/
theorem runPool_db {ready : Int} {nextTime : Timer → Timespec} {w : TimerWorld} {goes : Bool}
    {h : Holding Mutex TimerWorld} (done : (runPool ready nextTime).run ⟨[], w⟩ = some (goes, h)) :
    h.state.db = fulfilAll (served ready w) w.db := by
  unfold runPool at done
  unfold served
  by_cases failed : ready = -1
  · rw [if_pos failed] at done
    rw [if_pos (.inl failed)]
    cases done
    rfl
  · simp only [failed, if_false, bind_pure_comp, StateT.run_map] at done
    obtain ⟨⟨_, h'⟩, inner, same⟩ := Option.map_eq_some_iff.1 done
    cases same
    rw [critical_free not_mem_nil] at inner
    obtain ⟨⟨_, h''⟩, body, same⟩ := Option.map_eq_some_iff.1 inner
    cases same
    rw [serveSlots] at body
    simp only [StateT.run_bind, access_run, Option.bind_eq_bind, Option.bind_some] at body
    split_ifs at body with update
    · cases body
      simp [update, fulfilAll]
    · -- slot 0 cannot fire in the loop
      have quiet : ¬ w.pool.event.fired = true := by
        simp only [TimerSlot.fired, decide_eq_true_eq]
        intro eq
        rw [eq] at update
        exact update (by decide)
      have slots := runSlots_db nextTime w.pool.slots.length 0 (List.mem_singleton.2 rfl)
        (by decide) w (by omega) body
      rw [if_neg (by simpa [failed] using update)]
      rw [drop_zero, TimerDB.slots, filter_cons, if_neg quiet] at slots
      exact slots

theorem mem_served {ready : Int} {w : TimerWorld} {s : String}
    (mem : ⟨timerDepName, s⟩ ∈ served ready w) :
    s ∈ w.pool.timers.map fun slot => slot.timer.name := by
  unfold served at mem
  split_ifs at mem
  · cases mem
  · obtain ⟨slot, there, same⟩ := List.mem_map.1 mem
    cases same
    exact List.mem_map.2 ⟨slot, (List.mem_filter.1 there).1, rfl⟩

/-- A string that `crinitTimerParse` rejects does not get into the pool, and no iteration
of the timer thread on a pool of the same timers fulfils its dependency. -/
def StaysOut (s : String) (before after : TimerDB) : Prop :=
  (timerParse s.toList).1 = false → before.has s = false → after.has s = false ∧
    ∀ (ready : Int) (w : TimerWorld),
      (w.pool.timers.map fun slot => slot.timer.name) =
        (after.timers.map fun slot => slot.timer.name) →
      ⟨timerDepName, s⟩ ∉ served ready w

theorem has_iff_name {p : TimerDB} {s : String} :
    p.has s = true ↔ s ∈ p.timers.map fun slot => slot.timer.name := by
  simp [TimerDB.has, TimerSlot.named]

/-- A rejected string is inserted like any other one. It stays out only where the pool
has the timer or no room, or the kernel gives no timer for it. -/
theorem rejected_stays_out_iff (enableElos : Bool) (tempDeps : Option (List DepEntry))
    (memOk : Bool) (list : List TaskDep) (p : TimerDB) (s : String) :
    StaysOut s p (depListHandler enableElos tempDeps memOk list p).pool ↔
      (timerParse s.toList).1 = true ∨ ¬ ValueInserts enableElos s tempDeps memOk list p := by
  have has : (depListHandler enableElos tempDeps memOk list p).pool.has s = true ↔ _ :=
    depListHandler_has tempDeps memOk
  constructor
  · intro out
    by_cases accepted : (timerParse s.toList).1 = true
    · exact .inl accepted
    · refine .inr fun inserts => ?_
      have absent := (out (Bool.eq_false_iff.2 accepted) (absent_of_inserts inserts)).1
      rw [has.2 (.inr inserts)] at absent
      cases absent
  · intro out rejected absent
    have still : (depListHandler enableElos tempDeps memOk list p).pool.has s ≠ true := by
      rw [Ne, has]
      rintro (there | inserts)
      · rw [absent] at there
        cases there
      · rcases out with accepted | not
        · rw [rejected] at accepted
          cases accepted
        · exact not inserts
    refine ⟨Bool.eq_false_iff.2 still, fun ready w same mem => still (has_iff_name.2 ?_)⟩
    rw [← same]
    exact mem_served mem

def misspelt : String := "Wednsday-2030-10-25-00..23:00..59:00"

def misspeltTask : Int × Task × TimerDB :=
  cfgTrigHandler false (some [{ text := "@timer:" ++ misspelt }]) true
    { name := "report", triggered := false } {}

def TimerDB.allFired (p : TimerDB) : TimerDB :=
  { p with timers := p.timers.map fun slot => { slot with revents := pollIn } }

/-- Its timer gets the default definition, every midnight, and starts the task. -/
theorem misspelt_fires : (timerParse misspelt.toList) = (false, timerSetDefault) ∧
    misspeltTask.1 = 0 ∧ misspeltTask.2.2.has misspelt = true ∧
      ¬ StaysOut misspelt {} misspeltTask.2.2 ∧
    ((runPool 1 Timer.next).run ⟨[],
      ⟨misspeltTask.2.2.allFired, { taskSet := [misspeltTask.2.1] }⟩⟩).map
      (fun r => r.2.state.db.taskSet.map Task.triggered) = some [true] := by
  have rejected : timerParse misspelt.toList = (false, timerSetDefault) := by decide +kernel
  have added : misspeltTask.2.2.has misspelt = true := by decide +kernel
  refine ⟨rejected, by decide +kernel, added, fun out => ?_, by decide +kernel⟩
  have absent := (out (by rw [rejected]) rfl).1
  rw [added] at absent
  cases absent

def misspeltFired : TimerWorld := ⟨misspeltTask.2.2.allFired, { taskSet := [misspeltTask.2.1] }⟩

theorem misspelt_served : ∃ goes h, (runPool 1 Timer.next).run ⟨[], misspeltFired⟩ =
    some (goes, h) ∧ h.state.db = fulfilAll [⟨timerDepName, misspelt⟩] misspeltFired.db := by
  have runs : ((runPool 1 Timer.next).run ⟨[], misspeltFired⟩).isSome = true := by decide +kernel
  obtain ⟨⟨goes, h⟩, done⟩ := Option.isSome_iff_exists.mp runs
  have fired : served 1 misspeltFired = [⟨timerDepName, misspelt⟩] := by decide +kernel
  exact ⟨goes, h, done, fired ▸ runPool_db done⟩

end Crinit
