import Crinit.Lib.SwapRemove
import Crinit.TimerAdd

/-! The reference counts of the timer pool, raised by `crinitTimerDBAddTimer` and
lowered by `crinitTimerDBRemoveTimer`. -/
namespace Crinit

open List Locks SwapRemove

def slotRefs (e : String) (slots : List TimerSlot) : Nat :=
  ((slots.filter (TimerSlot.named e)).map fun s => s.timer.refs).sum

def TimerDB.refs (p : TimerDB) (e : String) : Nat := slotRefs e p.timers

def slotNames (slots : List TimerSlot) : List String := slots.map fun s => s.timer.name

structure SlotsOk (slots : List TimerSlot) : Prop where
  distinct : (slotNames slots).Nodup
  positive : ∀ s ∈ slots, 0 < s.timer.refs

section Slots

variable {e x : String} {s : TimerSlot} {slots : List TimerSlot}

theorem slotRefs_append (l l' : List TimerSlot) :
    slotRefs e (l ++ l') = slotRefs e l + slotRefs e l' := by
  simp [slotRefs]

theorem slotRefs_cons : slotRefs e (s :: slots) = (if s.timer.name = e then s.timer.refs else 0) +
      slotRefs e slots := by
  by_cases named : s.timer.name = e <;> simp [slotRefs, TimerSlot.named, named]

variable {l l' : List TimerSlot}

theorem slotRefs_perm (perm : l.Perm l') : slotRefs e l = slotRefs e l' :=
  ((perm.filter _).map _).sum_nat

theorem slotsOk_perm (perm : l.Perm l') (ok : SlotsOk l') : SlotsOk l :=
  ⟨((perm.map _).nodup_iff).2 ok.distinct, fun s mem => ok.positive s (perm.subset mem)⟩

theorem slotsOk_of_sublist (sub : l.Sublist l') (ok : SlotsOk l') : SlotsOk l :=
  ⟨ok.distinct.sublist (sub.map _), fun s mem => ok.positive s (sub.subset mem)⟩

variable {p : TimerDB}

theorem has_of_refs (needed : 0 < p.refs e) : p.has e = true := by
  by_contra absent
  have none : p.timers.filter (TimerSlot.named e) = [] := by
    simpa [TimerDB.has, filter_eq_nil_iff] using absent
  simp [TimerDB.refs, slotRefs, none] at needed

theorem refFirst_names : slotNames (refFirst e slots) = slotNames slots := by
  induction slots with
  | nil => rfl
  | cons s rest ih =>
    rw [refFirst]
    split_ifs
    · rfl
    · exact congrArg (s.timer.name :: ·) ih

theorem refFirst_refs (there : slots.any (TimerSlot.named e) = true) :
    slotRefs x (refFirst e slots) = slotRefs x slots + if x = e then 1 else 0 := by
  induction slots with
  | nil => cases there
  | cons s rest ih =>
    rw [refFirst]
    by_cases hit : s.timer.name = e
    · have named : s.named e = true := decide_eq_true hit
      subst hit
      rw [if_pos named, slotRefs_cons, slotRefs_cons]
      by_cases same : s.timer.name = x
      · simp only [TimerSlot.ref, same, if_true]
        omega
      · simp only [TimerSlot.ref, same, Ne.symm same, if_false]
        omega
    · have other : ¬ s.named e = true := by simpa [TimerSlot.named] using hit
      rw [any_cons, Bool.or_eq_true, or_iff_right other] at there
      rw [if_neg other, slotRefs_cons, slotRefs_cons, ih there, Nat.add_assoc]

theorem refFirst_positive (positive : ∀ s ∈ slots, 0 < s.timer.refs) :
    ∀ s ∈ refFirst e slots, 0 < s.timer.refs := by
  induction slots with
  | nil => exact positive
  | cons s rest ih =>
    have later := fun t mem => positive t (mem_cons_of_mem s mem)
    rw [refFirst]
    split_ifs
    · exact List.forall_mem_cons.2 ⟨Nat.succ_pos _, later⟩
    · exact List.forall_mem_cons.2 ⟨positive s mem_cons_self, ih later⟩

structure Addable (sys : TimerSys) (p : TimerDB) : Prop where
  room : p.slots.length < timerDbInitialCap
  opened : sys.fd ≠ -1
  set : sys.settimeOk = true

theorem addTimer_refs {sys : TimerSys} (ok : SlotsOk p.timers) (addable : Addable sys p) :
    SlotsOk (addTimer sys e p).timers ∧ (addTimer sys e p).slots.length ≤ p.slots.length + 1 ∧
      ∀ x, (addTimer sys e p).refs x = p.refs x + if x = e then 1 else 0 := by
  unfold addTimer
  split_ifs with there
  · have names : slotNames (refFirst e p.timers) = slotNames p.timers := refFirst_names
    have length := congrArg List.length names
    simp only [slotNames, length_map] at length
    refine ⟨⟨?_, refFirst_positive ok.positive⟩, ?_, fun x => refFirst_refs there⟩
    · rw [refTimer, refFirst_names]
      exact ok.distinct
    · simp [refTimer, TimerDB.slots, length]
  · have inserted : (insertTimer sys (newTimer sys e) p).2.timers =
        p.timers ++ [{ timer := newTimer sys e, fd := sys.fd, revents := sys.revents }] := by
      simp [insertTimer, Nat.not_le.2 addable.room, addable.opened, addable.set]
    have new : e ∉ slotNames p.timers := fun mem => there (has_iff_name.2 mem)
    refine ⟨⟨?_, ?_⟩, ?_, fun x => ?_⟩
    · rw [inserted]
      simpa [slotNames, newTimer, nodup_append] using ⟨ok.distinct, fun s mem same => new (by
        rw [← same]
        exact mem_map_of_mem mem)⟩
    · rw [inserted]
      intro s mem
      rcases List.mem_append.1 mem with old | added
      · exact ok.positive s old
      · cases List.mem_singleton.1 added
        exact Nat.one_pos
    · simp [TimerDB.slots, inserted]
    · rw [TimerDB.refs, inserted, slotRefs_append, slotRefs_cons]
      by_cases same : e = x
      · simp [newTimer, slotRefs, TimerDB.refs, same]
      · simp [newTimer, slotRefs, TimerDB.refs, same, Ne.symm same]

theorem removeTimerLoop_idle (turns i : Nat)
    (other : ∀ k s, i ≤ k → p.timers[k]? = some s → s.timer.name ≠ e) :
    removeTimerLoop e turns i p = p := by
  induction turns generalizing i with
  | zero => rfl
  | succ turns ih =>
    rw [removeTimerLoop]
    split_ifs with inside
    · have same : removeTimerAt e p i = p := by
        rw [removeTimerAt, getElem?_eq_getElem inside]
        exact if_neg (other i _ (Nat.le_refl i) (getElem?_eq_getElem inside))
      rw [same]
      exact ih (i + 1) fun k s behind => other k s (by omega)
    · rfl

theorem removeTimerLoop_skip (turns i d : Nat) (inside : i + d ≤ p.timers.length)
    (other : ∀ k s, k < i + d → p.timers[k]? = some s → s.timer.name ≠ e) :
    removeTimerLoop e (turns + d) i p = removeTimerLoop e turns (i + d) p := by
  induction d generalizing i with
  | zero => rfl
  | succ d ih =>
    have here : i < p.timers.length := by omega
    have same : removeTimerAt e p i = p := by
      rw [removeTimerAt, getElem?_eq_getElem here]
      exact if_neg (other i _ (by omega) (getElem?_eq_getElem here))
    have rest := ih (i + 1) (by omega) fun k s before => other k s (by omega)
    rw [← Nat.add_assoc, removeTimerLoop, if_pos here, same, rest]
    congr 1
    omega

def TimerSlot.unref (s : TimerSlot) : TimerSlot :=
  { s with timer := { s.timer with refs := s.timer.refs - 1 } }

theorem removeTimerAt_last {pre post : List TimerSlot} (split : p.timers = pre ++ s :: post)
    (hit : s.timer.name = e) (last : s.timer.refs - 1 = 0) :
    (removeTimerAt e p pre.length).timers.Perm (pre ++ post) := by
  have there : p.timers[pre.length]? = some s := by simp [split]
  have swapped : (removeTimerAt e p pre.length).timers =
    swapRemove p.timers pre.length s.unref := by
    simp only [removeTimerAt, there, hit, if_true, last, swapRemove, TimerSlot.unref]
  rw [swapped, split]
  exact swapRemove_perm pre post s s.unref

theorem removeTimerAt_more {pre post : List TimerSlot} (split : p.timers = pre ++ s :: post)
    (hit : s.timer.name = e) (more : s.timer.refs - 1 ≠ 0) :
    (removeTimerAt e p pre.length).timers = pre ++ s.unref :: post := by
  have there : p.timers[pre.length]? = some s := by simp [split]
  have lowered : (removeTimerAt e p pre.length).timers = p.timers.set pre.length s.unref := by
    simp only [removeTimerAt, there, hit, if_true, more, if_false, TimerSlot.unref]
  rw [lowered, split]
  simp

section Met

variable {pre post : List TimerSlot}

theorem slotsOk_apart (ok : SlotsOk (pre ++ s :: post)) {t : TimerSlot} (mem : t ∈ pre ++ post) :
    t.timer.name ≠ s.timer.name := by
  have names := ok.distinct
  rw [slotNames, map_append, map_cons, nodup_append] at names
  obtain ⟨-, inner, apart⟩ := names
  intro same
  rcases List.mem_append.1 mem with before | after
  · exact apart _ (mem_map_of_mem before) _ mem_cons_self same
  · refine (List.nodup_cons.1 inner).1 ?_
    rw [← same]
    exact mem_map_of_mem after

theorem slots_without (ok : SlotsOk (pre ++ s :: post)) (last : s.timer.refs - 1 = 0) :
    SlotsOk (pre ++ post) ∧ ∀ x, slotRefs x (pre ++ post) =
      slotRefs x (pre ++ s :: post) - if x = s.timer.name then 1 else 0 := by
  have one : 0 < s.timer.refs := ok.positive s (by simp)
  refine ⟨slotsOk_of_sublist ((sublist_cons_self s post).append_left pre) ok, fun x => ?_⟩
  rw [slotRefs_append, slotRefs_append, slotRefs_cons]
  by_cases same : s.timer.name = x
  · simp only [same, if_true]
    omega
  · simp only [same, Ne.symm same, if_false]
    omega

theorem slots_unref (ok : SlotsOk (pre ++ s :: post)) (more : s.timer.refs - 1 ≠ 0) :
    SlotsOk (pre ++ s.unref :: post) ∧ ∀ x, slotRefs x (pre ++ s.unref :: post) =
      slotRefs x (pre ++ s :: post) - if x = s.timer.name then 1 else 0 := by
  have names : slotNames (pre ++ s.unref :: post) = slotNames (pre ++ s :: post) := by
    simp [slotNames, TimerSlot.unref]
  refine ⟨⟨names ▸ ok.distinct, fun t mem => ?_⟩, fun x => ?_⟩
  · rcases List.mem_append.1 mem with before | here
    · exact ok.positive t (mem_append_left _ before)
    · rcases List.mem_cons.1 here with rfl | after
      · exact Nat.pos_of_ne_zero more
      · exact ok.positive t (mem_append_right _ (mem_cons_of_mem s after))
  · rw [slotRefs_append, slotRefs_append, slotRefs_cons, slotRefs_cons]
    by_cases same : s.timer.name = x
    · simp only [TimerSlot.unref, same, if_true]
      omega
    · simp only [TimerSlot.unref, same, Ne.symm same, if_false]
      omega

/-- The loop changes the pool where it meets the name, and nowhere behind it. -/
theorem removeTimerLoop_met (split : p.timers = pre ++ s :: post)
    (before : ∀ t ∈ pre, t.timer.name ≠ e) (quiet : ∀ k t, pre.length + 1 ≤ k →
      (removeTimerAt e p pre.length).timers[k]? = some t → t.timer.name ≠ e) :
    removeTimerLoop e p.timers.length 0 p = removeTimerAt e p pre.length := by
  have length : p.timers.length = post.length + 1 + pre.length := by
    simp only [split, length_append, length_cons]
    omega
  have skip := removeTimerLoop_skip (e := e) (p := p) (post.length + 1) 0 pre.length (by omega)
    fun k t lt there => by
      rw [split, getElem?_append_left (by omega)] at there
      exact before t (mem_of_getElem? there)
  rw [length, skip, Nat.zero_add, removeTimerLoop, if_pos (by omega),
    removeTimerLoop_idle _ _ quiet]

end Met

theorem refs_missing (missing : e ∉ slotNames p.timers) : p.refs e = 0 := by
  by_contra some
  exact missing (has_iff_name.1 (has_of_refs (Nat.pos_of_ne_zero some)))

/-- A call gives back one reference of the name, if there is one. -/
theorem removeTimer_refs (ok : SlotsOk p.timers) :
    SlotsOk (removeTimerLoop e p.timers.length 0 p).timers ∧
      ∀ x, (removeTimerLoop e p.timers.length 0 p).refs x = p.refs x - if x = e then 1 else 0 := by
  by_cases there : e ∈ slotNames p.timers
  · obtain ⟨s, mem, rfl⟩ := List.mem_map.1 there
    obtain ⟨pre, post, split⟩ := append_of_mem mem
    have whole : SlotsOk (pre ++ s :: post) := split ▸ ok
    have before (t : TimerSlot) (mem : t ∈ pre) := slotsOk_apart whole (mem_append_left _ mem)
    unfold TimerDB.refs
    by_cases last : s.timer.refs - 1 = 0
    · have perm := removeTimerAt_last split rfl last
      rw [removeTimerLoop_met split before fun k t _ found =>
        slotsOk_apart whole (perm.subset (mem_of_getElem? found)), split]
      obtain ⟨kept, refs⟩ := slots_without whole last
      exact ⟨slotsOk_perm perm kept, fun x => (slotRefs_perm perm).trans (refs x)⟩
    · have more := removeTimerAt_more split rfl last
      rw [removeTimerLoop_met split before fun k t behind found => ?_, more, split]
      · exact slots_unref whole last
      · rw [more, getElem?_append_right (by omega), getElem?_cons,
          if_neg (by omega)] at found
        exact slotsOk_apart whole (mem_append_right _ (mem_of_getElem? found))
  · rw [removeTimerLoop_idle _ _ fun k t _ found same => there (by
      rw [← same]
      exact mem_map_of_mem (mem_of_getElem? found))]
    refine ⟨ok, fun x => ?_⟩
    by_cases same : x = e
    · rw [same, refs_missing there, Nat.zero_sub]
    · rw [if_neg same, Nat.sub_zero]

theorem ensures_removeTimer {h : Holding Mutex TimerWorld} (free : .timerPool ∉ h.held)
    (ok : SlotsOk h.state.pool.timers) :
    Ensures (removeTimer e) h fun _ h' => h'.held = h.held ∧ h'.state.db = h.state.db ∧
      SlotsOk h'.state.pool.timers ∧ ∀ x, h'.state.pool.refs x = h.state.pool.refs x - if x =
        e then 1 else 0 := by
  obtain ⟨kept, refs⟩ := removeTimer_refs (e := e) ok
  exact ensures_critical free ⟨(), _, rfl, erase_cons_head .timerPool h.held, rfl, kept, refs⟩

end Slots

end Crinit
