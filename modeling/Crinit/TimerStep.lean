import Crinit.Timer

/-! `crinitNext` as a cyclic successor. The two ends of the interval are cut to the field one by
one, which is not always the interval cut to the field. -/
namespace Crinit

/-- The result is the first value behind `last`, or without one the first value of all. -/
structure Next (M : Int → Prop) (last : Int) (done : Bool) (res : Int) : Prop where
  member : M res
  found : done = true → last < res ∧ ∀ x, M x → last < x → res ≤ x
  lost : done = false → (∀ x, M x → x ≤ last) ∧ ∀ x, M x → res ≤ x

def FieldValues (r : Int × Int) (start limit v : Int) : Prop :=
  (start ≤ v ∧ v ≤ limit) ∧ InCyclic r v

instance (r : Int × Int) (start limit v : Int) : Decidable (FieldValues r start limit v) :=
  inferInstanceAs (Decidable (_ ∧ _))

structure CyclicSuccessor (S : Int → Prop) (last : Int) (f : NextField) : Prop where
  next : Next S last f.done f.res
  off : f.off = f.res - last

/-- Where the two cut ends stand for the interval: always if it does not wrap around, else if it
reaches the start of the field, or its last value is not the limit, or its upper part is behind the
limit and the last value before the end of the lower part. -/
def CutRight (r : Int × Int) (start limit last : Int) : Prop :=
  r.1 ≤ r.2 ∨
    if 255 < start then r.2 < start % 256
    else if limit < 0 then limit % 256 < r.1
    else if r.1 ≤ limit then r.1 ≤ start ∨ start ≤ r.2 ∨ last ≠ limit
    else last < r.2 ∧ last < limit

instance (r : Int × Int) (start limit last : Int) : Decidable (CutRight r start limit last) := by
  unfold CutRight
  infer_instance

section Step

variable {r : Int × Int} {start limit last : Int}

theorem successor_of_off {S : Int → Prop} {d : Int} (off : nextOff last r start limit = d)
    (member : S (last + d)) (up : 0 < d → ∀ x, S x → last < x → last + d ≤ x)
    (back : d ≤ 0 → ∀ x, S x → x ≤ last ∧ last + d ≤ x) :
    CyclicSuccessor S last (crinitNext last r start limit) := by
  subst off
  refine ⟨⟨member, fun found => ?_, fun lost => ?_⟩, ?_⟩
  · have ahead := of_decide_eq_true found
    exact ⟨Int.lt_add_of_pos_right _ ahead, up ahead⟩
  · have all := back (Int.not_lt.1 (of_decide_eq_false lost))
    exact ⟨fun x inside => (all x inside).1, fun x inside => (all x inside).2⟩
  · rw [crinitNext_off]
    omega

/-- The ends of the interval as they are stored. -/
structure Cut (r : Int × Int) (start limit lo hi : Int) : Prop where
  low : start ≤ r.1 ∧ lo = r.1 ∨ r.1 < start ∧ lo = start % 256
  high : r.2 ≤ limit ∧ hi = r.2 ∨ limit < r.2 ∧ hi = limit % 256

theorem nextOff_cut (bytes : Within 0 255 r) (start limit last : Int) :
    ∃ lo hi, Cut r start limit lo hi ∧ nextOff last r start limit =
      if lo ≤ hi then if lo ≤ last ∧ last < hi then 1 else lo - last
      else if hi ≤ last ∧ last < lo then lo - last
      else if last = limit then -(limit - start) else 1 := by
  obtain ⟨⟨_, _⟩, _, _⟩ := bytes
  refine ⟨u8 (if start ≤ r.1 then r.1 else start), u8 (if r.2 ≤ limit then r.2 else limit),
    ⟨?_, ?_⟩, ?_⟩
  · unfold u8
    split_ifs <;> omega
  · unfold u8
    split_ifs <;> omega
  · simp only [nextOff, coRange, Bool.and_eq_true, decide_eq_true_eq]
    generalize u8 (if start ≤ r.1 then r.1 else start) = lo
    generalize u8 (if r.2 ≤ limit then r.2 else limit) = hi
    split_ifs <;> omega

theorem plain_successor (bytes : Within 0 255 r) (plain : r.1 ≤ r.2)
    (some : ∃ v, FieldValues r start limit v) :
    CyclicSuccessor (FieldValues r start limit) last (crinitNext last r start limit) := by
  have values v : FieldValues r start limit v ↔ (start ≤ v ∧ v ≤ limit) ∧ r.1 ≤ v ∧ v ≤ r.2 := by
    rw [FieldValues, InCyclic, if_pos plain]
  obtain ⟨v, inside⟩ := some
  rw [values] at inside
  obtain ⟨lo, hi, ⟨first, second⟩, off⟩ := nextOff_cut bytes start limit last
  obtain ⟨⟨_, _⟩, _, _⟩ := bytes
  rw [if_pos (by omega)] at off
  split_ifs at off with between <;> apply successor_of_off off <;> simp only [values] <;> omega

theorem wrapping_successor (bytes : Within 0 255 r) (wraps : ¬ r.1 ≤ r.2) (low : start ≤ last)
    (high : last ≤ limit) (right : CutRight r start limit last) :
    CyclicSuccessor (FieldValues r start limit) last (crinitNext last r start limit) := by
  have values v : FieldValues r start limit v ↔ (start ≤ v ∧ v ≤ limit) ∧ (r.1 ≤ v ∨ v ≤ r.2) := by
    rw [FieldValues, InCyclic, if_neg wraps]
  obtain ⟨lo, hi, ⟨first, second⟩, off⟩ := nextOff_cut bytes start limit last
  obtain ⟨⟨_, _⟩, _, _⟩ := bytes
  replace right := right.resolve_left wraps
  have order : ¬ lo ≤ hi := by split_ifs at right <;> omega
  rw [if_neg order] at off
  split_ifs at off <;> apply successor_of_off off <;> simp only [values]
  all_goals split_ifs at right <;> omega

/-- Otherwise the result is not even in the interval and the field. -/
theorem crinitNext_member (bytes : Within 0 255 r) (low : start ≤ last) (high : last ≤ limit)
    (member : FieldValues r start limit (crinitNext last r start limit).res) :
    CutRight r start limit last := by
  obtain ⟨lo, hi, ⟨first, second⟩, off⟩ := nextOff_cut bytes start limit last
  obtain ⟨⟨_, _⟩, _, _⟩ := bytes
  obtain ⟨bounds, inside⟩ := member
  refine or_iff_not_imp_left.2 fun wraps => ?_
  rw [InCyclic, if_neg wraps] at inside
  simp only [crinitNext] at bounds inside
  split_ifs at off <;> split_ifs <;> omega

end Step

/-- The result of `crinitNext` is the next value of the field in the interval, and without one
the first of them. -/
theorem crinitNext_cyclic_iff {r : Int × Int} {start limit last : Int} (bytes : Within 0 255 r)
    (low : start ≤ last) (high : last ≤ limit) (some : ∃ v, FieldValues r start limit v) :
    CyclicSuccessor (FieldValues r start limit) last (crinitNext last r start limit) ↔
      CutRight r start limit last := by
  constructor
  · intro successor
    exact crinitNext_member bytes low high successor.next.member
  · intro right
    by_cases plain : r.1 ≤ r.2
    · exact plain_successor bytes plain some
    · exact wrapping_successor bytes plain low high right

theorem month_end_right :
    CyclicSuccessor (FieldValues (28, 5) 1 30) 30 (crinitNext 30 (28, 5) 1 30) :=
  (crinitNext_cyclic_iff (by decide) (by decide) (by decide) ⟨1, by decide⟩).2 (by decide)

/-- In February the days from the 31st to the 5th are the first five, so that the 1st follows the
5th. The result is the 31st, and it counts as found. -/
theorem february_thirty_first : crinitNext 5 (31, 5) 1 28 = ⟨true, 31, 26⟩ ∧
    FieldValues (31, 5) 1 28 1 ∧
    ¬ CyclicSuccessor (FieldValues (31, 5) 1 28) 5 (crinitNext 5 (31, 5) 1 28) :=
  ⟨by decide, by decide, fun successor => absurd successor.next.member (by decide)⟩

end Crinit
