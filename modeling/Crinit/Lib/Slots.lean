import Mathlib.Data.List.Basic

/-! Arrays of pointers whose elements stand at the start and are followed by NULL pointers. -/
namespace Slots

open List

variable {α : Type} {p : α → Bool} {l : List α} {a : α} {i free limit : Nat}

def ofList (l : List α) (free : Nat) : List (Option α) := l.map some ++ List.replicate free none

/-- The first place up to `limit`, counted from `i`, that is NULL or has an element with the
property. A read behind the end of the array has no result. -/
def scan (p : α → Bool) (limit : Nat) : Nat → List (Option α) → Option Nat
  | i, [] => if i < limit then none else some i
  | i, none :: _ => some i
  | i, some a :: slots => if i < limit ∧ p a = false then scan p limit (i + 1) slots else some i

/-- Copies the elements up to the first NULL, from place `i` on. The inner `none` is an element
that could not be copied, the outer one an access behind the end of an array. -/
def copy (ok : Nat → Bool) :
    Nat → List (Option α) → List (Option α) → Option (Option (List (Option α)))
  | _, [], _ => none
  | _, none :: _, tgt => some (some tgt)
  | i, some a :: src, tgt =>
    if i < tgt.length then
      if ok i then copy ok (i + 1) src (tgt.set i (some a)) else some none
    else none

def elements : List (Option α) → Option (List α)
  | [] => none
  | none :: _ => some []
  | some a :: slots => (elements slots).map (a :: ·)

theorem elements_append (l : List α) (behind : List (Option α)) :
    elements (l.map some ++ none :: behind) = some l := by
  induction l with
  | nil => rfl
  | cons a l ih =>
    rw [map_cons, cons_append, elements, ih]
    rfl

theorem elements_ofList (l : List α) (free : Nat) : elements (ofList l (free + 1)) = some l :=
  elements_append l (List.replicate free none)

@[simp] theorem length_ofList (l : List α) (free : Nat) :
    (ofList l free).length = l.length + free := by
  simp [ofList]

theorem ofList_cons (a : α) (l : List α) (free : Nat) :
    ofList (a :: l) free = some a :: ofList l free :=
  rfl

theorem ofList_append (l : List α) (free more : Nat) :
    ofList l free ++ List.replicate more none = ofList l (free + more) := by
  rw [ofList, ofList, append_assoc, replicate_append_replicate]

theorem getElem?_ofList (l : List α) (free : Nat) (i : Nat) (inside : i < l.length + free) :
    (ofList l free)[i]? = some l[i]? := by
  rw [ofList, getElem?_append]
  split_ifs with low
  · rw [length_map] at low
    simp [low]
  · rw [length_map] at low
    rw [length_map, getElem?_replicate, if_pos (by omega),
      getElem?_eq_none (Nat.not_lt.1 low)]

theorem set_ofList (inside : i < l.length) (a : α) (free : Nat) :
    (ofList l free).set i (some a) = ofList (l.set i a) free := by
  rw [ofList, set_append_left _ _ (by simpa using inside), ← map_set]
  rfl

theorem set_first_free (l : List α) (a : α) (free : Nat) :
    (ofList l (free + 1)).set l.length (some a) = ofList (l ++ [a]) free := by
  simp [ofList, replicate_succ]

theorem set_free_none (l : List α) (free : Nat) :
    (ofList l free).set l.length none = ofList l free := by
  cases free with
  | zero => exact set_eq_of_length_le (by simp)
  | succ free => simp [ofList, replicate_succ]

theorem scan_ofList (p : α → Bool) (some : 0 < free) (enough : i + l.length < limit) :
    scan p limit i (ofList l free) = .some (i + l.findIdx p) := by
  induction l generalizing i with
  | nil =>
    obtain ⟨free, rfl⟩ := Nat.exists_eq_succ_of_ne_zero (Nat.ne_of_gt some)
    rfl
  | cons a l ih =>
    rw [length_cons] at enough
    rw [ofList_cons, scan, findIdx_cons]
    cases found : p a with
    | true => simp
    | false =>
      rw [if_pos ⟨by omega, rfl⟩, ih (by omega)]
      simp [Nat.add_assoc, Nat.add_comm 1]

theorem copy_ofList {ok : Nat → Bool} {done : List α} (rest : 0 < free) (room : Nat)
    (fits : l.length ≤ room) :
    copy ok done.length (ofList l free) (ofList done room) =
      if ∀ i < l.length, ok (done.length + i) = true then
        some (some (ofList (done ++ l) (room - l.length)))
      else some none := by
  induction l generalizing done room with
  | nil =>
    obtain ⟨free, rfl⟩ := Nat.exists_eq_succ_of_ne_zero (Nat.ne_of_gt rest)
    simp only [append_nil, length_nil, Nat.sub_zero, Nat.not_lt_zero, false_imp_iff,
      implies_true, if_true]
    rfl
  | cons a l ih =>
    rw [length_cons] at fits
    obtain ⟨room, rfl⟩ : ∃ k, room = k + 1 := ⟨room - 1, by omega⟩
    rw [ofList_cons, copy, if_pos (by simp), set_first_free]
    by_cases first : ok done.length = true
    · have later := @ih (done ++ [a]) room (by omega)
      rw [length_append, length_singleton] at later
      rw [if_pos first, later]
      have all : (∀ i < l.length, ok (done.length + 1 + i) = true) ↔
          ∀ i < (a :: l).length, ok (done.length + i) = true := by
        rw [length_cons, Nat.forall_lt_succ_left]
        simp [first, Nat.add_assoc, Nat.add_comm 1]
      simp only [all, append_assoc, singleton_append, length_cons, Nat.add_sub_add_right]
    · rw [if_neg first, if_neg]
      intro all
      exact first (all 0 (Nat.succ_pos _))

end Slots
