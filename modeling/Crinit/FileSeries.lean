import Mathlib.Algebra.Group.Int.Defs
import Mathlib.Algebra.Group.Nat.Defs
import Mathlib.Tactic.Common

/-! File series: an array of names with a NULL pointer behind them. The loop that clears the new
elements runs over the difference of the two sizes as an `int`. -/
namespace Crinit

open List

/-- `crinitFileSeries_t`, with the elements that memory is allocated for. Without any the pointer
is NULL. -/
structure FileSeries (α : Type) where
  fnames : List (Option α) := []
  size : Nat := 0
  baseDir : Option String := none
  deriving DecidableEq, Repr

section Series

variable {α : Type}

def FileSeries.store (fse : FileSeries α) (i : Nat) (name : Option α) : FileSeries α :=
  { fse with fnames := fse.fnames.set i name }

def toInt32 (x : Int) : Int := (x + 2 ^ 31) % 2 ^ 32 - 2 ^ 31

/-- `realloc`: elements behind the old ones have any content. -/
def reallocNames (fnames : List (Option α)) (fresh : Nat → Option α) (count : Nat) :
    List (Option α) :=
  (List.range count).map fun i => fnames[i]?.getD (fresh i)

/-- A write behind the end of the memory has no result. -/
def clearNames : Nat → Nat → List (Option α) → Option (List (Option α))
  | 0, _, fnames => some fnames
  | turns + 1, i, fnames =>
    if i < fnames.length then clearNames turns (i + 1) (fnames.set i none) else none

/-- Without `fresh` there is no memory. -/
def resizeFileSeries (fse : FileSeries α) (numElements : Nat) (fresh : Option (Nat → Option α)) :
    Option (Int × FileSeries α) :=
  if numElements = fse.size then some (0, fse)
  else if numElements = 0 then some (-1, fse)
  else match fresh with
    | none => some (-1, fse)
    | some fresh =>
      let fnames := reallocNames fse.fnames fresh ((numElements + 1) * 8 % 2 ^ 64 / 8)
      let elementDiff := toInt32 (numElements - fse.size)
      let last := ((fse.size + elementDiff) % 2 ^ 64).toNat
      (clearNames (last + 1 - fse.size) fse.size fnames).map fun fnames =>
        (0, { fse with fnames := fnames, size := numElements })

def initFileSeries (numElements : Nat) (baseDir : Option String) (duplicated : Bool)
    (fresh : Option (Nat → Option α)) : Option (Int × FileSeries α) :=
  if baseDir.isSome && !duplicated then some (-1, {})
  else resizeFileSeries { baseDir := baseDir } numElements fresh

structure Resized (old : FileSeries α) (n : Nat) (new : FileSeries α) : Prop where
  size : new.size = n
  kept : ∀ i < min old.size n, new.fnames[i]? = old.fnames[i]?
  cleared : ∀ i, old.size ≤ i → i < n → new.fnames[i]? = some none
  ends : new.fnames[n]? = some none

/-- The sizes that the loop is right for: those that grow by an `int`, and those that shrink to an
element that is NULL already. -/
def ResizeRight (fse : FileSeries α) (n : Nat) : Prop :=
  n = fse.size ∨ (fse.size < n ∧ n - fse.size < 2 ^ 31 ∧ n + 1 < 2 ^ 61) ∨
    (n < fse.size ∧ fse.size - n ≤ 2 ^ 31 ∧ fse.fnames[n]? = some none)

inductive SeriesRun : FileSeries α → Prop
  | init {n : Nat} {baseDir : Option String} {duplicated : Bool}
      {fresh : Option (Nat → Option α)} {fse : FileSeries α}
      (right : ResizeRight ({ baseDir := baseDir } : FileSeries α) n)
      (made : initFileSeries n baseDir duplicated fresh = some (0, fse)) : SeriesRun fse
  | store {fse : FileSeries α} (run : SeriesRun fse) {i : Nat} (inside : i < fse.size)
      (name : Option α) : SeriesRun (fse.store i name)
  | resize {fse fse' : FileSeries α} {n : Nat} {fresh : Option (Nat → Option α)}
      (run : SeriesRun fse) (positive : 1 ≤ n) (right : ResizeRight fse n)
      (made : resizeFileSeries fse n fresh = some (0, fse')) : SeriesRun fse'

structure WellFormed (fse : FileSeries α) : Prop where
  room : fse.size + 1 < 2 ^ 61
  array : fse.fnames = [] ∧ fse.size = 0 ∨
    fse.fnames.length = fse.size + 1 ∧ fse.fnames[fse.size]? = some none

variable {fse fse' : FileSeries α} {n : Nat} {fresh : Option (Nat → Option α)}

theorem clearNames_eq {turns i : Nat} {fnames : List (Option α)}
    (room : turns = 0 ∨ i + turns ≤ fnames.length) :
    ∃ cleared, clearNames turns i fnames = some cleared ∧ cleared.length = fnames.length ∧
      ∀ j, cleared[j]? = if i ≤ j ∧ j < i + turns then some none else fnames[j]? := by
  induction turns generalizing i fnames with
  | zero => exact ⟨fnames, rfl, rfl, fun j => by rw [if_neg (by omega)]⟩
  | succ turns ih =>
    obtain ⟨cleared, made, length, names⟩ := @ih (i + 1) (fnames.set i none) (by simp; omega)
    refine ⟨cleared, ?_, by rw [length, length_set], fun j => ?_⟩
    · rw [clearNames, if_pos (by omega), made]
    · rw [names j, getElem?_set]
      split_ifs <;> first | rfl | omega

theorem resize_right (formed : WellFormed fse) (positive : 1 ≤ n) (right : ResizeRight fse n)
    (enough : n = fse.size ∨ fresh.isSome) :
    ∃ fse', resizeFileSeries fse n fresh = some (0, fse') ∧ Resized fse n fse' ∧
      WellFormed fse' := by
  have room := formed.room
  by_cases same : n = fse.size
  · have ends := (formed.array.resolve_left fun empty => by omega).2
    rw [← same] at ends
    exact ⟨fse, if_pos same, ⟨same.symm, fun _ _ => rfl, fun i _ _ => by omega, ends⟩, formed⟩
  obtain ⟨fresh, rfl⟩ := Option.isSome_iff_exists.1 (enough.resolve_left same)
  replace right := right.resolve_left same
  have count : (n + 1) * 8 % 2 ^ 64 / 8 = n + 1 := by omega
  have last : ((fse.size + toInt32 (n - fse.size)) % 2 ^ 64).toNat = n := by
    unfold toInt32
    omega
  have length : (reallocNames fse.fnames fresh (n + 1)).length = n + 1 := by simp [reallocNames]
  have old {i : Nat} (inside : i < n + 1) (known : i < fse.fnames.length) :
      (reallocNames fse.fnames fresh (n + 1))[i]? = fse.fnames[i]? := by
    simp [reallocNames, inside, known]
  obtain ⟨cleared, made, length', names⟩ := @clearNames_eq α (n + 1 - fse.size) fse.size
    (reallocNames fse.fnames fresh (n + 1)) (by omega)
  have ends : cleared[n]? = some none := by
    rw [names]
    split_ifs with grows
    · rfl
    · obtain ⟨less, -, null⟩ := right.resolve_left fun right => by omega
      rw [old (Nat.lt_succ_self n) (List.getElem?_eq_some_iff.1 null).1, null]
  refine ⟨{ fse with fnames := cleared, size := n }, ?_, ⟨rfl, fun i inside => ?_,
    fun i new inside => ?_, ends⟩, ⟨by dsimp only; omega, .inr ⟨?_, ends⟩⟩⟩
  · simp only [resizeFileSeries, if_neg same, if_neg (Nat.ne_of_gt positive), count, last, made]
    rfl
  · have known : i < fse.fnames.length := by
      rcases formed.array with ⟨-, zero⟩ | ⟨long, -⟩ <;> omega
    rw [names, if_neg (by omega), old (by omega) known]
  · rw [names, if_pos (by omega)]
  · rw [length', length]

theorem store_formed (formed : WellFormed fse) {i : Nat} (inside : i < fse.size)
    (name : Option α) : WellFormed (fse.store i name) := by
  refine ⟨formed.room, .inr ?_⟩
  obtain ⟨long, ends⟩ := formed.array.resolve_left fun empty => by omega
  refine ⟨by rw [FileSeries.store, length_set, long], ?_⟩
  simpa [FileSeries.store, getElem?_set, Nat.ne_of_lt inside] using ends

theorem resize_done (formed : WellFormed fse) (positive : 1 ≤ n) (right : ResizeRight fse n)
    (made : resizeFileSeries fse n fresh = some (0, fse')) :
    Resized fse n fse' ∧ WellFormed fse' := by
  have enough : n = fse.size ∨ fresh.isSome := by
    refine or_iff_not_imp_left.2 fun other => Option.isSome_iff_ne_none.2 ?_
    rintro rfl
    simp [resizeFileSeries, other] at made
  obtain ⟨fse₁, made', done⟩ := resize_right formed positive right enough
  cases made.symm.trans made'
  exact done

theorem run_formed (run : SeriesRun fse) : WellFormed fse := by
  induction run with
  | @init n baseDir duplicated fresh fse right made =>
    unfold initFileSeries at made
    split_ifs at made with failed
    · cases made
    have empty : WellFormed ({ baseDir := baseDir } : FileSeries α) :=
      ⟨(by decide : 0 + 1 < 2 ^ 61), .inl ⟨rfl, rfl⟩⟩
    by_cases zero : n = 0
    · subst zero
      cases made
      exact empty
    · exact (resize_done empty (Nat.pos_of_ne_zero zero) right made).2
  | store run inside name ih => exact store_formed ih inside name
  | resize run positive right made ih => exact (resize_done ih positive right made).2

/-- After every call of a run the series has its new size, its old names, NULL for the new ones
and its terminator, and no call writes outside of its memory. -/
theorem file_series_resized (run : SeriesRun fse) (positive : 1 ≤ n) (right : ResizeRight fse n) :
    (∀ fse', resizeFileSeries fse n fresh = some (0, fse') → Resized fse n fse') ∧
      resizeFileSeries fse n fresh ≠ none := by
  refine ⟨fun fse' made => (resize_done (run_formed run) positive right made).1, ?_⟩
  by_cases enough : n = fse.size ∨ fresh.isSome
  · obtain ⟨fse', made, -⟩ := resize_right (run_formed run) positive right enough
    simp [made]
  · simp only [not_or, Option.not_isSome_iff_eq_none] at enough
    simp [resizeFileSeries, enough.1, enough.2, Nat.ne_of_gt positive]

end Series

def threeNames : FileSeries String :=
  ((({ fnames := [none, none, none, none], size := 3 } : FileSeries String).store 0 "a").store 1
    "b").store 2 "c"

theorem threeNames_run : SeriesRun threeNames := by
  have made : SeriesRun { fnames := [none, none, none, none], size := 3 } :=
    @SeriesRun.init _ 3 none true (some fun _ => some "junk") _ (.inr (.inl (by decide)))
      (by decide)
  exact ((made.store (by decide) _).store (by decide) _).store (by decide) _

theorem grown_right : Resized threeNames 5
    { fnames := [some "a", some "b", some "c", none, none, none], size := 5 } :=
  (file_series_resized threeNames_run (by decide) (.inr (.inl (by decide)))).1 _
    (show resizeFileSeries threeNames 5 (some fun _ => some "junk") = _ by decide)

/-- After shrinking, the element behind the last name is the third name and not NULL. -/
theorem shrunk_without_end : SeriesRun threeNames ∧
    resizeFileSeries threeNames 2 (some fun _ => none) =
      some (0, { fnames := [some "a", some "b", some "c"], size := 2 }) ∧
    ¬ Resized threeNames 2 { fnames := [some "a", some "b", some "c"], size := 2 } :=
  ⟨threeNames_run, by decide, fun resized => absurd resized.ends (by decide)⟩

end Crinit
