import Mathlib.Data.List.Nodup
import Mathlib.Data.List.Induction
import Mathlib.Logic.Function.Basic

/-! Maps that keep their keys in the order of the first insertion, and lists that
represent them. -/
namespace OrderedMap

open List

variable {K V : Type} [DecidableEq K]

structure Map (K V : Type) where
  keys : List K
  value : K → Option V
  nodup : keys.Nodup
  known : ∀ k, k ∈ keys ↔ (value k).isSome = true

structure Insertion (K V : Type) where
  key : K
  value : V
  overwrite : Bool

def empty : Map K V := ⟨[], fun _ => none, nodup_nil, by simp⟩

def Map.put (m : Map K V) (k : K) (v : V) : Map K V where
  keys := if k ∈ m.keys then m.keys else m.keys ++ [k]
  value := Function.update m.value k (some v)
  nodup := by
    split_ifs with old
    · exact m.nodup
    · exact List.nodup_append_comm.1 (List.nodup_cons.2 ⟨old, m.nodup⟩)
  known k' := by
    by_cases same : k' = k
    · subst same
      split_ifs <;> simp_all
    · rw [Function.update_of_ne same, ← m.known k']
      split_ifs <;> simp [same]

def Map.insert (m : Map K V) (i : Insertion K V) : Map K V :=
  if i.overwrite = false ∧ i.key ∈ m.keys then m else m.put i.key i.value

def run (is : List (Insertion K V)) : Map K V := is.foldl Map.insert empty

def acceptedFrom (earlier : List K) : List (Insertion K V) → List (Insertion K V)
  | [] => []
  | i :: is =>
    if i.overwrite = false ∧ i.key ∈ earlier then acceptedFrom (earlier ++ [i.key]) is
    else i :: acceptedFrom (earlier ++ [i.key]) is

def accepted (is : List (Insertion K V)) : List (Insertion K V) := acceptedFrom [] is

/-! ### What a history of insertions leaves -/

theorem run_snoc (is : List (Insertion K V)) (i : Insertion K V) :
    run (is ++ [i]) = (run is).insert i := by
  rw [run, foldl_append]
  rfl

theorem acceptedFrom_append (earlier : List K) (is js : List (Insertion K V)) :
    acceptedFrom earlier (is ++ js) =
      acceptedFrom earlier is ++ acceptedFrom (earlier ++ is.map Insertion.key) js := by
  induction is generalizing earlier with
  | nil => simp [acceptedFrom]
  | cons i is ih =>
    simp only [cons_append, acceptedFrom, ih, map_cons, append_assoc, nil_append]
    split_ifs <;> rfl

theorem accepted_snoc (is : List (Insertion K V)) (i : Insertion K V) :
    accepted (is ++ [i]) = accepted is ++
      if i.overwrite = false ∧ i.key ∈ is.map Insertion.key then [] else [i] := by
  rw [accepted, acceptedFrom_append, nil_append]
  rfl

theorem eraseDups_snoc (ks : List K) (k : K) :
    (ks ++ [k]).eraseDups = if k ∈ ks then ks.eraseDups else ks.eraseDups ++ [k] := by
  rw [eraseDups_append]
  by_cases old : k ∈ ks
  · simp [List.removeAll, old]
  · simp [List.removeAll, old, eraseDups_cons]

theorem insert_keys (m : Map K V) (i : Insertion K V) :
    (m.insert i).keys = if i.key ∈ m.keys then m.keys else m.keys ++ [i.key] := by
  unfold Map.insert
  split_ifs with refused old old
  · rfl
  · exact absurd refused.2 old
  · exact if_pos old
  · exact if_neg old

theorem run_keys (is : List (Insertion K V)) :
    (run is).keys = (is.map Insertion.key).eraseDups := by
  induction is using List.reverseRecOn with
  | nil => rfl
  | append_singleton is i ih =>
    rw [run_snoc, insert_keys, ih, map_append, map_singleton, eraseDups_snoc]
    simp only [mem_eraseDups]

theorem run_value (is : List (Insertion K V)) (k : K) : (run is).value k =
    ((accepted is).filter fun i => i.key = k).getLast?.map Insertion.value := by
  induction is using List.reverseRecOn with
  | nil => rfl
  | append_singleton is i ih =>
    have old : i.key ∈ (run is).keys ↔ i.key ∈ is.map Insertion.key := by
      rw [run_keys, mem_eraseDups]
    rw [run_snoc, accepted_snoc, Map.insert]
    simp only [old]
    split_ifs
    · rw [append_nil, ih]
    · by_cases same : i.key = k
      · subst same
        simp [Map.put]
      · simp [Map.put, Function.update_of_ne (Ne.symm same), same, ih]

/-! ### Lists of values with their keys inside -/

structure Represents (key : V → K) (vs : List V) (m : Map K V) : Prop where
  keys : vs.map key = m.keys
  find : ∀ k, vs.find? (fun v => key v = k) = m.value k

theorem represents_empty (key : V → K) : Represents key [] empty := ⟨rfl, fun _ => rfl⟩

variable {key : V → K} {vs : List V} {m : Map K V}

theorem Represents.known (represents : Represents key vs m) (k : K) :
    k ∈ m.keys ↔ ∃ v, vs.find? (fun v => key v = k) = some v := by
  rw [m.known, ← represents.find, Option.isSome_iff_exists]

theorem Represents.append (represents : Represents key vs m) (v : V) (new : key v ∉ m.keys) :
    Represents key (vs ++ [v]) (m.put (key v) v) := by
  refine ⟨?_, fun k => ?_⟩
  · rw [map_append, represents.keys]
    exact (if_neg new).symm
  · rw [find?_append, represents.find]
    by_cases same : k = key v
    · subst same
      have none : m.value (key v) = none := by
        rwa [m.known, Bool.not_eq_true, Option.isSome_eq_false_iff, Option.isNone_iff_eq_none]
          at new
      simp [none, Map.put]
    · simp [Map.put, Function.update_of_ne same, Ne.symm same]

theorem Represents.replace {vs' : List V} (represents : Represents key vs m) (v : V)
    (old : key v ∈ m.keys) (keys : vs'.map key = vs.map key)
    (find : ∀ k, vs'.find? (fun v => key v = k) =
      if k = key v then some v else vs.find? (fun v => key v = k)) :
    Represents key vs' (m.put (key v) v) := by
  refine ⟨?_, fun k => ?_⟩
  · rw [keys, represents.keys]
    exact (if_pos old).symm
  · rw [find, represents.find]
    exact (Function.update_apply m.value (key v) (some v) k).symm

end OrderedMap
