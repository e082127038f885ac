import Mathlib.Data.List.TakeWhile
import Mathlib.Tactic.Common

/-! Sets of environment variables: an array of strings of the form `KEY=value` that ends
with a NULL pointer. -/
namespace Crinit

open List

def upToNul (cs : List Char) : List Char := cs.takeWhile (· != '\x00')

/-- `crinitEnvSet_t` once it is initialised: there is a place for the NULL pointer. -/
structure EnvSet where
  envp : List (List Char) := []
  allocSz : Nat := 1
  allocInc : Nat := 0
  room : envp.length < allocSz := by decide
  strings : ∀ e ∈ envp, '\x00' ∉ e := by decide
  deriving DecidableEq, Repr

def EnvSet.empty : EnvSet := {}

def isEntry (envName e : List Char) : Bool := (envName ++ ['=']).isPrefixOf e

def EnvSet.search (es : EnvSet) (envName : List Char) : Nat := es.envp.findIdx (isEntry envName)

def envSetGetVal (e : List Char) : List Char := (e.dropWhile (· != '=')).tail

def EnvSet.get (es : EnvSet) (envName : List Char) : Option (List Char) :=
  if '=' ∈ envName then none else (es.envp.find? (isEntry envName)).map envSetGetVal

theorem EnvSet.empty_get (envName : List Char) : EnvSet.empty.get envName = none := by
  unfold EnvSet.get
  split_ifs <;> rfl

/-- Whether the library has memory for the set, and whether `snprintf` can write the string,
which it cannot from 2^31 characters on. -/
structure EnvSetMem where
  growOk : Bool := true
  slotOk : Bool := true
  resizeOk : Bool := true
  printOk : Bool := true
  deriving DecidableEq, Repr

theorem upToNul_noNul (cs : List Char) : '\x00' ∉ upToNul cs := by
  intro mem
  exact absurd (mem_takeWhile_imp mem) (by decide)

def envEntry (envName envVal : List Char) : List Char := upToNul envName ++ '=' :: upToNul envVal

theorem envEntry_noNul (envName envVal : List Char) : '\x00' ∉ envEntry envName envVal := by
  simp [envEntry, upToNul_noNul]

def EnvSet.grow (es : EnvSet) (growOk : Bool) : Option EnvSet :=
  if es.allocInc = 0 ∨ growOk = false then none
  else some ⟨es.envp, es.allocSz + es.allocInc, es.allocInc,
    Nat.lt_of_lt_of_le es.room (Nat.le_add_right _ _), es.strings⟩

def EnvSet.reserve (es : EnvSet) (growOk : Bool) : Option EnvSet :=
  if es.envp.length ≥ es.allocSz - 1 then es.grow growOk else some es

def EnvSet.replace (es : EnvSet) (idx : Nat) (e : List Char) (noNul : '\x00' ∉ e) : EnvSet :=
  ⟨es.envp.set idx e, es.allocSz, es.allocInc, by rw [length_set]; exact es.room, by
    intro e' mem
    rcases mem_or_eq_of_mem_set mem with mem | rfl
    · exact es.strings e' mem
    · exact noNul⟩

def EnvSet.cut (es : EnvSet) (idx : Nat) : EnvSet :=
  ⟨es.envp.take idx, es.allocSz, es.allocInc,
    Nat.lt_of_le_of_lt (length_take_le' _ _) es.room,
    fun e mem => es.strings e (mem_of_mem_take mem)⟩

def EnvSet.append (es : EnvSet) (e : List Char) (noNul : '\x00' ∉ e)
    (room : es.envp.length + 1 < es.allocSz) : EnvSet :=
  ⟨es.envp ++ [e], es.allocSz, es.allocInc, by simpa using room, by
    intro e' mem
    rcases List.mem_append.1 mem with mem | mem
    · exact es.strings e' mem
    · exact List.mem_singleton.1 mem ▸ noNul⟩

theorem reserve_room {es es' : EnvSet} {growOk : Bool} (reserved : es.reserve growOk = some es') :
    es'.envp = es.envp ∧ es'.envp.length + 1 < es'.allocSz := by
  have room := es.room
  unfold EnvSet.reserve EnvSet.grow at reserved
  split_ifs at reserved with full failed
  · cases reserved
    refine ⟨rfl, ?_⟩
    dsimp only
    omega
  · cases reserved
    refine ⟨rfl, ?_⟩
    omega

/-- `crinitEnvSetSet`. A name with an equals sign is written to the place before the array:
`none`. When the string of a known variable cannot be written it is freed all the same. -/
def EnvSet.set (mem : EnvSetMem) (es : EnvSet) (envName envVal : List Char) :
    Option (Int × EnvSet) :=
  if '=' ∈ envName then none
  else
    match es.envp.find? (isEntry envName) with
    | some old =>
      if (envEntry envName envVal).length ≠ old.length ∧ mem.resizeOk = false then some (-1, es)
      else if mem.printOk = false then some (-1, es.cut (es.search envName))
      else some (0, es.replace (es.search envName) (envEntry envName envVal) (envEntry_noNul _ _))
    | none =>
      match reserved : es.reserve mem.growOk with
      | none => some (-1, es)
      | some es' =>
        if mem.slotOk = false ∨ mem.printOk = false then some (-1, es')
        else some (0, es'.append (envEntry envName envVal) (envEntry_noNul _ _)
          (reserve_room reserved).2)

section Entries

variable {n name val e : List Char}

theorem upToNul_eq (noNul : '\x00' ∉ name) : upToNul name = name := by
  refine List.takeWhile_eq_self_iff.2 fun c mem => ?_
  rw [bne_iff_ne]
  rintro rfl
  exact noNul mem

theorem isEntry_iff : isEntry n e = true ↔ ∃ v, e = n ++ '=' :: v := by
  rw [isEntry, isPrefixOf_iff_prefix]
  constructor
  · rintro ⟨v, rfl⟩
    exact ⟨v, by simp⟩
  · rintro ⟨v, rfl⟩
    exact ⟨v, by simp⟩

theorem nameOf_entry (plain : '=' ∉ name) (val : List Char) :
    (name ++ '=' :: val).takeWhile (· != '=') = name ∧ envSetGetVal (name ++ '=' :: val) = val := by
  have inside : ∀ c ∈ name, (c != '=') = true := by
    intro c mem
    rw [bne_iff_ne]
    rintro rfl
    exact plain mem
  constructor
  · rw [takeWhile_append_of_pos inside]
    simp
  · rw [envSetGetVal, dropWhile_append_of_pos inside]
    simp

theorem isEntry_name (plain : '=' ∉ n) (plain' : '=' ∉ name) :
    isEntry n (name ++ '=' :: val) = true ↔ n = name := by
  rw [isEntry_iff]
  constructor
  · rintro ⟨v, same⟩
    have names := congrArg (List.takeWhile (· != '=')) same
    rw [(nameOf_entry plain' val).1, (nameOf_entry plain v).1] at names
    exact names.symm
  · rintro rfl
    exact ⟨val, rfl⟩

theorem isEntry_other (plain : '=' ∉ n) (plain' : '=' ∉ name) (other : n ≠ name)
    (entry : isEntry name e = true) : isEntry n e = false := by
  obtain ⟨v, rfl⟩ := isEntry_iff.1 entry
  rw [Bool.eq_false_iff]
  exact mt (isEntry_name plain plain').1 other

end Entries

section Lists

variable {α : Type} {p q : α → Bool} {l : List α} {old e : α}

theorem find?_set_self (found : l.find? q = some old) (is : q e = true) :
    (l.set (l.findIdx q) e).find? q = some e := by
  induction l with
  | nil => cases found
  | cons a l ih =>
    by_cases here : q a = true
    · simp [findIdx_cons, here, is]
    · rw [find?_cons_of_neg here] at found
      simpa [findIdx_cons, here] using ih found

theorem find?_set_other (found : l.find? q = some old) (before : p old = false)
    (after : p e = false) : (l.set (l.findIdx q) e).find? p = l.find? p := by
  induction l with
  | nil => cases found
  | cons a l ih =>
    by_cases here : q a = true
    · rw [find?_cons_of_pos here] at found
      cases found
      simp [findIdx_cons, here, before, after]
    · rw [find?_cons_of_neg here] at found
      simp [findIdx_cons, here, find?_cons, ih found]

theorem find?_take_self (q : α → Bool) (l : List α) : (l.take (l.findIdx q)).find? q = none := by
  induction l with
  | nil => rfl
  | cons a l ih =>
    by_cases here : q a = true
    · simp [findIdx_cons, here]
    · simpa [findIdx_cons, here] using ih

end Lists

/-! ### What the set maps names to -/

def EnvSet.Known (es : EnvSet) (envName : List Char) : Prop :=
  ∃ e, es.envp.find? (isEntry envName) = some e

def EnvSet.KeepsOld (mem : EnvSetMem) (es : EnvSet) (envName envVal : List Char) : Prop :=
  match es.envp.find? (isEntry envName) with
  | some old => (envEntry envName envVal).length ≠ old.length ∧ mem.resizeOk = false
  | none => es.reserve mem.growOk = none ∨ mem.slotOk = false ∨ mem.printOk = false

section Setting

variable {es : EnvSet} {name val : List Char}

theorem get_congr {es' : EnvSet} (same : es'.envp = es.envp) (n : List Char) :
    es'.get n = es.get n := by
  rw [EnvSet.get, EnvSet.get, same]

theorem get_replace (plain : '=' ∉ name) (known : es.Known name) {e v : List Char}
    (entry : e = name ++ '=' :: v) (noNul : '\x00' ∉ e) :
    (es.replace (es.search name) e noNul).get name = some v ∧
      ∀ n, n ≠ name → (es.replace (es.search name) e noNul).get n = es.get n := by
  subst entry
  obtain ⟨old, found⟩ := known
  have now : isEntry name (name ++ '=' :: v) = true := isEntry_iff.2 ⟨v, rfl⟩
  constructor
  · rw [EnvSet.get, if_neg plain]
    simp only [EnvSet.replace, EnvSet.search, find?_set_self found now, Option.map_some,
      (nameOf_entry plain v).2]
  · intro n other
    rw [EnvSet.get, EnvSet.get]
    split_ifs with sign
    · rfl
    · simp only [EnvSet.replace, EnvSet.search]
      rw [find?_set_other found (isEntry_other sign plain other (find?_some found))
        (isEntry_other sign plain other now)]

theorem get_append (plain : '=' ∉ name) (new : es.envp.find? (isEntry name) = none)
    {e v : List Char} (entry : e = name ++ '=' :: v) (noNul : '\x00' ∉ e)
    (room : es.envp.length + 1 < es.allocSz) :
    (es.append e noNul room).get name = some v ∧
      ∀ n, n ≠ name → (es.append e noNul room).get n = es.get n := by
  subst entry
  have now : isEntry name (name ++ '=' :: v) = true := isEntry_iff.2 ⟨v, rfl⟩
  constructor
  · rw [EnvSet.get, if_neg plain]
    simp [EnvSet.append, find?_append, new, now, (nameOf_entry plain v).2]
  · intro n other
    rw [EnvSet.get, EnvSet.get]
    split_ifs with sign
    · rfl
    · simp [EnvSet.append, find?_append, isEntry_other sign plain other now]

/-- The function gives up with all variables as they were, loses a known variable, or sets the
one it is asked to and no other. -/
theorem set_cases (mem : EnvSetMem) (es : EnvSet) (val : List Char) (plain : '=' ∉ name)
    (noNul : '\x00' ∉ name) : ∃ ret es', es.set mem name val = some (ret, es') ∧
      ((es.KeepsOld mem name val ∧ ret = -1 ∧ ∀ n, es'.get n = es.get n) ∨
        (¬ es.KeepsOld mem name val ∧ es.Known name ∧ mem.printOk = false ∧ ret = -1 ∧
          es'.get name = none) ∨
        (¬ es.KeepsOld mem name val ∧ (es.Known name → mem.printOk = true) ∧ ret = 0 ∧
          es'.get name = some (upToNul val) ∧ ∀ n, n ≠ name → es'.get n = es.get n)) := by
  have entry : envEntry name val = name ++ '=' :: upToNul val := by
    rw [envEntry, upToNul_eq noNul]
  unfold EnvSet.set EnvSet.KeepsOld
  rw [if_neg plain]
  cases found : es.envp.find? (isEntry name) with
  | some old =>
    dsimp only
    split_ifs with keeps unprinted
    · exact ⟨_, _, rfl, .inl ⟨keeps, rfl, fun _ => rfl⟩⟩
    · refine ⟨_, _, rfl, .inr (.inl ⟨keeps, ⟨old, found⟩, unprinted, rfl, ?_⟩)⟩
      rw [EnvSet.get, if_neg plain]
      simp only [EnvSet.cut, EnvSet.search, find?_take_self, Option.map_none]
    · obtain ⟨here, others⟩ := get_replace plain ⟨old, found⟩ entry (envEntry_noNul name val)
      exact ⟨_, _, rfl, .inr (.inr ⟨keeps, fun _ => Bool.of_not_eq_false unprinted, rfl, here,
        others⟩)⟩
  | none =>
    dsimp only
    split
    · rename_i full
      exact ⟨_, _, rfl, .inl ⟨.inl full, rfl, fun _ => rfl⟩⟩
    · rename_i es' reserved
      obtain ⟨same, room⟩ := reserve_room reserved
      split_ifs with short
      · exact ⟨_, _, rfl, .inl ⟨.inr short, rfl, get_congr same⟩⟩
      · have new : es'.envp.find? (isEntry name) = none := same ▸ found
        obtain ⟨here, others⟩ := get_append plain new entry (envEntry_noNul name val) room
        refine ⟨_, _, rfl, .inr (.inr ⟨?_, ?_, rfl, here, fun n other => ?_⟩)⟩
        · rw [reserved]
          simpa using short
        · rintro ⟨e, known⟩
          exact absurd (found.symm.trans known) (by simp)
        · rw [others n other, get_congr same]

end Setting

end Crinit
