import Crinit.EnvSet
import Crinit.Lib.OrderedMap
import Crinit.Lib.Slots
import Mathlib.Algebra.Group.Nat.Defs

/-! An environment set as a finite map: the array of pointers in memory, and the values that it has
after any sequence of calls. -/
namespace Crinit

open List

/-! ### The functions on the array -/

/-- `crinitEnvSet_t`, with the pointers that are allocated. In all functions an access behind the
end of the array has no result. -/
structure RawEnvSet where
  slots : List (Option (List Char))
  allocSz : Nat
  allocInc : Nat
  deriving DecidableEq, Repr

def envSetInit (callocOk : Bool) (initSize sizeIncrement : Nat) : Option RawEnvSet :=
  if callocOk then some ⟨List.replicate initSize none, initSize, sizeIncrement⟩ else none

def RawEnvSet.search (es : RawEnvSet) (envName : List Char) : Option Nat :=
  Slots.scan (isEntry envName) es.allocSz 0 es.slots

def RawEnvSet.get (es : RawEnvSet) (envName : List Char) : Option (Option (List Char)) :=
  if '=' ∈ envName then some none
  else (es.search envName).bind fun idx => es.slots[idx]?.map (Option.map envSetGetVal)

/-- `crinitEnvSetGrow`; the inner `none` is the result -1. A size in bytes that does not fit into
`size_t` has no result. -/
def RawEnvSet.grow (es : RawEnvSet) (growOk : Bool) : Option (Option RawEnvSet) :=
  if es.allocInc = 0 then some none
  else if 2 ^ 64 ≤ (es.allocSz + es.allocInc) * 8 then none
  else if growOk = false then some none
  else some (some ⟨es.slots ++ List.replicate es.allocInc none, es.allocSz + es.allocInc,
    es.allocInc⟩)

def RawEnvSet.reserve (es : RawEnvSet) (idx : Nat) (growOk : Bool) : Option (Option RawEnvSet) :=
  if idx ≥ es.allocSz - 1 then es.grow growOk else some (some es)

def RawEnvSet.store (es : RawEnvSet) (idx : Nat) (slot : Option (List Char)) : Option RawEnvSet :=
  if idx < es.slots.length then some { es with slots := es.slots.set idx slot } else none

def RawEnvSet.set (mem : EnvSetMem) (es : RawEnvSet) (envName envVal : List Char) :
    Option (Int × RawEnvSet) :=
  if '=' ∈ envName then none
  else (es.search envName).bind fun idx =>
    match es.slots[idx]? with
    | none => none
    | some (some old) =>
      if (envEntry envName envVal).length ≠ old.length ∧ mem.resizeOk = false then some (-1, es)
      else if mem.printOk = false then (es.store idx none).map fun es => (-1, es)
      else (es.store idx (some (envEntry envName envVal))).map fun es => (0, es)
    | some none =>
      match es.reserve idx mem.growOk with
      | none => none
      | some none => some (-1, es)
      | some (some es) =>
        if mem.slotOk = false ∨ mem.printOk = false then
          (es.store idx none).map fun es => (-1, es)
        else (es.store idx (some (envEntry envName envVal))).map fun es => (0, es)

structure DupMem where
  callocOk : Bool := true
  strdupOk : Nat → Bool := fun _ => true

/-- `crinitEnvSetDup`; the inner `none` is the result -1. -/
def RawEnvSet.dup (mem : DupMem) (orig : RawEnvSet) : Option (Option RawEnvSet) :=
  match envSetInit mem.callocOk orig.allocSz orig.allocInc with
  | none => some none
  | some copy => (Slots.copy mem.strdupOk 0 orig.slots copy.slots).map
      (Option.map fun slots => { copy with slots := slots })

/-- A set, and the calls of `crinitEnvSetSet` that succeeded on it or on its original. -/
structure Tracked where
  es : RawEnvSet
  history : List (List Char × List Char)
  deriving DecidableEq, Repr

inductive EnvCall where
  | set (i : Nat) (mem : EnvSetMem) (envName envVal : List Char)
  | get (i : Nat) (envName : List Char)
  | dup (i : Nat) (mem : DupMem)

def Tracked.set (t : Tracked) (mem : EnvSetMem) (envName envVal : List Char) : Option Tracked :=
  (t.es.set mem envName envVal).map fun (ret, es) =>
    ⟨es, if ret = 0 then t.history ++ [(envName, envVal)] else t.history⟩

def EnvCall.run (w : List Tracked) : EnvCall → Option (List Tracked)
  | .set i mem envName envVal =>
    match w[i]? with
    | none => some w
    | some t => (t.set mem envName envVal).map (w.set i)
  | .get i envName =>
    match w[i]? with
    | none => some w
    | some t => (t.es.get envName).map fun _ => w
  | .dup i mem =>
    match w[i]? with
    | none => some w
    | some t => (t.es.dup mem).map fun copy => w ++ copy.toList.map fun es => ⟨es, t.history⟩

def runCalls (w : List Tracked) (calls : List EnvCall) : Option (List Tracked) :=
  calls.foldlM EnvCall.run w

def PlainName (name : List Char) : Prop := name ≠ [] ∧ '=' ∉ name ∧ '\x00' ∉ name

def EnvCall.Plain : EnvCall → Prop
  | .set _ _ envName envVal => PlainName envName ∧ '\x00' ∉ envVal
  | .get _ envName => PlainName envName
  | .dup _ _ => True

def lastSet (history : List (List Char × List Char)) (name : List Char) : Option (List Char) :=
  (history.filter fun s => s.1 = name).getLast?.map Prod.snd

def nameOf (e : List Char) : List Char := e.takeWhile (· != '=')

/-- A call that fails is not in the history, and so changes no variable. -/
structure Tracked.RefinesMap (t : Tracked) : Prop where
  array : ∃ entries free, t.es.slots = Slots.ofList entries (free + 1) ∧
    t.es.slots.length = t.es.allocSz ∧ (entries.map nameOf).Nodup
  get : ∀ name, PlainName name → t.es.get name = some (lastSet t.history name)

def RawEnvSet.Known (es : RawEnvSet) (name : List Char) : Prop :=
  ∃ e, some e ∈ es.slots ∧ isEntry name e = true

def RawEnvSet.Full (es : RawEnvSet) : Prop := (es.slots.filterMap id).length + 1 = es.allocSz

def EnvCall.Safe (w : List Tracked) : EnvCall → Prop
  | .set i mem envName _ => ∀ t, w[i]? = some t →
    (t.es.Known envName → mem.printOk = true) ∧
      (¬ t.es.Known envName → t.es.Full → (t.es.allocSz + t.es.allocInc) * 8 < 2 ^ 64)
  | _ => True

def SafeCalls (w : List Tracked) : List EnvCall → Prop
  | [] => True
  | call :: calls => call.Safe w ∧ ∀ w', call.run w = some w' → SafeCalls w' calls

/-! ### The array holds the strings of the set -/

structure RawEnvSet.Holds (raw : RawEnvSet) (es : EnvSet) : Prop where
  slots : raw.slots = Slots.ofList es.envp (es.allocSz - es.envp.length)
  allocSz : raw.allocSz = es.allocSz
  allocInc : raw.allocInc = es.allocInc

section Array

variable {raw : RawEnvSet} {es : EnvSet} {name val : List Char} {mem : EnvSetMem}

theorem set_full (plain : '=' ∉ name) (new : es.envp.find? (isEntry name) = none)
    (full : es.reserve mem.growOk = none) : es.set mem name val = some (-1, es) := by
  unfold EnvSet.set
  rw [if_neg plain, new]
  dsimp only
  split
  · rfl
  · rename_i reserved
    rw [full] at reserved
    cases reserved

theorem set_reserved {es' : EnvSet} (plain : '=' ∉ name)
    (new : es.envp.find? (isEntry name) = none) (reserved : es.reserve mem.growOk = some es') :
    es.set mem name val =
      if mem.slotOk = false ∨ mem.printOk = false then some (-1, es')
      else some (0, es'.append (envEntry name val) (envEntry_noNul _ _)
        (reserve_room reserved).2) := by
  unfold EnvSet.set
  rw [if_neg plain, new]
  dsimp only
  split
  · rename_i full
    rw [reserved] at full
    cases full
  · rename_i es'' same
    obtain rfl : es' = es'' := Option.some.inj (reserved.symm.trans same)
    rfl

variable (holds : raw.Holds es)
include holds

theorem slots_length : raw.slots.length = es.allocSz := by
  have room := es.room
  rw [holds.slots, Slots.length_ofList]
  omega

theorem search_holds (name : List Char) :
    raw.search name = some (es.search name) := by
  have room := es.room
  rw [RawEnvSet.search, holds.slots, holds.allocSz,
    Slots.scan_ofList _ (by omega) (by omega), Nat.zero_add]
  rfl

theorem slot_holds (name : List Char) :
    raw.slots[es.search name]? = some (es.envp.find? (isEntry name)) := by
  have room := es.room
  have inside : es.search name ≤ es.envp.length := findIdx_le_length
  rw [holds.slots, Slots.getElem?_ofList _ _ _ (by omega), EnvSet.search,
    ← find?_eq_getElem?_findIdx]

theorem rawGet_eq (name : List Char) :
    raw.get name = some (es.get name) := by
  unfold RawEnvSet.get EnvSet.get
  split_ifs
  · rfl
  · rw [search_holds holds, Option.bind_some, slot_holds holds, Option.map_some]

theorem known_iff : raw.Known name ↔ es.Known name := by
  unfold RawEnvSet.Known EnvSet.Known
  simp only [holds.slots, Slots.ofList, mem_append, mem_map, Option.some.injEq,
    exists_eq_right, mem_replicate, reduceCtorEq, and_false, or_false]
  rw [← Option.isSome_iff_exists, find?_isSome]

theorem full_iff : raw.Full ↔ es.envp.length + 1 = es.allocSz := by
  unfold RawEnvSet.Full
  rw [holds.slots, holds.allocSz, Slots.ofList, filterMap_append]
  simp

theorem store_known {e : List Char} (inside : es.search name < es.envp.length)
    (noNul : '\x00' ∉ e) : ∃ raw', raw.store (es.search name) (some e) = some raw' ∧
      raw'.Holds (es.replace (es.search name) e noNul) := by
  have long : es.search name < raw.slots.length :=
    slots_length holds ▸ Nat.lt_trans inside es.room
  refine ⟨_, if_pos long, ?_, holds.allocSz, holds.allocInc⟩
  dsimp only [EnvSet.replace]
  rw [holds.slots, Slots.set_ofList inside, length_set]

theorem store_new {e : List Char} (noNul : '\x00' ∉ e) (room : es.envp.length + 1 < es.allocSz) :
    ∃ raw', raw.store es.envp.length (some e) = some raw' ∧
      raw'.Holds (es.append e noNul room) := by
  have long : es.envp.length < raw.slots.length := slots_length holds ▸ es.room
  refine ⟨_, if_pos long, ?_, holds.allocSz, holds.allocInc⟩
  obtain ⟨free, free_eq⟩ : ∃ k, es.allocSz - es.envp.length = k + 1 :=
    ⟨es.allocSz - es.envp.length - 1, by omega⟩
  dsimp only [EnvSet.append]
  rw [holds.slots, free_eq, Slots.set_first_free, length_append, length_singleton]
  congr 1
  omega

theorem store_none : raw.store es.envp.length none = some raw := by
  have long : es.envp.length < raw.slots.length := slots_length holds ▸ es.room
  have same : raw.slots.set es.envp.length none = raw.slots := by
    rw [holds.slots, Slots.set_free_none]
  rw [RawEnvSet.store, if_pos long, same]

theorem reserve_holds
    (fits : es.envp.length + 1 = es.allocSz → (es.allocSz + es.allocInc) * 8 < 2 ^ 64)
    (growOk : Bool) : ∃ r, raw.reserve es.envp.length growOk = some r ∧
      Option.Rel RawEnvSet.Holds r (es.reserve growOk) := by
  have room := es.room
  unfold RawEnvSet.reserve EnvSet.reserve
  rw [holds.allocSz]
  by_cases full : es.envp.length ≥ es.allocSz - 1
  · rw [if_pos full, if_pos full]
    unfold RawEnvSet.grow EnvSet.grow
    rw [holds.allocSz, holds.allocInc, if_neg (Nat.not_le.2 (fits (by omega)))]
    by_cases fixed : es.allocInc = 0
    · rw [if_pos fixed, if_pos (.inl fixed)]
      exact ⟨none, rfl, .none⟩
    by_cases failed : growOk = false
    · rw [if_neg fixed, if_pos failed, if_pos (.inr failed)]
      exact ⟨none, rfl, .none⟩
    · rw [if_neg fixed, if_neg failed, if_neg (not_or.2 ⟨fixed, failed⟩)]
      refine ⟨_, rfl, .some ⟨?_, rfl, rfl⟩⟩
      dsimp only
      rw [holds.slots, Slots.ofList_append]
      congr 1
      omega
  · rw [if_neg full, if_neg full]
    exact ⟨_, rfl, .some holds⟩

theorem rawSet_known {old : List Char} (plain : '=' ∉ name)
    (found : es.envp.find? (isEntry name) = some old) (printed : mem.printOk = true)
    (val : List Char) : ∃ ret raw' es', raw.set mem name val = some (ret, raw') ∧
      es.set mem name val = some (ret, es') ∧ raw'.Holds es' := by
  have inside : es.search name < es.envp.length :=
    findIdx_lt_length_of_exists ⟨old, mem_of_find?_eq_some found, find?_some found⟩
  have print : ¬ mem.printOk = false := by simp [printed]
  unfold RawEnvSet.set EnvSet.set
  rw [if_neg plain, if_neg plain, search_holds holds, Option.bind_some, slot_holds holds, found]
  dsimp only
  by_cases keeps : (envEntry name val).length ≠ old.length ∧ mem.resizeOk = false
  · rw [if_pos keeps, if_pos keeps]
    exact ⟨_, _, _, rfl, rfl, holds⟩
  · obtain ⟨raw', stored, holds'⟩ := store_known holds inside (envEntry_noNul name val)
    rw [if_neg keeps, if_neg print, if_neg keeps, if_neg print, stored]
    exact ⟨_, _, _, rfl, rfl, holds'⟩

theorem rawSet_new (plain : '=' ∉ name) (new : es.envp.find? (isEntry name) = none)
    (fits : es.envp.length + 1 = es.allocSz → (es.allocSz + es.allocInc) * 8 < 2 ^ 64)
    (val : List Char) : ∃ ret raw' es', raw.set mem name val = some (ret, raw') ∧
      es.set mem name val = some (ret, es') ∧ raw'.Holds es' := by
  have last : es.search name = es.envp.length :=
    List.findIdx_eq_length.2 fun e here => by simpa using List.find?_eq_none.1 new e here
  obtain ⟨r, space, reserved⟩ := reserve_holds holds fits mem.growOk
  unfold RawEnvSet.set
  rw [if_neg plain, search_holds holds, Option.bind_some, slot_holds holds, new, last]
  dsimp only
  rw [space]
  cases grown : es.reserve mem.growOk with
  | none =>
    rw [grown] at reserved
    cases reserved
    exact ⟨_, _, _, rfl, set_full plain new grown, holds⟩
  | some es' =>
    obtain ⟨same, -⟩ := reserve_room grown
    rw [set_reserved plain new grown]
    rw [grown] at reserved
    cases reserved with
    | some holds' =>
      dsimp only
      by_cases failed : mem.slotOk = false ∨ mem.printOk = false
      · have stored := store_none holds'
        rw [same] at stored
        rw [if_pos failed, if_pos failed, stored]
        exact ⟨_, _, _, rfl, rfl, holds'⟩
      · obtain ⟨raw', stored, holds''⟩ := store_new holds' (envEntry_noNul name val)
          (reserve_room grown).2
        rw [same] at stored
        rw [if_neg failed, if_neg failed, stored]
        exact ⟨_, _, _, rfl, rfl, holds''⟩

theorem rawSet_holds (plain : '=' ∉ name) (printed : raw.Known name → mem.printOk = true)
    (fits : ¬ raw.Known name → raw.Full → (raw.allocSz + raw.allocInc) * 8 < 2 ^ 64)
    (val : List Char) : ∃ ret raw' es', raw.set mem name val = some (ret, raw') ∧
      es.set mem name val = some (ret, es') ∧ raw'.Holds es' := by
  rw [known_iff holds] at printed
  rw [known_iff holds, full_iff holds, holds.allocSz, holds.allocInc] at fits
  cases found : es.envp.find? (isEntry name) with
  | some old => exact rawSet_known holds plain found (printed ⟨old, found⟩) val
  | none =>
    refine rawSet_new holds plain found (fits ?_) val
    rintro ⟨e, known⟩
    rw [found] at known
    cases known

theorem rawDup_holds (mem : DupMem) :
    ∃ copy, raw.dup mem = some copy ∧ ∀ raw' ∈ copy, raw'.Holds es := by
  have room := es.room
  unfold RawEnvSet.dup envSetInit
  rw [holds.allocSz, holds.allocInc]
  cases mem.callocOk with
  | false => exact ⟨none, rfl, fun _ none => by cases none⟩
  | true =>
    have copied := @Slots.copy_ofList _ es.envp (es.allocSz - es.envp.length) mem.strdupOk []
      (by omega) es.allocSz (by omega)
    rw [length_nil, nil_append] at copied
    rw [if_pos rfl, holds.slots]
    dsimp only
    rw [show List.replicate es.allocSz none =
      Slots.ofList ([] : List (List Char)) es.allocSz from rfl,
      copied]
    split_ifs with all
    · refine ⟨_, rfl, ?_⟩
      rintro _ ⟨⟩
      exact ⟨rfl, rfl, rfl⟩
    · exact ⟨none, rfl, fun _ none => by cases none⟩

end Array

/-! ### The set represents the history -/

def insertion (s : List Char × List Char) : OrderedMap.Insertion (List Char) (List Char) :=
  ⟨s.1, envEntry s.1 s.2, true⟩

structure EnvSet.Keeps (es : EnvSet) (history : List (List Char × List Char)) : Prop where
  signs : ∀ e ∈ es.envp, '=' ∈ e
  plain : ∀ s ∈ history, PlainName s.1 ∧ '\x00' ∉ s.2
  map : OrderedMap.Represents nameOf es.envp (OrderedMap.run (history.map insertion))

section History

variable {es es' : EnvSet} {history : List (List Char × List Char)} {name val e : List Char}
  {mem : EnvSetMem}

theorem entry_plain (plain : PlainName name) (noNul : '\x00' ∉ val) :
    envEntry name val = name ++ '=' :: val := by
  rw [envEntry, upToNul_eq plain.2.2, upToNul_eq noNul]

theorem entry_named (plain : PlainName name) (noNul : '\x00' ∉ val) :
    nameOf (envEntry name val) = name := by
  rw [entry_plain plain noNul]
  exact (nameOf_entry plain.2.1 val).1

theorem entry_sign (name val : List Char) : '=' ∈ envEntry name val := by
  simp [envEntry]

theorem isEntry_iff_nameOf (sign : '=' ∈ e) (plain : '=' ∉ name) :
    isEntry name e = true ↔ nameOf e = name := by
  obtain ⟨before, after, rfl, first⟩ := eq_append_cons_of_mem sign
  rw [isEntry_name plain first, nameOf, (nameOf_entry first after).1]
  exact eq_comm

theorem find_nameOf {l : List (List Char)} (signs : ∀ e ∈ l, '=' ∈ e) (plain : '=' ∉ name) :
    l.find? (isEntry name) = l.find? (fun e => nameOf e = name) := by
  induction l with
  | nil => rfl
  | cons e l ih =>
    have here := isEntry_iff_nameOf (signs e mem_cons_self) plain
    have later := ih fun e mem => signs e (mem_cons_of_mem _ mem)
    rw [find?_cons, find?_cons, later]
    cases found : isEntry name e with
    | true => rw [decide_eq_true (here.1 found)]
    | false =>
      rw [decide_eq_false fun same => ?_]
      rw [here.2 same] at found
      cases found

theorem accepted_all (history : List (List Char × List Char)) :
    OrderedMap.accepted (history.map insertion) = history.map insertion := by
  induction history using List.reverseRecOn with
  | nil => rfl
  | append_singleton history s ih =>
    rw [map_append, map_singleton, OrderedMap.accepted_snoc, ih]
    simp [insertion]

theorem keeps_get (keeps : es.Keeps history) (plain : PlainName name) :
    es.get name = lastSet history name := by
  have filtered : (history.map insertion).filter (fun i => i.key = name) =
      (history.filter fun s => s.1 = name).map insertion := by
    rw [filter_map]
    rfl
  rw [EnvSet.get, if_neg plain.2.1, find_nameOf keeps.signs plain.2.1, keeps.map.find,
    OrderedMap.run_value, accepted_all, filtered, getLast?_map, lastSet]
  cases last : (history.filter fun s => s.1 = name).getLast? with
  | none => rfl
  | some s =>
    have here := List.mem_filter.1 (mem_of_getLast? last)
    obtain ⟨plain', noNul⟩ := keeps.plain s here.1
    simp only [Option.map_some, insertion, entry_plain plain' noNul,
      (nameOf_entry plain'.2.1 s.2).2]

theorem run_put (history : List (List Char × List Char)) (s : List Char × List Char) :
    OrderedMap.run ((history ++ [s]).map insertion) =
      (OrderedMap.run (history.map insertion)).put s.1 (envEntry s.1 s.2) := by
  rw [map_append, map_singleton, OrderedMap.run_snoc]
  exact if_neg fun refused => by cases refused.1

theorem keeps_congr (keeps : es.Keeps history) (same : es'.envp = es.envp) : es'.Keeps history := by
  obtain ⟨signs, plain, map⟩ := keeps
  exact ⟨same ▸ signs, plain, same ▸ map⟩

variable (keeps : es.Keeps history) (plain : PlainName name) (noNul : '\x00' ∉ val)
include keeps plain noNul

theorem keeps_plain :
    ∀ s ∈ history ++ [(name, val)], PlainName s.1 ∧ '\x00' ∉ s.2 := by
  intro s mem
  rcases List.mem_append.1 mem with mem | mem
  · exact keeps.plain s mem
  · obtain rfl := List.mem_singleton.1 mem
    exact ⟨plain, noNul⟩

theorem keeps_append (new : es.envp.find? (isEntry name) = none)
    (same : es'.envp = es.envp ++ [envEntry name val]) :
    es'.Keeps (history ++ [(name, val)]) := by
  have named := entry_named plain noNul
  refine ⟨?_, keeps_plain keeps plain noNul, ?_⟩
  · intro e mem
    rw [same] at mem
    rcases List.mem_append.1 mem with mem | mem
    · exact keeps.signs e mem
    · exact List.mem_singleton.1 mem ▸ entry_sign name val
  · have absent : nameOf (envEntry name val) ∉ (OrderedMap.run (history.map insertion)).keys := by
      rw [named, keeps.map.known, ← find_nameOf keeps.signs plain.2.1, new]
      simp
    have grown := keeps.map.append (envEntry name val) absent
    rw [named] at grown
    rwa [same, run_put]

theorem keeps_replace {old : List Char} (found : es.envp.find? (isEntry name) = some old)
    (same : es'.envp = es.envp.set (es.search name) (envEntry name val)) :
    es'.Keeps (history ++ [(name, val)]) := by
  have named := entry_named plain noNul
  have is : isEntry name (envEntry name val) = true :=
    (isEntry_iff_nameOf (entry_sign name val) plain.2.1).2 named
  have oldNamed : nameOf old = name := (isEntry_iff_nameOf
    (keeps.signs old (mem_of_find?_eq_some found)) plain.2.1).1 (find?_some found)
  have signs : ∀ e ∈ es'.envp, '=' ∈ e := by
    intro e mem
    rw [same] at mem
    rcases mem_or_eq_of_mem_set mem with mem | rfl
    · exact keeps.signs e mem
    · exact entry_sign name val
  have present : nameOf (envEntry name val) ∈ (OrderedMap.run (history.map insertion)).keys := by
    rw [named, keeps.map.known, ← find_nameOf keeps.signs plain.2.1, found]
    exact ⟨old, rfl⟩
  have keys : es'.envp.map nameOf = es.envp.map nameOf := by
    have place : (es.envp.map nameOf)[es.search name]? = some name := by
      rw [getElem?_map, EnvSet.search, ← find?_eq_getElem?_findIdx, found,
        Option.map_some, oldNamed]
    obtain ⟨inside, here⟩ := List.getElem?_eq_some_iff.1 place
    have unchanged := set_getElem_self inside
    rw [here] at unchanged
    rw [same, map_set, named, unchanged]
  have find : ∀ k, es'.envp.find? (fun e => nameOf e = k) =
      if k = nameOf (envEntry name val) then some (envEntry name val)
      else es.envp.find? (fun e => nameOf e = k) := by
    intro k
    rw [named]
    split_ifs with this
    · rw [this, ← find_nameOf signs plain.2.1, same]
      exact find?_set_self found is
    · rw [same]
      refine find?_set_other found (decide_eq_false ?_) (decide_eq_false ?_)
      · rw [oldNamed]
        exact Ne.symm this
      · rw [named]
        exact Ne.symm this
  have put := keeps.map.replace (envEntry name val) present keys find
  rw [named] at put
  exact ⟨signs, keeps_plain keeps plain noNul, run_put history (name, val) ▸ put⟩

theorem set_keeps {ret : Int} (printed : es.Known name → mem.printOk = true)
    (ran : es.set mem name val = some (ret, es')) :
    es'.Keeps (if ret = 0 then history ++ [(name, val)] else history) := by
  cases found : es.envp.find? (isEntry name) with
  | some old =>
    have print : ¬ mem.printOk = false := by simp [printed ⟨old, found⟩]
    unfold EnvSet.set at ran
    rw [if_neg plain.2.1, found] at ran
    dsimp only at ran
    rw [if_neg print] at ran
    split_ifs at ran
    · cases ran
      exact keeps
    · cases ran
      exact keeps_replace keeps plain noNul found rfl
  | none =>
    cases reserved : es.reserve mem.growOk with
    | none =>
      rw [set_full plain.2.1 found reserved] at ran
      cases ran
      exact keeps
    | some es₁ =>
      have same := (reserve_room reserved).1
      rw [set_reserved plain.2.1 found reserved] at ran
      split_ifs at ran
      · cases ran
        exact keeps_congr keeps same
      · cases ran
        exact keeps_append keeps plain noNul found (congrArg (· ++ [envEntry name val]) same)

end History

def Tracked.Holds (t : Tracked) (es : EnvSet) : Prop := t.es.Holds es ∧ es.Keeps t.history

section Calls

variable {t : Tracked} {es : EnvSet} {w w' : List Tracked} {call : EnvCall}

theorem holds_refines (holds : t.Holds es) : t.RefinesMap := by
  obtain ⟨array, keeps⟩ := holds
  have room := es.room
  refine ⟨⟨es.envp, es.allocSz - es.envp.length - 1, ?_, ?_, ?_⟩, ?_⟩
  · rw [array.slots]
    congr 1
    omega
  · rw [slots_length array, array.allocSz]
  · rw [keeps.map.keys]
    exact (OrderedMap.run (t.history.map insertion)).nodup
  · intro name plain
    rw [rawGet_eq array, keeps_get keeps plain]

theorem init_holds (initSize sizeIncrement : Nat) (some : 0 < initSize) :
    ∃ es, Tracked.Holds ⟨⟨List.replicate initSize none, initSize, sizeIncrement⟩, []⟩ es := by
  refine ⟨⟨[], initSize, sizeIncrement, some, fun e mem => absurd mem not_mem_nil⟩,
    ⟨rfl, rfl, rfl⟩, ?_, ?_, ?_⟩
  · exact fun e mem => absurd mem not_mem_nil
  · exact fun s mem => absurd mem not_mem_nil
  · exact OrderedMap.represents_empty nameOf

theorem set_holds {mem : EnvSetMem} {name val : List Char} (holds : t.Holds es)
    (plain : PlainName name) (noNul : '\x00' ∉ val)
    (printed : t.es.Known name → mem.printOk = true)
    (fits : ¬ t.es.Known name → t.es.Full → (t.es.allocSz + t.es.allocInc) * 8 < 2 ^ 64) :
    ∃ t' es', t.set mem name val = some t' ∧ t'.Holds es' := by
  obtain ⟨array, keeps⟩ := holds
  obtain ⟨ret, raw', es', ran, ran', array'⟩ := rawSet_holds array plain.2.1 printed fits val
  rw [known_iff array] at printed
  exact ⟨_, es', Option.map_eq_some_iff.2 ⟨_, ran, rfl⟩, array',
    set_keeps keeps plain noNul printed ran'⟩

theorem run_holds (all : ∀ t ∈ w, ∃ es, t.Holds es) (plain : call.Plain) (safe : call.Safe w) :
    ∃ w', call.run w = some w' ∧ ∀ t ∈ w', ∃ es, t.Holds es := by
  cases call with
  | set i mem name val =>
    cases here : w[i]? with
    | none => exact ⟨w, by simp only [EnvCall.run, here], all⟩
    | some t =>
      obtain ⟨es, holds⟩ := all t (mem_of_getElem? here)
      obtain ⟨printed, fits⟩ := safe t here
      obtain ⟨t', es', ran, holds'⟩ := set_holds holds plain.1 plain.2 printed fits
      refine ⟨w.set i t', by simp only [EnvCall.run, here, ran, Option.map_some], ?_⟩
      intro u mem
      rcases mem_or_eq_of_mem_set mem with mem | rfl
      · exact all u mem
      · exact ⟨es', holds'⟩
  | get i name =>
    cases here : w[i]? with
    | none => exact ⟨w, by simp only [EnvCall.run, here], all⟩
    | some t =>
      obtain ⟨es, holds⟩ := all t (mem_of_getElem? here)
      exact ⟨w, by simp only [EnvCall.run, here, rawGet_eq holds.1, Option.map_some], all⟩
  | dup i mem =>
    cases here : w[i]? with
    | none => exact ⟨w, by simp only [EnvCall.run, here], all⟩
    | some t =>
      obtain ⟨es, array, keeps⟩ := all t (mem_of_getElem? here)
      obtain ⟨copy, ran, copied⟩ := rawDup_holds array mem
      refine ⟨w ++ copy.toList.map fun es => ⟨es, t.history⟩,
        by simp only [EnvCall.run, here, ran, Option.map_some], ?_⟩
      intro u mem
      rcases List.mem_append.1 mem with mem | mem
      · exact all u mem
      · obtain ⟨raw, inside, rfl⟩ := List.mem_map.1 mem
        exact ⟨es, copied raw (Option.mem_toList.1 inside), keeps⟩

theorem runCalls_holds {calls : List EnvCall} (all : ∀ t ∈ w, ∃ es, t.Holds es)
    (plain : ∀ call ∈ calls, call.Plain) (safe : SafeCalls w calls) :
    ∃ w', runCalls w calls = some w' ∧ ∀ t ∈ w', ∃ es, t.Holds es := by
  induction calls generalizing w with
  | nil => exact ⟨w, rfl, all⟩
  | cons call calls ih =>
    obtain ⟨w₁, ran, all₁⟩ := run_holds all (plain call mem_cons_self) safe.1
    obtain ⟨w', rest, all'⟩ := ih all₁ (fun c mem => plain c (mem_cons_of_mem _ mem))
      (safe.2 w₁ ran)
    refine ⟨w', ?_, all'⟩
    rw [runCalls, foldlM_cons, ran]
    exact rest

/-- After any sequence of calls on a set, each of which is safe, all sets refine a map. -/
theorem env_set_refines_map (initSize sizeIncrement : Nat) (es : RawEnvSet)
    (calls : List EnvCall) (some : 0 < initSize)
    (init : envSetInit true initSize sizeIncrement = .some es)
    (plain : ∀ call ∈ calls, call.Plain) (safe : SafeCalls [⟨es, []⟩] calls) :
    ∃ w, runCalls [⟨es, []⟩] calls = .some w ∧ ∀ t ∈ w, t.RefinesMap := by
  cases init
  obtain ⟨es, holds⟩ := init_holds initSize sizeIncrement some
  obtain ⟨w, ran, all⟩ := runCalls_holds
    (fun t mem => List.mem_singleton.1 mem ▸ ⟨es, holds⟩) plain safe
  refine ⟨w, ran, fun t mem => ?_⟩
  obtain ⟨es', holds'⟩ := all t mem
  exact holds_refines holds'

def smallSet : RawEnvSet := ⟨[none, none], 2, 1⟩

def copyAndGrow : List EnvCall := [.set 0 {} ['A'] ['1'], .dup 0 {}, .set 1 {} ['A', 'B'] ['2']]

theorem copy_refines_map : ∃ w, runCalls [⟨smallSet, []⟩] copyAndGrow = some w ∧
    ∀ t ∈ w, t.RefinesMap := by
  refine env_set_refines_map 2 1 smallSet copyAndGrow (by decide) rfl ?_ ?_
  · intro call mem
    simp only [copyAndGrow, mem_cons, not_mem_nil, or_false] at mem
    rcases mem with rfl | rfl | rfl
    · exact ⟨⟨by decide, by decide, by decide⟩, by decide⟩
    · trivial
    · exact ⟨⟨by decide, by decide, by decide⟩, by decide⟩
  · refine ⟨?_, ?_⟩
    · intro t here
      cases here
      exact ⟨fun _ => rfl, fun _ _ => by decide⟩
    · intro w ran
      cases ran
      refine ⟨trivial, ?_⟩
      intro w ran
      cases ran
      refine ⟨?_, fun _ _ => trivial⟩
      intro t here
      cases here
      exact ⟨fun _ => rfl, fun _ _ => by decide⟩

def failedUpdate : List EnvCall :=
  [.set 0 {} ['A'] ['1'], .set 0 { printOk := false } ['A'] ['2']]

theorem failed_update_loses : ∃ w, runCalls [⟨smallSet, []⟩] failedUpdate = some w ∧
    ¬ ∀ t ∈ w, t.RefinesMap := by
  refine ⟨[⟨smallSet, [(['A'], ['1'])]⟩], by decide, fun refines => ?_⟩
  have value := (refines _ mem_cons_self).get ['A'] ⟨by decide, by decide, by decide⟩
  exact absurd value (by decide)

end Calls

end Crinit
