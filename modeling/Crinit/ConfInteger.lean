import Crinit.Lib.Numeral

/-! Integers in configuration values, read with 64 bits whatever the width of the target. -/
namespace Crinit

open Numeral

inductive IntType
  | int
  | uint
  | llong
  | ullong
  deriving DecidableEq, Repr

/-- `crinitStrtoGenericInteger`: `strtol`, `strtoul`, `strtoll` or `strtoull`, with a 64 bit
`long`. -/
def strtoGenericInteger : IntType → Nat → List Char → Strto
  | .int => strtoSigned 64
  | .uint => strtoUnsigned 64
  | .llong => strtoSigned 64
  | .ullong => strtoUnsigned 64

def IntType.assign : IntType → Int → Int
  | .int, v => v.bmod 0x100000000
  | .uint, v => v % 0x100000000
  | .llong, v => v.bmod 0x10000000000000000
  | .ullong, v => v % 0x10000000000000000

/-- The return value, and the target, which is written before the result is looked at. -/
def confConvToInteger (ty : IntType) (x : Int) (confVal : String) (base : Nat) : Int × Int :=
  if confVal.toList = [] then (-1, x)
  else
    let r := strtoGenericInteger ty base confVal.toList
    let x := ty.assign r.value
    if r.erange then (-1, x) else if r.rest ≠ [] then (-1, x) else (0, x)

def IntType.Represents : IntType → Int → Prop
  | .int, v => -0x80000000 ≤ v ∧ v < 0x80000000
  | .uint, v => 0 ≤ v ∧ v < 0x100000000
  | .llong, v => -0x8000000000000000 ≤ v ∧ v < 0x8000000000000000
  | .ullong, v => 0 ≤ v ∧ v < 0x10000000000000000

def IntType.Takes : IntType → Bool → Nat → Prop
  | .int, neg, mag => -0x8000000000000000 ≤ signed neg mag ∧ signed neg mag < 0x8000000000000000
  | .uint, _, mag => mag < 0x10000000000000000
  | .llong, neg, mag => -0x8000000000000000 ≤ signed neg mag ∧ signed neg mag < 0x8000000000000000
  | .ullong, _, mag => mag < 0x10000000000000000

theorem bmod_exact {v : Int} {m : Nat} (some : 0 < m) :
    v.bmod m = v ↔ -(m / 2 : Int) ≤ v ∧ v < (m + 1) / 2 := by
  refine ⟨fun same => ?_, fun range => Int.bmod_eq_of_le range.1 range.2⟩
  rw [← same]
  exact ⟨Int.le_bmod some, Int.bmod_lt some⟩

theorem assign_exact {ty : IntType} {v : Int} : ty.assign v = v ↔ ty.Represents v := by
  cases ty with
  | int => exact bmod_exact (by decide)
  | llong => exact bmod_exact (by decide)
  | uint =>
    change v % 0x100000000 = v ↔ 0 ≤ v ∧ v < 0x100000000
    omega
  | ullong =>
    change v % 0x10000000000000000 = v ↔ 0 ≤ v ∧ v < 0x10000000000000000
    omega

section Numerals

variable {base : Nat} {cs : List Char} {neg : Bool} {mag : Nat}

theorem strtoSigned_spells (small : base ≤ 16) (spells : Spells base cs neg mag) :
    (strtoSigned 64 base cs).rest = [] ∧
    ((strtoSigned 64 base cs).erange = false ↔ IntType.llong.Takes neg mag) ∧
      (IntType.llong.Takes neg mag → (strtoSigned 64 base cs).value = signed neg mag) := by
  unfold strtoSigned IntType.Takes
  simp only [read_of_spells small spells]
  split_ifs <;> refine ⟨rfl, ?_, ?_⟩ <;> simp <;> omega

theorem strtoUnsigned_spells (small : base ≤ 16) (spells : Spells base cs neg mag) :
    (strtoUnsigned 64 base cs).rest = [] ∧
      ((strtoUnsigned 64 base cs).erange = false ↔ IntType.ullong.Takes neg mag) ∧
      (IntType.ullong.Takes neg mag →
        (strtoUnsigned 64 base cs).value = signed neg mag % 0x10000000000000000) := by
  unfold strtoUnsigned IntType.Takes
  simp only [read_of_spells small spells]
  split_ifs <;> refine ⟨rfl, ?_, ?_⟩ <;> simp <;> omega

theorem strto_spells (ty : IntType) (small : base ≤ 16) (spells : Spells base cs neg mag) :
    (strtoGenericInteger ty base cs).rest = [] ∧
      ((strtoGenericInteger ty base cs).erange = false ↔ ty.Takes neg mag) ∧
      (ty.Takes neg mag → ty.assign (strtoGenericInteger ty base cs).value =
        ty.assign (signed neg mag)) := by
  obtain ⟨srest, srange, svalue⟩ := strtoSigned_spells small spells
  obtain ⟨urest, urange, uvalue⟩ := strtoUnsigned_spells small spells
  cases ty with
  | int => exact ⟨srest, srange, fun takes => congrArg IntType.int.assign (svalue takes)⟩
  | llong => exact ⟨srest, srange, fun takes => congrArg IntType.llong.assign (svalue takes)⟩
  | uint =>
    refine ⟨urest, urange, fun takes => ?_⟩
    change (strtoUnsigned 64 base cs).value % 0x100000000 = signed neg mag % 0x100000000
    rw [uvalue takes]
    exact Int.emod_emod_of_dvd _ (by decide)
  | ullong =>
    refine ⟨urest, urange, fun takes => ?_⟩
    change (strtoUnsigned 64 base cs).value % 0x10000000000000000 =
      signed neg mag % 0x10000000000000000
    rw [uvalue takes]
    exact Int.emod_emod_of_dvd _ (by decide)

theorem spells_of_strto {ty : IntType} (some : cs ≠ [])
    (whole : (strtoGenericInteger ty base cs).rest = []) :
    ∃ neg mag, Spells base cs neg mag := by
  cases found : read base cs with
  | none =>
    have all : (strtoGenericInteger ty base cs).rest = cs := by
      cases ty <;> simp only [strtoGenericInteger, strtoSigned, strtoUnsigned, found]
    exact absurd (all.symm.trans whole) some
  | some r =>
    have same : (strtoGenericInteger ty base cs).rest = r.rest := by
      cases ty <;> simp only [strtoGenericInteger, strtoSigned, strtoUnsigned, found] <;>
        split_ifs <;> rfl
    exact ⟨_, _, spells_of_read found (same.symm.trans whole)⟩

end Numerals

section Conversion

variable {ty : IntType} {x : Int} {s : String} {base : Nat}

theorem conv_spells (ty : IntType) (x : Int) {neg : Bool} {mag : Nat} (small : base ≤ 16)
    (spells : Spells base s.toList neg mag) :
    ((confConvToInteger ty x s base).1 = 0 ↔ ty.Takes neg mag) ∧
      (ty.Takes neg mag → confConvToInteger ty x s base = (0, ty.assign (signed neg mag))) := by
  obtain ⟨rest, range, value⟩ := strto_spells ty small spells
  have some := spells_ne_nil spells
  unfold confConvToInteger
  rw [if_neg some]
  simp only [rest, ne_eq, not_true, if_false]
  by_cases takes : ty.Takes neg mag
  · rw [if_neg (by rw [range.2 takes]; decide), value takes]
    exact ⟨iff_of_true rfl takes, fun _ => rfl⟩
  · have large : (strtoGenericInteger ty base s.toList).erange = true :=
      Bool.eq_true_of_not_eq_false fun none => takes (range.1 none)
    rw [if_pos large]
    exact ⟨iff_of_false (show ¬(-1 : Int) = 0 by decide) takes, fun none => absurd none takes⟩

theorem spells_of_conv (ok : (confConvToInteger ty x s base).1 = 0) :
    ∃ neg mag, Spells base s.toList neg mag := by
  unfold confConvToInteger at ok
  dsimp only at ok
  split_ifs at ok with none large rest
  · exact absurd ok (show ¬(-1 : Int) = 0 by decide)
  · exact absurd ok (show ¬(-1 : Int) = 0 by decide)
  · exact absurd ok (show ¬(-1 : Int) = 0 by decide)
  · exact spells_of_strto none (not_not.1 rest)

/-- The conversion returns 0 for the numerals that the function of the standard library takes,
and stores what the target holds of them. -/
theorem conv_iff (small : base ≤ 16) : (confConvToInteger ty x s base).1 = 0 ↔
    ∃ neg mag, Spells base s.toList neg mag ∧ ty.Takes neg mag := by
  constructor
  · intro ok
    obtain ⟨neg, mag, spells⟩ := spells_of_conv ok
    exact ⟨neg, mag, spells, (conv_spells ty x small spells).1.1 ok⟩
  · rintro ⟨neg, mag, spells, takes⟩
    exact (conv_spells ty x small spells).1.2 takes

theorem conv_ret (ty : IntType) (x : Int) (s : String) (base : Nat) :
    (confConvToInteger ty x s base).1 = 0 ∨ (confConvToInteger ty x s base).1 = -1 := by
  unfold confConvToInteger
  dsimp only
  split_ifs
  · exact .inr rfl
  · exact .inr rfl
  · exact .inr rfl
  · exact .inl rfl

end Conversion

/-- `SHUTDOWN_GRACE_PERIOD_US`: the new value of the option. -/
def cfgShdGpHandler (val : String) : Option Int :=
  let r := confConvToInteger .ullong 0 val 10
  if r.1 = -1 then none else some r.2

end Crinit
