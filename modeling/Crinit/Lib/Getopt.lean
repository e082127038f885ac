import Mathlib.Data.List.TakeWhile
import Mathlib.Tactic.Common

/-! `getopt_long` of the GNU C library, with operands moved behind the options. The argument list is
without the program name; the answers are those of all calls. -/
namespace Getopt

inductive HasArg
  | no
  | required
  | optional
  deriving DecidableEq, Repr

structure LongOption where
  name : List Char
  hasArg : HasArg
  val : Char
  deriving DecidableEq, Repr

structure Answer where
  opt : Char
  arg : Option (List Char)
  deriving DecidableEq, Repr

def bad : Answer := ⟨'?', none⟩

structure Parsed where
  answers : List Answer
  operands : List (List Char)
  deriving DecidableEq, Repr

def Parsed.answer (a : Answer) (p : Parsed) : Parsed := { p with answers := a :: p.answers }

/-- The whole name, or the start of a name that is not the start of another option's. -/
def findLong (longs : List LongOption) (name : List Char) : Option LongOption :=
  match longs.find? fun o => o.name = name with
  | some o => some o
  | none =>
    match longs.filter fun o => name.isPrefixOf o.name with
    | [] => none
    | o :: os => if os.all fun o' => o'.hasArg = o.hasArg && o'.val = o.val then some o else none

def cluster (shorts : Char → Option HasArg) : List Char → List Answer × Option Char
  | [] => ([], none)
  | c :: cs =>
    let rest := cluster shorts cs
    match shorts c with
    | none => (bad :: rest.1, rest.2)
    | some .no => (⟨c, none⟩ :: rest.1, rest.2)
    | some .required => if cs = [] then ([], some c) else ([⟨c, some cs⟩], none)
    | some .optional => ([⟨c, if cs = [] then none else some cs⟩], none)

def getoptLong (longs : List LongOption) (shorts : Char → Option HasArg) : List (List Char) → Parsed
  | [] => ⟨[], []⟩
  | ['-', '-'] :: rest => ⟨[], rest⟩
  | ('-' :: '-' :: body) :: rest =>
    match findLong longs (body.takeWhile (· != '=')), body.dropWhile (· != '=') with
    | none, _ => (getoptLong longs shorts rest).answer bad
    | some ⟨_, .no, val⟩, [] => (getoptLong longs shorts rest).answer ⟨val, none⟩
    | some ⟨_, .no, _⟩, _ :: _ => (getoptLong longs shorts rest).answer bad
    | some ⟨_, .optional, val⟩, [] => (getoptLong longs shorts rest).answer ⟨val, none⟩
    | some ⟨_, _, val⟩, _ :: arg => (getoptLong longs shorts rest).answer ⟨val, some arg⟩
    | some ⟨_, .required, val⟩, [] =>
      match rest with
      | [] => ⟨[bad], []⟩
      | arg :: rest => (getoptLong longs shorts rest).answer ⟨val, some arg⟩
  | ('-' :: c :: cs) :: rest =>
    match cluster shorts (c :: cs) with
    | (answers, none) =>
      let p := getoptLong longs shorts rest
      { p with answers := answers ++ p.answers }
    | (answers, some val) =>
      match rest with
      | [] => ⟨answers ++ [bad], []⟩
      | arg :: rest =>
        let p := getoptLong longs shorts rest
        { p with answers := answers ++ ⟨val, some arg⟩ :: p.answers }
  | operand :: rest =>
    let p := getoptLong longs shorts rest
    { p with operands := operand :: p.operands }

variable {longs : List LongOption} {shorts : Char → Option HasArg}

/-- A long option with its value after an equals sign, before a list that has been parsed. -/
theorem getoptLong_value (arg : List Char) {name : List Char} {o : LongOption}
    {rest : List (List Char)} {p : Parsed}
    (parsed : getoptLong longs shorts rest = p) (found : findLong longs name = some o)
    (takes : o.hasArg ≠ .no) (plain : '=' ∉ name) :
    getoptLong longs shorts (('-' :: '-' :: (name ++ '=' :: arg)) :: rest) =
      p.answer ⟨o.val, some arg⟩ := by
  have other : ∀ c ∈ name, (c != '=') = true :=
    fun c mem => bne_iff_ne.2 fun same => plain (same ▸ mem)
  have before : (name ++ '=' :: arg).takeWhile (· != '=') = name := by
    rw [List.takeWhile_append_of_pos other]
    simp
  have behind : (name ++ '=' :: arg).dropWhile (· != '=') = '=' :: arg := by
    rw [List.dropWhile_append_of_pos other]
    simp
  obtain ⟨whole, hasArg, val⟩ := o
  rw [getoptLong, before, behind, found, parsed]
  · cases hasArg with
    | no => exact absurd rfl takes
    | required => rfl
    | optional => rfl
  · simp

theorem getoptLong_end (rest : List (List Char)) :
    getoptLong longs shorts (['-', '-'] :: rest) = ⟨[], rest⟩ := by
  rw [getoptLong]

end Getopt
