import Mathlib.Data.List.TakeWhile
import Mathlib.Data.Nat.Digits.Lemmas
import Mathlib.Tactic.Common

/-! Integers as C writes them: what the `strto` functions of the standard library read
and what the `printf` functions write. -/
namespace Numeral

open List

def isSpace (c : Char) : Bool :=
  c = ' ' || c = '\t' || c = '\n' || c = '\x0b' || c = '\x0c' || c = '\r'

def digitVal (c : Char) : Nat :=
  if 48 ≤ c.toNat ∧ c.toNat ≤ 57 then c.toNat - 48
  else if 97 ≤ c.toNat ∧ c.toNat ≤ 122 then c.toNat - 87
  else if 65 ≤ c.toNat ∧ c.toNat ≤ 90 then c.toNat - 55
  else 36

def isDigit (base : Nat) (c : Char) : Bool := digitVal c < base

def value (base : Nat) (ds : List Char) : Nat := ds.foldl (fun v c => v * base + digitVal c) 0

def sign : List Char → Bool × List Char
  | '-' :: cs => (true, cs)
  | '+' :: cs => (false, cs)
  | cs => (false, cs)

/-- Base 16 allows `0x` before the digits. Where no digit follows it, the numeral is the `0`. -/
def dropHex (base : Nat) : List Char → List Char
  | '0' :: x :: d :: cs =>
    if base = 16 ∧ (x = 'x' ∨ x = 'X') ∧ isDigit 16 d = true then d :: cs else '0' :: x :: d :: cs
  | cs => cs

structure Reading where
  neg : Bool
  mag : Nat
  rest : List Char
  deriving DecidableEq, Repr

def signed (neg : Bool) (mag : Nat) : Int := if neg then -(mag : Int) else mag

@[simp] theorem signed_false (mag : Nat) : signed false mag = mag := rfl

def read (base : Nat) (cs : List Char) : Option Reading :=
  let (neg, cs) := sign (cs.dropWhile isSpace)
  let cs := dropHex base cs
  let ds := cs.takeWhile (isDigit base)
  if ds.isEmpty then none else some ⟨neg, value base ds, cs.dropWhile (isDigit base)⟩

structure Strto where
  value : Int
  erange : Bool
  rest : List Char
  deriving DecidableEq, Repr

def strtoSigned (bits base : Nat) (cs : List Char) : Strto :=
  match read base cs with
  | none => ⟨0, false, cs⟩
  | some r =>
    let v := signed r.neg r.mag
    if v < -2 ^ (bits - 1) then ⟨-2 ^ (bits - 1), true, r.rest⟩
    else if 2 ^ (bits - 1) ≤ v then ⟨2 ^ (bits - 1) - 1, true, r.rest⟩
    else ⟨v, false, r.rest⟩

/-- A minus sign negates in the unsigned type, so that it is no error. -/
def strtoUnsigned (bits base : Nat) (cs : List Char) : Strto :=
  match read base cs with
  | none => ⟨0, false, cs⟩
  | some r =>
    if 2 ^ bits ≤ r.mag then ⟨2 ^ bits - 1, true, r.rest⟩
    else ⟨signed r.neg r.mag % 2 ^ bits, false, r.rest⟩

def printSigned : Int → List Char
  | .ofNat n => Nat.toDigits 10 n
  | .negSucc n => '-' :: Nat.toDigits 10 (n + 1)

/-! ### The texts that are numerals -/

inductive Mark : List Char → Bool → Prop
  | minus : Mark ['-'] true
  | plus : Mark ['+'] false
  | bare : Mark [] false

inductive Radix (base : Nat) : List Char → Prop
  | bare : Radix base []
  | hex (x : Char) (sixteen : base = 16) (hex : x = 'x' ∨ x = 'X') : Radix base ['0', x]

/-- The text is white space, a sign, the `0x` of base 16 and digits, of which only the digits
have to be there, and the number is what they say. -/
def Spells (base : Nat) (cs : List Char) (neg : Bool) (mag : Nat) : Prop :=
  ∃ blanks mark radix ds, cs = blanks ++ (mark ++ (radix ++ ds)) ∧
    (∀ c ∈ blanks, isSpace c = true) ∧ Mark mark neg ∧ Radix base radix ∧ ds ≠ [] ∧
    (∀ c ∈ ds, isDigit base c = true) ∧ mag = value base ds

theorem sign_mark (cs : List Char) : ∃ mark, cs = mark ++ (sign cs).2 ∧ Mark mark (sign cs).1 := by
  unfold sign
  split
  · exact ⟨['-'], rfl, .minus⟩
  · exact ⟨['+'], rfl, .plus⟩
  · exact ⟨[], rfl, .bare⟩

theorem dropHex_radix (base : Nat) (cs : List Char) :
    ∃ radix, cs = radix ++ dropHex base cs ∧ Radix base radix := by
  unfold dropHex
  split
  case h_1 x d cs =>
    split_ifs with hex
    · exact ⟨['0', x], rfl, .hex x hex.1 hex.2.1⟩
    · exact ⟨[], rfl, .bare⟩
  case h_2 => exact ⟨[], rfl, .bare⟩

variable {base : Nat} {cs : List Char}

theorem spells_of_read {r : Reading} (found : read base cs = some r) (whole : r.rest = []) :
    Spells base cs r.neg r.mag := by
  unfold read at found
  obtain ⟨mark, marked, sgn⟩ := sign_mark (cs.dropWhile isSpace)
  obtain ⟨radix, based, hex⟩ := dropHex_radix base (sign (cs.dropWhile isSpace)).2
  dsimp only at found
  split_ifs at found with none
  cases found
  have all := takeWhile_append_dropWhile (p := isDigit base)
    (l := dropHex base (sign (cs.dropWhile isSpace)).2)
  dsimp only at whole
  rw [whole, append_nil] at all
  refine ⟨cs.takeWhile isSpace, mark, radix, _, ?_, fun c mem => mem_takeWhile_imp mem, sgn,
    hex,
    fun nil => none (by rw [nil]; rfl), fun c mem => mem_takeWhile_imp mem, rfl⟩
  rw [all, ← based, ← marked, takeWhile_append_dropWhile]

theorem read_shorter {r : Reading} (found : read base cs = some r) : r.rest.length < cs.length := by
  unfold read at found
  obtain ⟨mark, marked, -⟩ := sign_mark (cs.dropWhile isSpace)
  obtain ⟨radix, based, -⟩ := dropHex_radix base (sign (cs.dropWhile isSpace)).2
  dsimp only at found
  split_ifs at found with none
  cases found
  have digits := takeWhile_append_dropWhile (p := isDigit base)
    (l := dropHex base (sign (cs.dropWhile isSpace)).2)
  have blanks := takeWhile_append_dropWhile (p := isSpace) (l := cs)
  have some :
      0 < ((dropHex base (sign (cs.dropWhile isSpace)).2).takeWhile (isDigit base)).length :=
    List.length_pos_iff.mpr fun nil => none (by rw [nil]; rfl)
  have lengths := congrArg List.length blanks
  rw [marked, based, ← digits] at lengths
  simp only [length_append] at lengths
  dsimp only
  omega

variable {c : Char}

theorem digit_plain (small : base ≤ 16) (digit : isDigit base c = true) :
    isSpace c = false ∧ c ≠ '-' ∧ c ≠ '+' ∧ ¬(c = 'x' ∨ c = 'X') := by
  have low : digitVal c < 16 := Nat.lt_of_lt_of_le (of_decide_eq_true digit) small
  refine ⟨?_, ?_, ?_, ?_⟩
  · rw [Bool.eq_false_iff]
    intro space
    simp only [isSpace, Bool.or_eq_true, decide_eq_true_eq] at space
    rcases space with ((((rfl | rfl) | rfl) | rfl) | rfl) | rfl <;> exact absurd low (by decide)
  · rintro rfl
    exact absurd low (by decide)
  · rintro rfl
    exact absurd low (by decide)
  · rintro (rfl | rfl) <;> exact absurd low (by decide)

theorem sign_digit (minus : c ≠ '-') (plus : c ≠ '+') (cs : List Char) :
    sign (c :: cs) = (false, c :: cs) := by
  unfold sign
  split
  case h_1 same => exact absurd (List.cons.inj same).1 minus
  case h_2 same => exact absurd (List.cons.inj same).1 plus
  case h_3 => rfl

variable {ds : List Char}

theorem dropHex_digits (small : base ≤ 16) (digits : ∀ c ∈ ds, isDigit base c = true) :
    dropHex base ds = ds := by
  unfold dropHex
  split
  case h_1 x d cs =>
    refine if_neg fun hex => ?_
    have digit := digits x (mem_cons_of_mem _ mem_cons_self)
    exact (digit_plain small digit).2.2.2 hex.2.1
  case h_2 => rfl

theorem dropWhile_blanks {p : Char → Bool} {blanks : List Char} (cs : List Char)
    (all : ∀ b ∈ blanks, p b = true) (stop : p c = false) :
    (blanks ++ c :: cs).dropWhile p = c :: cs := by
  rw [dropWhile_append_of_pos all, dropWhile_cons_of_neg (by rw [stop]; decide)]

variable {neg : Bool}

theorem sign_blanks {blanks mark radix : List Char} (small : base ≤ 16)
    (spaces : ∀ c ∈ blanks, isSpace c = true) (marked : Mark mark neg) (hex : Radix base radix)
    (some : ds ≠ []) (digits : ∀ c ∈ ds, isDigit base c = true) :
    sign ((blanks ++ (mark ++ (radix ++ ds))).dropWhile isSpace) = (neg, radix ++ ds) := by
  cases marked with
  | minus =>
    rw [singleton_append, dropWhile_blanks _ spaces (by decide)]
    rfl
  | plus =>
    rw [singleton_append, dropWhile_blanks _ spaces (by decide)]
    rfl
  | bare =>
    rw [nil_append]
    cases hex with
    | hex x sixteen letter =>
      change sign ((blanks ++ '0' :: x :: ds).dropWhile isSpace) = _
      rw [dropWhile_blanks _ spaces (by decide)]
      rfl
    | bare =>
      obtain ⟨c, cs, rfl⟩ := exists_cons_of_ne_nil some
      obtain ⟨space, minus, plus, -⟩ := digit_plain small (digits c mem_cons_self)
      rw [nil_append, dropWhile_blanks _ spaces space, sign_digit minus plus]

theorem dropHex_append {radix : List Char} (small : base ≤ 16) (hex : Radix base radix)
    (some : ds ≠ []) (digits : ∀ c ∈ ds, isDigit base c = true) :
    dropHex base (radix ++ ds) = ds := by
  cases hex with
  | bare => exact dropHex_digits small digits
  | hex x sixteen letter =>
    subst sixteen
    obtain ⟨c, cs, rfl⟩ := exists_cons_of_ne_nil some
    exact if_pos ⟨rfl, letter, digits c mem_cons_self⟩

variable {mag : Nat}

theorem read_of_spells (small : base ≤ 16) (spells : Spells base cs neg mag) :
    read base cs = some ⟨neg, mag, []⟩ := by
  obtain ⟨blanks, mark, radix, ds, rfl, spaces, marked, hex, some, digits, rfl⟩ := spells
  have taken : ds.takeWhile (isDigit base) = ds := List.takeWhile_eq_self_iff.2 digits
  have left : ds.dropWhile (isDigit base) = [] := List.dropWhile_eq_nil_iff.2 digits
  unfold read
  simp only [sign_blanks small spaces marked hex some digits, dropHex_append small hex some digits,
    taken,
    left, List.isEmpty_iff]
  exact if_neg some

theorem spells_unique {neg' : Bool} {mag' : Nat} (small : base ≤ 16)
    (spells : Spells base cs neg mag) (spells' : Spells base cs neg' mag') :
    neg = neg' ∧ mag = mag' := by
  have same := (read_of_spells small spells).symm.trans (read_of_spells small spells')
  cases same
  exact ⟨rfl, rfl⟩

theorem value_append (base : Nat) (ds : List Char) (c : Char) :
    value base (ds ++ [c]) = value base ds * base + digitVal c := by
  unfold value
  rw [foldl_append]
  rfl

theorem digitVal_digitChar {d : Nat} (small : d < 16) : digitVal d.digitChar = d := by
  interval_cases d <;> rfl

theorem digits_toDigits (two : 1 < base) (small : base ≤ 16) (n : Nat) :
    (∀ c ∈ Nat.toDigits base n, isDigit base c = true) ∧ value base (Nat.toDigits base n) = n := by
  have last {d : Nat} (low : d < base) : isDigit base d.digitChar = true := by
    unfold isDigit
    rw [digitVal_digitChar (by omega)]
    exact decide_eq_true low
  induction n using Nat.strongRecOn with
  | _ n ih =>
    rcases Nat.lt_or_ge n base with low | large
    · rw [Nat.toDigits_of_lt_base low]
      refine ⟨fun c mem => ?_, ?_⟩
      · rw [List.mem_singleton.1 mem]
        exact last low
      · change 0 * base + digitVal n.digitChar = n
        rw [digitVal_digitChar (by omega)]
        omega
    · obtain ⟨digits, same⟩ := ih (n / base) (Nat.div_lt_self (by omega) two)
      have low : n % base < base := Nat.mod_lt _ (by omega)
      rw [Nat.toDigits_of_base_le two large]
      refine ⟨fun c mem => ?_, ?_⟩
      · rcases List.mem_append.1 mem with mem | mem
        · exact digits c mem
        · rw [List.mem_singleton.1 mem]
          exact last low
      · rw [value_append, same, digitVal_digitChar (by omega)]
        exact Nat.div_add_mod' n base

theorem spells_toDigits (two : 1 < base) (small : base ≤ 16) (n : Nat) :
    Spells base (Nat.toDigits base n) false n := by
  obtain ⟨digits, same⟩ := digits_toDigits two small n
  exact ⟨[], [], [], _, rfl, fun _ mem => (not_mem_nil mem).elim, .bare, .bare,
    Nat.toDigits_ne_nil,
    digits, same.symm⟩

theorem spells_printSigned (v : Int) :
    ∃ neg mag, Spells 10 (printSigned v) neg mag ∧ signed neg mag = v := by
  cases v with
  | ofNat n => exact ⟨false, n, spells_toDigits (by decide) (by decide) n, rfl⟩
  | negSucc n =>
    obtain ⟨digits, same⟩ := digits_toDigits (show 1 < 10 by decide) (by decide) (n + 1)
    exact ⟨true, n + 1, ⟨[], ['-'], [], _, rfl, fun _ mem => (not_mem_nil mem).elim,
      .minus, .bare,
      Nat.toDigits_ne_nil, digits, same.symm⟩, rfl⟩

def zeroPadded (precision : Nat) (ds : List Char) : List Char :=
  List.replicate (precision - ds.length) '0' ++ ds

/-- `%.nd`: at least as many digits as the precision says. -/
def printPadded (precision : Nat) : Int → List Char
  | .ofNat n => zeroPadded precision (Nat.toDigits 10 n)
  | .negSucc n => '-' :: zeroPadded precision (Nat.toDigits 10 (n + 1))

theorem value_zeros (base k : Nat) (ds : List Char) :
    value base (List.replicate k '0' ++ ds) = value base ds := by
  induction k with
  | zero => rfl
  | succ k ih =>
    rw [replicate_succ, cons_append]
    change List.foldl _ (0 * base + digitVal '0') _ = _
    rw [Nat.zero_mul]
    exact ih

theorem decimal_digits (n : Nat) : ∀ c ∈ Nat.toDigits 10 n, isDigit 10 c = true :=
  (digits_toDigits (by decide) (by decide) n).1

theorem decimal_value (n : Nat) : value 10 (Nat.toDigits 10 n) = n :=
  (digits_toDigits (by decide) (by decide) n).2

theorem zeroPadded_digits (precision n : Nat) :
    ∀ c ∈ zeroPadded precision (Nat.toDigits 10 n), isDigit 10 c = true := by
  intro c mem
  rcases List.mem_append.1 mem with zero | mem
  · rw [eq_of_mem_replicate zero]
    decide
  · exact decimal_digits n c mem

theorem spells_printPadded (precision n : Nat) : Spells 10 (printPadded precision n) false n := by
  refine ⟨[], [], [], zeroPadded precision (Nat.toDigits 10 n), rfl, forall_mem_nil _, .bare,
    .bare, append_ne_nil_of_right_ne_nil _ Nat.toDigits_ne_nil,
    zeroPadded_digits precision n, ?_⟩
  rw [zeroPadded, value_zeros, decimal_value]

/-- A number of base 10 without a sign is read up to the first character that is no digit. -/
theorem read_prefix (some : ds ≠ []) (digits : ∀ d ∈ ds, isDigit 10 d = true)
    (other : isDigit 10 c = false) (rest : List Char) :
    read 10 (ds ++ c :: rest) = .some ⟨false, value 10 ds, c :: rest⟩ := by
  have hexless : dropHex 10 (ds ++ c :: rest) = ds ++ c :: rest := by
    unfold dropHex
    split
    case h_1 x d cs same =>
      rw [same]
      exact if_neg fun hex => absurd hex.1 (by decide)
    case h_2 => rfl
  have start : sign ((ds ++ c :: rest).dropWhile isSpace) = (false, ds ++ c :: rest) := by
    obtain ⟨d, ds, rfl⟩ := exists_cons_of_ne_nil some
    obtain ⟨space, minus, plus, -⟩ := digit_plain (by decide) (digits d mem_cons_self)
    rw [cons_append, dropWhile_cons_of_neg (by rw [space]; decide),
      sign_digit minus plus]
  have stop : ¬ isDigit 10 c = true := by rw [other]; decide
  simp only [read, start, hexless, takeWhile_append_of_pos digits,
    takeWhile_cons_of_neg stop, append_nil, dropWhile_append_of_pos digits,
    dropWhile_cons_of_neg stop]
  exact if_neg (by rwa [List.isEmpty_iff])

variable {bits : Nat}

theorem strtoSigned_held (spells : Spells 10 cs neg mag) (low : -2 ^ (bits - 1) ≤ signed neg mag)
    (high : signed neg mag < 2 ^ (bits - 1)) :
    strtoSigned bits 10 cs = ⟨signed neg mag, false, []⟩ := by
  rw [strtoSigned, read_of_spells (by decide) spells]
  dsimp only
  rw [if_neg (Int.not_lt.2 low), if_neg (Int.not_le.2 high)]

theorem strtoSigned_prefix (some : ds ≠ []) (digits : ∀ d ∈ ds, isDigit 10 d = true)
    (other : isDigit 10 c = false) (rest : List Char)
    (high : (value 10 ds : Int) < 2 ^ (bits - 1)) :
    strtoSigned bits 10 (ds ++ c :: rest) = ⟨value 10 ds, false, c :: rest⟩ := by
  have low : -2 ^ (bits - 1) ≤ signed false (value 10 ds) := by
    have : (0 : Int) ≤ 2 ^ (bits - 1) := Int.le_of_lt (Int.pow_pos (by decide))
    rw [signed_false]
    omega
  rw [← signed_false] at high
  rw [strtoSigned, read_prefix some digits other]
  dsimp only
  rw [if_neg (Int.not_lt.2 low), if_neg (Int.not_le.2 high), signed_false]

theorem strtoUnsigned_held (spells : Spells 10 cs neg mag) (small : mag < 2 ^ bits) :
    strtoUnsigned bits 10 cs = ⟨signed neg mag % 2 ^ bits, false, []⟩ := by
  rw [strtoUnsigned, read_of_spells (by decide) spells]
  exact if_neg (Nat.not_le.2 small)

theorem spells_ne_nil (spells : Spells base cs neg mag) : cs ≠ [] := by
  obtain ⟨blanks, mark, radix, ds, rfl, -, -, -, some, -⟩ := spells
  simp [some]

end Numeral
