import Crinit.Argv
import Crinit.EnvSet

/-! `crinitConfConvToEnvSetMember`: an ENV_SET directive is split into a name and a quoted text,
which is expanded into a buffer that grows with every variable. -/
namespace Crinit

open List

def isKeyStart (c : Char) : Bool := c.isAlpha || c = '_'

def isKeyChar (c : Char) : Bool := c.isAlphanum || c = '_'

inductive EnvOuterToken where
  | err
  | stop
  | wspc
  | envKey (text : List Char)
  | envVal (text : List Char)
  deriving DecidableEq, Repr

def splitLastQuote : List Char → Option (List Char × List Char)
  | [] => none
  | c :: cs =>
    match splitLastQuote cs with
    | some (text, rest) => some (c :: text, rest)
    | none => if c = '"' then some ([], cs) else none

def envVarOuterLex : List Char → EnvOuterToken × List Char
  | [] => (.stop, [])
  | c :: cs =>
    if isKeyStart c then (.envKey (c :: cs.takeWhile isKeyChar), cs.dropWhile isKeyChar)
    else if isBlank c then (.wspc, cs.dropWhile isBlank)
    else if c = '"' then
      match splitLastQuote cs with
      | some (text, rest) => (.envVal text, rest)
      | none => (.err, cs)
    else (.err, cs)

inductive EnvInnerToken where
  | err
  | stop
  | cpy (c : Char)
  | esc (c : Char)
  | escx (a b : Char)
  | var (name : List Char)
  deriving DecidableEq, Repr

def varAt (cs : List Char) : Option (List Char × List Char) :=
  match cs.takeWhile isKeyChar, cs.dropWhile isKeyChar with
  | c :: name, '\x7d' :: rest => if isKeyStart c then some (c :: name, rest) else none
  | _, _ => none

def envVarInnerLex : List Char → EnvInnerToken × List Char
  | [] => (.stop, [])
  | '\\' :: 'x' :: a :: b :: cs =>
    if Numeral.isDigit 16 a && Numeral.isDigit 16 b then (.escx a b, cs)
    else (.esc 'x', a :: b :: cs)
  | '\\' :: c :: cs => (.esc c, cs)
  | ['\\'] => (.err, [])
  | '$' :: '\x7b' :: cs =>
    match varAt cs with
    | some (name, rest) => (.var name, rest)
    | none => (.cpy '$', '\x7b' :: cs)
  | c :: cs => (.cpy c, cs)

/-- The requests for memory of the conversion. Those for a variable in the text are told apart
by the length of the text behind it. -/
structure EnvConvMem extends EnvSetMem where
  keyOk : Bool := true
  valOk : Bool := true
  bufOk : Bool := true
  nameOk : Nat → Bool := fun _ => true
  substOk : Nat → Bool := fun _ => true

def outerLoop (mem : EnvConvMem) :
    Nat → List Char → Option (List Char) → Option (List Char) → Option (List Char × List Char)
  | 0, _, _, _ => none
  | turns + 1, s, envKey, envVal =>
    match envVarOuterLex s with
    | (.err, _) => none
    | (.stop, _) =>
      match envKey, envVal with
      | some key, some val => some (key, val)
      | _, _ => none
    | (.wspc, rest) => outerLoop mem turns rest envKey envVal
    | (.envKey key, rest) =>
      if envKey.isSome || !mem.keyOk then none else outerLoop mem turns rest (some key) envVal
    | (.envVal val, rest) =>
      if envKey.isNone || envVal.isSome || !mem.valOk then none
      else outerLoop mem turns rest envKey (some val)

structure ValBuf where
  alloc : Nat
  text : List Char
  deriving DecidableEq, Repr

/-- A write behind the end of the buffer has no result. The NUL of `stpcpy` is not counted as
text. -/
def ValBuf.write (b : ValBuf) (s : List Char) (nuls : Nat) : Option ValBuf :=
  if b.text.length + s.length + nuls ≤ b.alloc then some ⟨b.alloc, b.text ++ s⟩ else none

/-- The second loop. The inner `none` is an error, the outer one a write behind the end. -/
def expandLoop (mem : EnvConvMem) (es : EnvSet) :
    Nat → List Char → ValBuf → Option (Option (List Char))
  | 0, _, _ => some none
  | turns + 1, s, b =>
    match envVarInnerLex s with
    | (.err, _) => some none
    | (.stop, _) => (b.write [] 1).map fun b => some b.text
    | (.cpy c, rest) => (b.write [c] 0).bind (expandLoop mem es turns rest)
    | (.esc c, rest) =>
      if escMap c = '\x00' then some none
      else (b.write [escMap c] 0).bind (expandLoop mem es turns rest)
    | (.escx h l, rest) =>
      (b.write [Char.ofNat (Numeral.value 16 [h, l])] 0).bind (expandLoop mem es turns rest)
    | (.var name, rest) =>
      if !mem.nameOk rest.length then some none
      else
        match es.get name with
        | none => expandLoop mem es turns rest b
        | some val =>
          if val.length = 0 then expandLoop mem es turns rest b
          else if !mem.substOk rest.length then some none
          else ((⟨b.alloc + val.length, b.text⟩ : ValBuf).write val 1).bind
            (expandLoop mem es turns rest)

def confConvToEnvSetMember (mem : EnvConvMem) (es : EnvSet) (confVal : List Char) :
    Option (Int × EnvSet) :=
  match outerLoop mem (confVal.length + 1) confVal none none with
  | none => some (-1, es)
  | some (envKey, envVal) =>
    if !mem.bufOk then some (-1, es)
    else
      match expandLoop mem es (envVal.length + 1) envVal ⟨envVal.length + 1, []⟩ with
      | none => none
      | some none => some (-1, es)
      | some (some parsedVal) => es.set mem.toEnvSetMem envKey parsedVal

def expandOne (es : EnvSet) : List Char → List Char × List Char
  | [] => ([], [])
  | '\\' :: 'x' :: a :: b :: cs =>
    if Numeral.isDigit 16 a && Numeral.isDigit 16 b && Numeral.value 16 [a, b] != 0 then
      ([Char.ofNat (Numeral.value 16 [a, b])], cs)
    else (['\\'], 'x' :: a :: b :: cs)
  | '\\' :: c :: cs => if escMap c != '\x00' then ([escMap c], cs) else (['\\'], c :: cs)
  | '$' :: '\x7b' :: cs =>
    match varAt cs with
    | some (name, rest) => ((es.get name).getD [], rest)
    | none => (['$'], '\x7b' :: cs)
  | c :: cs => ([c], cs)

def referenceLoop (es : EnvSet) : Nat → List Char → List Char
  | 0, _ => []
  | turns + 1, s => (expandOne es s).1 ++ referenceLoop es turns (expandOne es s).2

def reference (es : EnvSet) (text : List Char) : List Char := referenceLoop es text.length text

def Identifier (name : List Char) : Prop :=
  ∃ c cs, name = c :: cs ∧ isKeyStart c = true ∧ ∀ c ∈ cs, isKeyChar c = true

def Blanks (cs : List Char) : Prop := ∀ c ∈ cs, isBlank c = true

def Directive (confVal name text : List Char) : Prop :=
  ∃ before between after, Blanks before ∧ Identifier name ∧ Blanks between ∧ Blanks after ∧
    confVal = before ++ (name ++ (between ++ '"' :: (text ++ '"' :: after)))

section Outer

variable {mem : EnvConvMem} {turns : Nat} {s cs name text after : List Char}

theorem splitLastQuote_eq (split : splitLastQuote cs = some (text, after)) :
    cs = text ++ '"' :: after := by
  induction cs generalizing text with
  | nil => cases split
  | cons c cs ih =>
    unfold splitLastQuote at split
    cases behind : splitLastQuote cs with
    | some r =>
      rw [behind] at split
      cases split
      rw [ih behind, cons_append]
    | none =>
      rw [behind] at split
      dsimp only at split
      split_ifs at split with quote
      cases split
      rw [quote, nil_append]

theorem splitLastQuote_none (plain : '"' ∉ cs) : splitLastQuote cs = none := by
  induction cs with
  | nil => rfl
  | cons c cs ih =>
    rw [mem_cons, not_or] at plain
    rw [splitLastQuote, ih plain.2]
    exact if_neg (Ne.symm plain.1)

theorem splitLastQuote_append (text : List Char) (plain : '"' ∉ after) :
    splitLastQuote (text ++ '"' :: after) = some (text, after) := by
  induction text with
  | nil => rw [nil_append, splitLastQuote, splitLastQuote_none plain]; rfl
  | cons c text ih => rw [cons_append, splitLastQuote, ih]

theorem blank_plain {c : Char} (blank : isBlank c = true) : isKeyStart c = false ∧ c ≠ '"' := by
  rcases isBlank_iff.1 blank with rfl | rfl
  · decide
  · decide

theorem head_plain {c : Char} (rest : s.dropWhile isBlank = c :: cs) : isBlank c = false := by
  have plain := head?_dropWhile_not isBlank s
  rw [rest] at plain
  exact plain

theorem outerLex_blank {c : Char} (blank : isBlank c = true) (cs : List Char) :
    envVarOuterLex (c :: cs) = (.wspc, cs.dropWhile isBlank) := by
  simp [envVarOuterLex, (blank_plain blank).1, blank]

theorem outerLex_key {c : Char} (key : isKeyStart c = true) (cs : List Char) :
    envVarOuterLex (c :: cs) = (.envKey (c :: cs.takeWhile isKeyChar), cs.dropWhile isKeyChar) := by
  simp [envVarOuterLex, key]

theorem outerLex_quote (cs : List Char) : envVarOuterLex ('"' :: cs) =
    match splitLastQuote cs with
    | some (text, rest) => (.envVal text, rest)
    | none => (.err, cs) := by
  rw [envVarOuterLex, if_neg (by decide), if_neg (by decide), if_pos rfl]

theorem outerLex_other {c : Char} (key : ¬ isKeyStart c = true) (blank : isBlank c = false)
    (quote : c ≠ '"') (cs : List Char) : envVarOuterLex (c :: cs) = (.err, cs) := by
  simp [envVarOuterLex, key, blank, quote]

theorem outerLoop_skip (mem : EnvConvMem) (enough : s.length < turns)
    (key val : Option (List Char)) : ∃ left, (s.dropWhile isBlank).length ≤ left ∧
      outerLoop mem turns s key val = outerLoop mem (left + 1) (s.dropWhile isBlank) key val := by
  obtain ⟨turns, rfl⟩ := Nat.exists_eq_succ_of_ne_zero (Nat.ne_of_gt (Nat.zero_lt_of_lt enough))
  rw [Nat.succ_eq_add_one] at enough ⊢
  cases s with
  | nil => exact ⟨turns, Nat.zero_le _, rfl⟩
  | cons c cs =>
    rw [length_cons] at enough
    by_cases blank : isBlank c = true
    · have shorter := length_dropWhile_le isBlank cs
      refine ⟨turns - 1, ?_, ?_⟩
      · rw [dropWhile_cons_of_pos blank]
        omega
      · rw [dropWhile_cons_of_pos blank, Nat.sub_add_cancel (by omega)]
        conv_lhs => unfold outerLoop
        rw [outerLex_blank blank]
    · rw [dropWhile_cons_of_neg blank]
      exact ⟨turns, by rw [length_cons]; omega, rfl⟩

def QuotedRest (s text : List Char) : Prop :=
  ∃ cs after, s.dropWhile isBlank = '"' :: cs ∧ splitLastQuote cs = some (text, after) ∧
    after.dropWhile isBlank = []

section Turns

variable (enough : s.length < turns) (r : List Char × List Char)
include enough r

theorem outerLoop_end :
    outerLoop mem turns s (some name) (some text) = some r ↔
      s.dropWhile isBlank = [] ∧ (name, text) = r := by
  obtain ⟨left, -, skipped⟩ := outerLoop_skip mem enough (some name) (some text)
  rw [skipped]
  cases rest : s.dropWhile isBlank with
  | nil => simp [outerLoop, envVarOuterLex]
  | cons c cs =>
    unfold outerLoop
    by_cases key : isKeyStart c = true
    · simp [outerLex_key key]
    by_cases quote : c = '"'
    · subst quote
      rw [outerLex_quote]
      cases splitLastQuote cs with
      | none => simp
      | some r => simp
    · simp [outerLex_other key (head_plain rest) quote]

theorem outerLoop_value :
    outerLoop mem turns s (some name) none = some r ↔
      mem.valOk = true ∧ name = r.1 ∧ QuotedRest s r.2 := by
  obtain ⟨left, enough, skipped⟩ := outerLoop_skip mem enough (some name) none
  rw [skipped, QuotedRest]
  cases rest : s.dropWhile isBlank with
  | nil => simp [outerLoop, envVarOuterLex]
  | cons c cs =>
    unfold outerLoop
    by_cases key : isKeyStart c = true
    · have quote : c ≠ '"' := by
        rintro rfl
        exact absurd key (by decide)
      simp [outerLex_key key, quote]
    by_cases quote : c = '"'
    · subst quote
      rw [outerLex_quote]
      cases split : splitLastQuote cs with
      | none => simp [split]
      | some behind =>
        obtain ⟨text, after⟩ := behind
        have shorter := congrArg List.length (splitLastQuote_eq split)
        rw [length_append, length_cons] at shorter
        rw [rest, length_cons] at enough
        have ends := @outerLoop_end mem left after name text (by omega) r
        cases mem.valOk with
        | false => simp
        | true =>
          simp [ends, split, Prod.ext_iff, and_comm, and_assoc]
    · simp [outerLex_other key (head_plain rest) quote, quote]

theorem outerLoop_key :
    outerLoop mem turns s none none = some r ↔ mem.keyOk = true ∧ mem.valOk = true ∧
      ∃ c cs, s.dropWhile isBlank = c :: cs ∧ isKeyStart c = true ∧
        c :: cs.takeWhile isKeyChar = r.1 ∧ QuotedRest (cs.dropWhile isKeyChar) r.2 := by
  obtain ⟨left, enough, skipped⟩ := outerLoop_skip mem enough none none
  rw [skipped]
  cases rest : s.dropWhile isBlank with
  | nil => simp [outerLoop, envVarOuterLex]
  | cons c cs =>
    unfold outerLoop
    by_cases key : isKeyStart c = true
    · have shorter := length_dropWhile_le isKeyChar cs
      rw [rest, length_cons] at enough
      have value := @outerLoop_value mem left (cs.dropWhile isKeyChar)
        (c :: cs.takeWhile isKeyChar) (by omega) r
      cases keyOk : mem.keyOk with
      | false => simp [outerLex_key key]
      | true => simp [outerLex_key key, key, value]
    by_cases quote : c = '"'
    · subst quote
      rw [outerLex_quote]
      cases splitLastQuote cs with
      | none => simp [key]
      | some r => simp [key]
    · simp [outerLex_other key (head_plain rest) quote, key]

end Turns

theorem quotedRest_iff : QuotedRest s text ↔ ∃ between after, Blanks between ∧ Blanks after ∧
    s = between ++ '"' :: (text ++ '"' :: after) := by
  constructor
  · rintro ⟨cs, after, rest, split, blanks⟩
    refine ⟨s.takeWhile isBlank, after, fun c mem => mem_takeWhile_imp mem,
      List.dropWhile_eq_nil_iff.1 blanks, ?_⟩
    rw [← splitLastQuote_eq split, ← rest, takeWhile_append_dropWhile]
  · rintro ⟨between, after, blanks, blanksAfter, rfl⟩
    have plain : '"' ∉ after := fun mem => absurd (blanksAfter _ mem) (by decide)
    refine ⟨text ++ '"' :: after, after, ?_, splitLastQuote_append text plain,
      List.dropWhile_eq_nil_iff.2 blanksAfter⟩
    rw [dropWhile_append_of_pos blanks]
    exact dropWhile_cons_of_neg (by decide)

theorem quoted_or_blank {between : List Char} (blanks : Blanks between) (cs : List Char) :
    ∃ d ds, between ++ '"' :: cs = d :: ds ∧ isKeyChar d = false := by
  cases between with
  | nil => exact ⟨'"', cs, rfl, by decide⟩
  | cons d ds =>
    refine ⟨d, ds ++ '"' :: cs, rfl, ?_⟩
    have blank := blanks d mem_cons_self
    rcases isBlank_iff.1 blank with rfl | rfl
    · decide
    · decide

theorem directive_iff {confVal : List Char} : Directive confVal name text ↔
    ∃ c cs, confVal.dropWhile isBlank = c :: cs ∧ isKeyStart c = true ∧
      c :: cs.takeWhile isKeyChar = name ∧ QuotedRest (cs.dropWhile isKeyChar) text := by
  constructor
  · rintro ⟨before, between, after, blanks, ⟨c, cs, rfl, start, inside⟩, blanks', blanks'', rfl⟩
    obtain ⟨d, ds, behind, other⟩ := quoted_or_blank blanks' (text ++ '"' :: after)
    have notBlank : ¬ isBlank c = true := by
      intro blank
      rw [(blank_plain blank).1] at start
      cases start
    refine ⟨c, cs ++ (between ++ '"' :: (text ++ '"' :: after)), ?_, start, ?_, ?_⟩
    · rw [dropWhile_append_of_pos blanks, cons_append, dropWhile_cons_of_neg notBlank]
    · rw [takeWhile_append_of_pos inside, behind,
        takeWhile_cons_of_neg (by rw [other]; decide), append_nil]
    · rw [dropWhile_append_of_pos inside, behind,
        dropWhile_cons_of_neg (by rw [other]; decide), ← behind]
      exact quotedRest_iff.2 ⟨between, after, blanks', blanks'', rfl⟩
  · rintro ⟨c, cs, rest, start, rfl, quotedRest⟩
    obtain ⟨between, after, blanks, blanks', behind⟩ := quotedRest_iff.1 quotedRest
    refine ⟨confVal.takeWhile isBlank, between, after, fun c mem => mem_takeWhile_imp mem,
      ⟨c, _, rfl, start, fun c mem => mem_takeWhile_imp mem⟩, blanks, blanks', ?_⟩
    rw [← behind, cons_append, takeWhile_append_dropWhile, ← rest, takeWhile_append_dropWhile]

theorem outerLoop_iff (mem : EnvConvMem) (confVal : List Char) :
    outerLoop mem (confVal.length + 1) confVal none none = some (name, text) ↔
      mem.keyOk = true ∧ mem.valOk = true ∧ Directive confVal name text := by
  rw [outerLoop_key (Nat.lt_succ_self _), directive_iff]

end Outer

def innerTokens : Nat → List Char → List (EnvInnerToken × Nat)
  | 0, _ => []
  | turns + 1, s =>
    match envVarInnerLex s with
    | (.stop, _) => []
    | (token, rest) => (token, rest.length) :: innerTokens turns rest

def tokenOk (mem : EnvConvMem) (es : EnvSet) : EnvInnerToken × Nat → Bool
  | (.err, _) => false
  | (.esc c, _) => escMap c != '\x00'
  | (.var name, left) => mem.nameOk left && (((es.get name).getD []).isEmpty || mem.substOk left)
  | _ => true

def tokenText (es : EnvSet) : EnvInnerToken → List Char
  | .cpy c => [c]
  | .esc c => [escMap c]
  | .escx a b => [Char.ofNat (Numeral.value 16 [a, b])]
  | .var name => (es.get name).getD []
  | _ => []

def isZero : EnvInnerToken → Bool
  | .escx a b => Numeral.value 16 [a, b] = 0
  | _ => false

def decodedText (es : EnvSet) (tokens : List (EnvInnerToken × Nat)) : List Char :=
  tokens.flatMap fun t => tokenText es t.1

section Inner

variable {mem : EnvConvMem} {es : EnvSet} {turns : Nat} {s rest : List Char}
  {token : EnvInnerToken}

theorem varAt_eq {cs name : List Char} (found : varAt cs = some (name, rest)) :
    cs = name ++ '\x7d' :: rest := by
  unfold varAt at found
  split at found
  · rename_i c inside rest' taken left
    split_ifs at found
    cases found
    rw [← taken, ← left, takeWhile_append_dropWhile]
  · cases found

theorem innerLex_append (s : List Char) :
    ∃ read, s = read ++ (envVarInnerLex s).2 ∧ (s ≠ [] → read ≠ []) := by
  fun_cases envVarInnerLex s with
  | case1 => exact ⟨[], rfl, fun some => some⟩
  | case2 a b cs => exact ⟨['\\', 'x', a, b], rfl, fun _ => cons_ne_nil _ _⟩
  | case3 => exact ⟨['\\', 'x'], rfl, fun _ => cons_ne_nil _ _⟩
  | case4 c => exact ⟨['\\', c], rfl, fun _ => cons_ne_nil _ _⟩
  | case5 => exact ⟨['\\'], rfl, fun _ => cons_ne_nil _ _⟩
  | case6 cs name rest found =>
    refine ⟨'$' :: '\x7b' :: (name ++ ['\x7d']), ?_, fun _ => cons_ne_nil _ _⟩
    rw [varAt_eq found]
    simp
  | case7 => exact ⟨['$'], rfl, fun _ => cons_ne_nil _ _⟩
  | case8 c => exact ⟨[c], rfl, fun _ => cons_ne_nil _ _⟩

theorem innerLex_stop (lexed : envVarInnerLex s = (.stop, rest)) : s = [] := by
  revert lexed
  fun_cases envVarInnerLex s with
  | case1 => intro _; rfl
  | _ => intro lexed; cases lexed

theorem hex_char {a b : Char} (digit : Numeral.isDigit 16 a = true)
    (digit' : Numeral.isDigit 16 b = true) (nonzero : Numeral.value 16 [a, b] ≠ 0) :
    Char.ofNat (Numeral.value 16 [a, b]) ≠ '\x00' := by
  have high := of_decide_eq_true digit
  have low := of_decide_eq_true digit'
  have small : Numeral.value 16 [a, b] < 256 := by
    change (0 * 16 + Numeral.digitVal a) * 16 + Numeral.digitVal b < 256
    omega
  intro same
  have code := congrArg Char.toNat same
  rw [Char.ofNat, dif_pos (Or.inl (by omega))] at code
  exact nonzero code

theorem get_noNul (es : EnvSet) (name : List Char) : '\x00' ∉ (es.get name).getD [] := by
  unfold EnvSet.get
  split_ifs
  · exact not_mem_nil
  · cases found : es.envp.find? (isEntry name) with
    | none => exact not_mem_nil
    | some e =>
      intro mem
      refine es.strings e (mem_of_find?_eq_some found) ?_
      exact (dropWhile_sublist _).subset (mem_of_mem_tail mem)

section Lexed

variable (lexed : envVarInnerLex s = (token, rest))
include lexed

theorem innerLex_shorter (some : s ≠ []) :
    rest.length < s.length := by
  obtain ⟨read, parts, progress⟩ := innerLex_append s
  have length := congrArg List.length parts
  rw [lexed, length_append] at length
  dsimp only at length
  have := List.length_pos_iff.2 (progress some)
  omega

theorem innerLex_within {c : Char} (mem : c ∈ rest) :
    c ∈ s := by
  obtain ⟨read, parts, -⟩ := innerLex_append s
  rw [parts, lexed]
  exact mem_append_right read mem

/-- The loop agrees with the documented value on every token it does not refuse, NUL apart. -/
theorem expandOne_eq (ok : tokenOk mem es (token, rest.length) = true)
    (nonzero : isZero token = false) :
    expandOne es s = (tokenText es token, rest) := by
  revert lexed
  fun_cases envVarInnerLex s with
  | case1 => rintro ⟨⟩; rfl
  | case2 a b cs digits =>
    rintro ⟨⟩
    rw [Bool.and_eq_true] at digits
    have value : Numeral.value 16 [a, b] ≠ 0 := of_decide_eq_false nonzero
    simp [expandOne, tokenText, digits, value]
  | case3 a b cs digits => rintro ⟨⟩; simp [tokenOk, escMap] at ok
  | case4 c cs short =>
    rintro ⟨⟩
    have supported : escMap c ≠ '\x00' := by simpa [tokenOk] using ok
    simp [expandOne, tokenText, supported]
  | case5 => rintro ⟨⟩; cases ok
  | case6 cs name rest found => rintro ⟨⟩; simp [expandOne, tokenText, found]
  | case7 cs found => rintro ⟨⟩; simp [expandOne, tokenText, found]
  | case8 c cs hex escape lone var =>
    rintro ⟨⟩
    rw [expandOne]
    · rfl
    · exact hex
    · exact escape
    · exact var

theorem expandOne_zero (zero : isZero token = true) :
    (expandOne es s).1 = ['\\'] := by
  revert lexed
  fun_cases envVarInnerLex s with
  | case2 a b cs digits =>
    rintro ⟨⟩
    have value : Numeral.value 16 [a, b] = 0 := of_decide_eq_true zero
    simp [expandOne, value]
  | _ => rintro ⟨⟩; cases zero

theorem tokenText_noNul (noNul : '\x00' ∉ s) (ok : tokenOk mem es (token, rest.length) = true)
    (nonzero : isZero token = false) :
    '\x00' ∉ tokenText es token := by
  revert lexed
  fun_cases envVarInnerLex s with
  | case1 => rintro ⟨⟩; exact not_mem_nil
  | case2 a b cs digits =>
    rintro ⟨⟩
    rw [Bool.and_eq_true] at digits
    have char := hex_char digits.1 digits.2 (of_decide_eq_false nonzero)
    exact fun mem => char (List.mem_singleton.1 mem).symm
  | case3 => rintro ⟨⟩; simp [tokenOk, escMap] at ok
  | case4 c cs =>
    rintro ⟨⟩
    have supported : escMap c ≠ '\x00' := by simpa [tokenOk] using ok
    exact fun mem => supported (List.mem_singleton.1 mem).symm
  | case5 => rintro ⟨⟩; exact not_mem_nil
  | case6 cs name => rintro ⟨⟩; exact get_noNul es name
  | case7 cs found => rintro ⟨⟩; simp [tokenText]
  | case8 c cs =>
    rintro ⟨⟩
    exact fun mem => noNul (List.mem_singleton.1 mem ▸ mem_cons_self)

theorem innerTokens_cons (goes : token ≠ .stop) :
    innerTokens (turns + 1) s = (token, rest.length) :: innerTokens turns rest := by
  rw [innerTokens, lexed]
  cases token with
  | stop => exact absurd rfl goes
  | _ => rfl

end Lexed

def expansion (mem : EnvConvMem) (es : EnvSet) (tokens : List (EnvInnerToken × Nat))
    (text : List Char) : Option (List Char) :=
  if tokens.all (tokenOk mem es) then some (text ++ decodedText es tokens) else none

theorem expansion_cons {left : Nat} {tokens : List (EnvInnerToken × Nat)} (text : List Char)
    (ok : tokenOk mem es (token, left) = true) :
    expansion mem es ((token, left) :: tokens) text =
      expansion mem es tokens (text ++ tokenText es token) := by
  rw [expansion, expansion, all_cons, ok, Bool.true_and, append_assoc]
  rfl

theorem expansion_refused {left : Nat} {tokens : List (EnvInnerToken × Nat)} (text : List Char)
    (refused : tokenOk mem es (token, left) = false) :
    expansion mem es ((token, left) :: tokens) text = none := by
  simp [expansion, refused]

theorem write_fits {b : ValBuf} {text : List Char} {nuls : Nat}
    (fits : b.text.length + text.length + nuls ≤ b.alloc) :
    b.write text nuls = some ⟨b.alloc, b.text ++ text⟩ := if_pos fits

/-- The rest of the text fits into the rest of the buffer: a token other than a variable is not
longer than what it stands for, and the buffer grows by the value of a variable. -/
theorem expandLoop_eq (enough : s.length < turns) {b : ValBuf}
    (room : b.text.length + s.length < b.alloc) :
    expandLoop mem es turns s b = some (expansion mem es (innerTokens turns s) b.text) := by
  induction turns generalizing s b with
  | zero => omega
  | succ turns ih =>
    cases lexed : envVarInnerLex s with
    | mk token rest =>
    unfold expandLoop
    rw [lexed]
    by_cases stop : token = .stop
    · subst stop
      have empty := innerLex_stop lexed
      subst empty
      rw [length_nil] at room
      rw [write_fits (by rw [length_nil]; omega)]
      rfl
    have nonempty : s ≠ [] := by
      rintro rfl
      cases lexed
      exact stop rfl
    have shorter := innerLex_shorter lexed nonempty
    have again := @ih rest (by omega)
    rw [innerTokens_cons lexed stop]
    -- one character in place of at least one
    have char {c : Char} (text : tokenText es token = [c])
        (ok : tokenOk mem es (token, rest.length) = true) :
        (b.write [c] 0).bind (expandLoop mem es turns rest) =
          some (expansion mem es ((token, rest.length) :: innerTokens turns rest) b.text) := by
      rw [write_fits (by rw [length_singleton]; omega), expansion_cons b.text ok, text]
      refine again ?_
      dsimp only
      rw [length_append, length_singleton]
      omega
    cases token with
    | stop => exact absurd rfl stop
    | err => rw [expansion_refused b.text rfl]
    | cpy c => exact char rfl rfl
    | esc c =>
      dsimp only
      split_ifs with unknown
      · rw [expansion_refused b.text (by simp [tokenOk, unknown])]
      · exact char rfl (by simpa [tokenOk] using unknown)
    | escx a d => exact char rfl rfl
    | var name =>
      dsimp only
      by_cases short : mem.nameOk rest.length = true
      swap
      · rw [expansion_refused b.text (by simp [tokenOk, short])]
        simp [short]
      rw [if_neg (by simp [short])]
      have unset (empty : (es.get name).getD [] = []) : expandLoop mem es turns rest b =
          some (expansion mem es ((.var name, rest.length) :: innerTokens turns rest) b.text) := by
        rw [expansion_cons b.text (by simp [tokenOk, short, empty]), tokenText, empty,
          append_nil]
        exact again (by omega)
      cases found : es.get name with
      | none => exact unset (by rw [found]; rfl)
      | some val =>
        dsimp only
        split_ifs with empty short'
        · exact unset (by rw [found]; exact List.length_eq_zero_iff.1 empty)
        · rw [expansion_refused b.text]
          simp_all [tokenOk]
        · rw [write_fits (by dsimp only; omega), expansion_cons b.text, tokenText, found]
          · refine again ?_
            dsimp only
            rw [length_append]
            omega
          · simp_all [tokenOk]

theorem referenceLoop_nil (es : EnvSet) (steps : Nat) : referenceLoop es steps [] = [] := by
  induction steps with
  | zero => rfl
  | succ steps ih => exact ih

theorem upToNul_append {text : List Char} (noNul : '\x00' ∉ text) (behind : List Char) :
    upToNul (text ++ behind) = text ++ upToNul behind := by
  refine takeWhile_append_of_pos fun c mem => ?_
  rw [bne_iff_ne]
  rintro rfl
  exact noNul mem

/-- What the set keeps of the decoded text is the documented value, unless there is a NUL in it:
the documented value is then longer. -/
theorem decoded_reference {steps : Nat} (enough : s.length < turns) (enough' : s.length ≤ steps)
    (noNul : '\x00' ∉ s) (ok : (innerTokens turns s).all (tokenOk mem es) = true) :
    upToNul (decodedText es (innerTokens turns s)) = referenceLoop es steps s ↔
      (innerTokens turns s).any (fun t => isZero t.1) = false := by
  induction turns generalizing s steps with
  | zero => omega
  | succ turns ih =>
    cases lexed : envVarInnerLex s with
    | mk token rest =>
    by_cases stop : token = .stop
    · subst stop
      have empty := innerLex_stop lexed
      subst empty
      rw [referenceLoop_nil]
      simp [innerTokens, envVarInnerLex, decodedText, upToNul]
    have nonempty : s ≠ [] := by
      rintro rfl
      cases lexed
      exact stop rfl
    have shorter := innerLex_shorter lexed nonempty
    obtain ⟨steps, rfl⟩ : ∃ k, steps = k + 1 := ⟨steps - 1, by omega⟩
    rw [innerTokens_cons lexed stop] at ok ⊢
    rw [all_cons, Bool.and_eq_true] at ok
    rw [decodedText, flatMap_cons, any_cons, referenceLoop]
    cases zero : isZero token with
    | true =>
      have nul : tokenText es token = ['\x00'] := by
        cases token with
        | escx a b => rw [tokenText, of_decide_eq_true zero]
        | _ => cases zero
      rw [expandOne_zero lexed zero, nul]
      simp [upToNul]
    | false =>
      have again := @ih rest steps (by omega) (by omega)
        (fun mem => noNul (innerLex_within lexed mem)) ok.2
      rw [expandOne_eq lexed ok.1 zero, upToNul_append (tokenText_noNul lexed noNul ok.1 zero),
        append_cancel_left_eq, Bool.false_or]
      exact again

end Inner

/-- The function changes nothing and says so, or sets the variable of the directive to its
documented value and no other variable. -/
def SetsDocumented (mem : EnvConvMem) (es : EnvSet) (confVal : List Char) : Prop :=
  ∃ ret es', confConvToEnvSetMember mem es confVal = some (ret, es') ∧
    ((ret = -1 ∧ ∀ n, es'.get n = es.get n) ∨
      (ret = 0 ∧ ∃ name text, Directive confVal name text ∧
        es'.get name = some (reference es text) ∧ ∀ n, n ≠ name → es'.get n = es.get n))

def textTokens (text : List Char) : List (EnvInnerToken × Nat) := innerTokens (text.length + 1) text

def Expandable (mem : EnvConvMem) (es : EnvSet) (text : List Char) : Prop :=
  mem.keyOk = true ∧ mem.valOk = true ∧ mem.bufOk = true ∧
    (textTokens text).all (tokenOk mem es) = true

def ZeroByte (text : List Char) : Prop := (textTokens text).any (fun t => isZero t.1) = true

theorem identifier_plain {name : List Char} (identifier : Identifier name) :
    '=' ∉ name ∧ '\x00' ∉ name := by
  obtain ⟨c, cs, rfl, start, inside⟩ := identifier
  have all : ∀ d ∈ c :: cs, isKeyStart d = true ∨ isKeyChar d = true := by
    intro d mem
    rcases List.mem_cons.1 mem with rfl | mem
    · exact .inl start
    · exact .inr (inside d mem)
  constructor
  · intro mem
    exact absurd (all _ mem) (by decide)
  · intro mem
    exact absurd (all _ mem) (by decide)

theorem directive_noNul {confVal name text : List Char} (directive : Directive confVal name text)
    (noNul : '\x00' ∉ confVal) : '\x00' ∉ text := by
  obtain ⟨before, between, after, -, -, -, -, rfl⟩ := directive
  simp only [mem_append, mem_cons, not_or] at noNul
  exact noNul.2.2.2.2.1

theorem directive_unique {confVal name text name' text' : List Char}
    (directive : Directive confVal name text) (directive' : Directive confVal name' text') :
    name' = name ∧ text' = text := by
  have read := (outerLoop_iff {} confVal).2 ⟨rfl, rfl, directive⟩
  have read' := (outerLoop_iff {} confVal).2 ⟨rfl, rfl, directive'⟩
  rw [read] at read'
  cases read'
  exact ⟨rfl, rfl⟩

section Conversion

variable {mem : EnvConvMem} {es : EnvSet} {confVal name text : List Char}

theorem expandLoop_text (mem : EnvConvMem) (es : EnvSet) (text : List Char) :
    expandLoop mem es (text.length + 1) text ⟨text.length + 1, []⟩ =
      some (expansion mem es (textTokens text) []) :=
  expandLoop_eq (Nat.lt_succ_self _) (by simp)

theorem confConv_set (directive : Directive confVal name text)
    (expandable : Expandable mem es text) : confConvToEnvSetMember mem es confVal =
      es.set mem.toEnvSetMem name (decodedText es (textTokens text)) := by
  obtain ⟨keyOk, valOk, bufOk, ok⟩ := expandable
  rw [confConvToEnvSetMember, (outerLoop_iff mem confVal).2 ⟨keyOk, valOk, directive⟩]
  simp [bufOk, expandLoop_text, expansion, ok]

theorem confConv_refused
    (none : ∀ name text, Directive confVal name text → ¬ Expandable mem es text) :
    confConvToEnvSetMember mem es confVal = some (-1, es) := by
  unfold confConvToEnvSetMember
  cases read : outerLoop mem (confVal.length + 1) confVal .none .none with
  | none => rfl
  | some parts =>
    obtain ⟨name, text⟩ := parts
    obtain ⟨keyOk, valOk, directive⟩ := (outerLoop_iff mem confVal).1 read
    dsimp only
    by_cases bufOk : mem.bufOk = true
    · have refused : ¬ (textTokens text).all (tokenOk mem es) = true :=
        fun ok => none name text directive ⟨keyOk, valOk, bufOk, ok⟩
      rw [expandLoop_text, expansion, if_neg refused, if_neg (by simp [bufOk])]
    · rw [if_pos (by simpa using bufOk)]

theorem known_get (plain : '=' ∉ name) (known : es.Known name) : es.get name ≠ none := by
  obtain ⟨e, found⟩ := known
  rw [EnvSet.get, if_neg plain, found]
  exact Option.some_ne_none _

/-- A directive whose text is expanded. -/
theorem expanded_documented_iff (directive : Directive confVal name text)
    (expandable : Expandable mem es text) (noNul : '\x00' ∉ confVal) :
    SetsDocumented mem es confVal ↔
      es.KeepsOld mem.toEnvSetMem name (decodedText es (textTokens text)) ∨
        ((es.Known name → mem.printOk = true) ∧ ¬ ZeroByte text) := by
  obtain ⟨plain, plain'⟩ : '=' ∉ name ∧ '\x00' ∉ name := by
    obtain ⟨before, between, after, -, identifier, -⟩ := directive
    exact identifier_plain identifier
  have decoded := @decoded_reference mem es (text.length + 1) text text.length
    (Nat.lt_succ_self _) le_rfl (directive_noNul directive noNul) expandable.2.2.2
  obtain ⟨ret, es', ran, outcome⟩ := set_cases mem.toEnvSetMem es
    (decodedText es (textTokens text)) plain plain'
  rw [SetsDocumented, confConv_set directive expandable, ran]
  rcases outcome with ⟨keeps, rfl, all⟩ | ⟨writes, known, unprinted, rfl, lost⟩ |
    ⟨writes, printed, rfl, here, others⟩
  · exact iff_of_true ⟨-1, es', rfl, .inl ⟨rfl, all⟩⟩ (.inl keeps)
  · refine iff_of_false ?_ ?_
    · rintro ⟨ret, es'', same, ⟨-, all⟩ | ⟨zero, -⟩⟩
      · cases same
        exact known_get plain known (all name ▸ lost)
      · cases same
        cases zero
    · rintro (keeps | ⟨printed, -⟩)
      · exact writes keeps
      · rw [printed known] at unprinted
        cases unprinted
  · rw [ZeroByte, Bool.not_eq_true, textTokens, ← decoded]
    constructor
    · rintro ⟨ret, es'', same, ⟨failed, -⟩ | ⟨-, name', text', directive', value, -⟩⟩
      · cases same
        cases failed
      · cases same
        obtain ⟨rfl, rfl⟩ := directive_unique directive directive'
        rw [here, Option.some_inj] at value
        exact .inr ⟨printed, value⟩
    · rintro (keeps | ⟨-, value⟩)
      · exact absurd keeps writes
      · refine ⟨0, es', rfl, .inr ⟨rfl, name, text, directive, ?_, others⟩⟩
        rw [here]
        exact congrArg some value

/-- The function keeps to the documentation exactly if it does not come to the writing of the
variable, or the text has no `\x00` and `snprintf` does not fail on a known variable. -/
theorem sets_documented_iff (mem : EnvConvMem) (es : EnvSet) (confVal : List Char)
    (noNul : '\x00' ∉ confVal) : SetsDocumented mem es confVal ↔
      ∀ name text, Directive confVal name text → Expandable mem es text →
        es.KeepsOld mem.toEnvSetMem name (decodedText es (textTokens text)) ∨
          ((es.Known name → mem.printOk = true) ∧ ¬ ZeroByte text) := by
  by_cases comes : ∃ name text, Directive confVal name text ∧ Expandable mem es text
  · obtain ⟨name, text, directive, expandable⟩ := comes
    rw [expanded_documented_iff directive expandable noNul]
    constructor
    · intro holds name' text' directive' _
      obtain ⟨rfl, rfl⟩ := directive_unique directive directive'
      exact holds
    · intro holds
      exact holds name text directive expandable
  · push Not at comes
    refine iff_of_true ⟨-1, es, confConv_refused comes, .inl ⟨rfl, fun _ => rfl⟩⟩ ?_
    intro name text directive expandable
    exact absurd expandable (comes name text directive)

def pathOnly : EnvSet := { envp := ["PATH=/bin".toList], allocSz := 3 }

def pathDirective : List Char := "P \"$\x7bPATH\x7d:\\x2f\"".toList

theorem path_extended : '\x00' ∉ pathDirective ∧ SetsDocumented {} pathOnly pathDirective := by
  have noNul : '\x00' ∉ pathDirective := by decide
  refine ⟨noNul, (sets_documented_iff {} pathOnly pathDirective noNul).2 ?_⟩
  intro name text directive _
  have read := (outerLoop_iff {} pathDirective).2 ⟨rfl, rfl, directive⟩
  have parts : outerLoop {} (pathDirective.length + 1) pathDirective none none =
    some (['P'], "$\x7bPATH\x7d:\\x2f".toList) := by decide
  rw [parts] at read
  cases read
  refine .inr ⟨fun _ => rfl, ?_⟩
  unfold ZeroByte
  decide

def cutDirective : List Char := "P \"a\\x00b\"".toList

/-- The variable gets the value `a`. -/
theorem zero_byte_cuts : ¬ SetsDocumented {} pathOnly cutDirective := by
  have directive : Directive cutDirective ['P'] "a\\x00b".toList :=
    ((outerLoop_iff {} cutDirective).1 (by decide)).2.2
  have ran : ∃ es', confConvToEnvSetMember {} pathOnly cutDirective = some (0, es') ∧
      es'.get ['P'] = some ['a'] := ⟨_, rfl, by decide⟩
  obtain ⟨es', ran, cut⟩ := ran
  rintro ⟨ret, es'', ran', ⟨rfl, -⟩ | ⟨-, name, text, directive', value, -⟩⟩
  · rw [ran] at ran'
    cases ran'
  · rw [ran] at ran'
    cases ran'
    obtain ⟨rfl, rfl⟩ := directive_unique directive directive'
    rw [cut] at value
    exact absurd value (by decide)

end Conversion

end Crinit
