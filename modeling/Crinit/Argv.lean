import Crinit.Lib.Collect
import Crinit.Lib.Numeral

/-! Configuration values as lists of strings: `crinitArgvLex`, `crinitCopyEscaped` and
`crinitConfConvToStrArr`. -/
namespace Crinit

open List

inductive ArgvToken
  | err
  | stop
  | wspc
  | uqstr (text : List Char)
  | dqstr (text : List Char)
  deriving DecidableEq, Repr

def isBlank (c : Char) : Bool := c = ' ' || c = '\t'

def isPlain (dq : Bool) (c : Char) : Bool :=
  c != ' ' && c != '\\' && c != '\n' && c != '\x00' && c != '\t' && !(dq && c = '"')

def unquoted (dq : Bool) : List Char → List Char × List Char
  | [] => ([], [])
  | [c] => if isPlain dq c then ([c], []) else ([], [c])
  | c :: e :: cs =>
    if isPlain dq c then
      let r := unquoted dq (e :: cs)
      (c :: r.1, r.2)
    else if c = '\\' && e != '\x00' then
      let r := unquoted dq cs
      (c :: e :: r.1, r.2)
    else ([], c :: e :: cs)

def quoted : List Char → Option (List Char × List Char)
  | [] => none
  | [c] => if c = '"' then some ([], []) else none
  | c :: e :: cs =>
    if c = '"' then some ([], e :: cs)
    else if c = '\\' then
      if e = '\x00' then none else (quoted cs).map fun r => (c :: e :: r.1, r.2)
    else if c = '\n' || c = '\x00' then none
    else (quoted (e :: cs)).map fun r => (c :: r.1, r.2)

def argvLex (dq : Bool) : List Char → ArgvToken × List Char
  | [] => (.stop, [])
  | c :: cs =>
    if isBlank c then (.wspc, cs.dropWhile isBlank)
    else if dq && c = '"' then
      match quoted cs with
      | some (text, rest) => (.dqstr text, rest)
      | none => (.err, cs)
    else
      match unquoted dq (c :: cs) with
      | ([], _) => (.err, cs)
      | (text, rest) => (.uqstr text, rest)

def argvTokens (dq : Bool) : Nat → List Char → Option (List (List Char))
  | 0, _ => none
  | turns + 1, cs =>
    match argvLex dq cs with
    | (.err, _) => none
    | (.stop, _) => some []
    | (.wspc, rest) => argvTokens dq turns rest
    | (.uqstr text, rest) => (argvTokens dq turns rest).map (text :: ·)
    | (.dqstr text, rest) => (argvTokens dq turns rest).map (text :: ·)

/-- `crinitEscMap`. An escape sequence it does not have yields NUL. -/
def escMap (c : Char) : Char :=
  match c with
  | 'n' => '\n'
  | 'r' => '\r'
  | 'b' => '\x08'
  | 'a' => '\x07'
  | '"' => '"'
  | '\x27' => '\x27'
  | '\\' => '\\'
  | 'f' => '\x0c'
  | 't' => '\t'
  | 'v' => '\x0b'
  | '$' => '$'
  | ' ' => ' '
  | _ => '\x00'

/-- Two hexadecimal digits behind `\x` are a character; `\x` alone is an escape sequence like any
other. -/
def copyEscaped : List Char → Option (List Char)
  | [] => some []
  | '\\' :: 'x' :: a :: b :: cs =>
    if Numeral.isDigit 16 a && Numeral.isDigit 16 b then
      (copyEscaped cs).map (Char.ofNat (Numeral.value 16 [a, b]) :: ·)
    else (copyEscaped (a :: b :: cs)).map (escMap 'x' :: ·)
  | '\\' :: c :: cs => (copyEscaped cs).map (escMap c :: ·)
  | ['\\'] => none
  | c :: cs => (copyEscaped cs).map (c :: ·)

def terminated (cs : List Char) : String := String.ofList (cs.takeWhile (· != '\x00'))

def confConvToStrArr (confVal : String) (doubleQuoting : Bool) : Option (List String) := do
  let tokens ← argvTokens doubleQuoting (confVal.toList.length + 1) confVal.toList
  tokens.mapM fun text => (copyEscaped text).map terminated

theorem not_backslash {c : Char} {cs : List Char}
    (pair : ∀ d ds, c = '\\' → cs = d :: ds → False) (lone : c = '\\' → cs = [] → False) :
    c ≠ '\\' := by
  intro same
  cases cs with
  | nil => exact lone same rfl
  | cons d ds => exact pair d ds same rfl

section Lexing

variable {dq : Bool}

theorem unquoted_append (cs : List Char) : (unquoted dq cs).1 ++ (unquoted dq cs).2 = cs := by
  fun_induction unquoted dq cs with
  | case1 => rfl
  | case2 => rfl
  | case3 => rfl
  | case4 c e cs plain r ih => exact congrArg (c :: ·) ih
  | case5 c e cs plain escape r ih => exact congrArg (c :: e :: ·) ih
  | case6 => rfl

theorem quoted_shorter {cs : List Char} {r : List Char × List Char} (found : quoted cs = some r) :
    r.2.length < cs.length := by
  fun_induction quoted cs generalizing r with
  | case1 => cases found
  | case2 => cases found; exact Nat.zero_lt_one
  | case3 => cases found
  | case4 => cases found; exact Nat.lt_succ_self _
  | case5 => cases found
  | case6 e cs text quote ih =>
    obtain ⟨r', found', rfl⟩ := Option.map_eq_some_iff.1 found
    have short := ih found'
    simp only [length_cons]
    omega
  | case7 => cases found
  | case8 c e cs quote escape stop ih =>
    obtain ⟨r', found', rfl⟩ := Option.map_eq_some_iff.1 found
    have short := ih found'
    simp only [length_cons] at short ⊢
    omega

theorem unquoted_space (more : List Char) : unquoted dq (' ' :: more) = ([], ' ' :: more) := by
  cases more <;> simp [unquoted, isPlain]

/-- A blank behind the text ends an unquoted match where the end of the text did, unless the
text ends in a backslash. -/
theorem unquoted_blank (cs more : List Char) (whole : (unquoted dq cs).2 ≠ ['\\']) :
    unquoted dq (cs ++ ' ' :: more) = ((unquoted dq cs).1, (unquoted dq cs).2 ++ ' ' :: more) := by
  fun_induction unquoted dq cs with
  | case1 => exact unquoted_space more
  | case2 c plain => simp [unquoted, plain, unquoted_space]
  | case3 c plain =>
    have other : c ≠ '\\' := fun same => whole (by rw [same])
    simp [unquoted, plain, other]
  | case4 c e cs plain r ih =>
    have rest := ih whole
    simp only [cons_append] at rest
    simp [unquoted, plain, rest, r]
  | case5 c e cs plain escape r ih => simp [unquoted, plain, escape, ih whole, r]
  | case6 c e cs plain escape => simp [unquoted, plain, escape]

theorem quoted_append {cs : List Char} {r : List Char × List Char} (more : List Char)
    (found : quoted cs = some r) : quoted (cs ++ more) = some (r.1, r.2 ++ more) := by
  fun_induction quoted cs generalizing r with
  | case1 => cases found
  | case2 => cases found; cases more <;> simp [quoted]
  | case3 => cases found
  | case4 => cases found; simp [quoted]
  | case5 => cases found
  | case6 e cs text quote ih =>
    obtain ⟨r', found', rfl⟩ := Option.map_eq_some_iff.1 found
    simp [quoted, text, ih found']
  | case7 => cases found
  | case8 c e cs quote escape stop ih =>
    obtain ⟨r', found', rfl⟩ := Option.map_eq_some_iff.1 found
    have rest := ih found'
    simp only [cons_append] at rest
    simp [quoted, quote, escape, stop, rest]

/-- White space is taken one character at a time, which makes no difference to the tokens. -/
inductive Lexes (dq : Bool) : List Char → List (List Char) → Prop
  | stop : Lexes dq [] []
  | wspc {c : Char} {cs : List Char} {tokens : List (List Char)} (blank : isBlank c = true)
      (rest : Lexes dq cs tokens) : Lexes dq (c :: cs) tokens
  | dqstr {cs text more : List Char} {tokens : List (List Char)} (on : dq = true)
      (found : quoted cs = some (text, more)) (rest : Lexes dq more tokens) : Lexes dq ('"' :: cs)
        (text :: tokens)
  | uqstr {cs : List Char} {tokens : List (List Char)} (some : (unquoted dq cs).1 ≠ [])
      (rest : Lexes dq (unquoted dq cs).2 tokens) : Lexes dq cs ((unquoted dq cs).1 :: tokens)

theorem isBlank_iff {c : Char} : isBlank c = true ↔ c = ' ' ∨ c = '\t' := by
  simp [isBlank]

theorem unquoted_blank_head {c : Char} (blank : isBlank c = true) (cs : List Char) :
    (unquoted dq (c :: cs)).1 = [] := by
  rcases isBlank_iff.1 blank with rfl | rfl <;> cases cs <;> simp [unquoted, isPlain]

theorem unquoted_quote_head (on : dq = true) (cs : List Char) :
    (unquoted dq ('"' :: cs)).1 = [] := by
  cases cs <;> simp [unquoted, isPlain, on]

variable {c : Char} {cs : List Char} {tokens : List (List Char)}

theorem lexes_nil : Lexes dq [] tokens ↔ tokens = [] := by
  constructor
  · intro lexes
    cases lexes with
    | stop => rfl
    | uqstr some _ => exact absurd rfl some
  · rintro rfl
    exact .stop

theorem lexes_blank (blank : isBlank c = true) :
    Lexes dq (c :: cs) tokens ↔ Lexes dq cs tokens := by
  constructor
  · intro lexes
    cases lexes with
    | wspc _ rest => exact rest
    | dqstr => exact absurd blank (by decide)
    | uqstr some _ => exact absurd (unquoted_blank_head blank cs) some
  · exact .wspc blank

theorem lexes_blanks : Lexes dq (cs.dropWhile isBlank) tokens ↔ Lexes dq cs tokens := by
  induction cs with
  | nil => exact Iff.rfl
  | cons c cs ih =>
    by_cases blank : isBlank c = true
    · rw [dropWhile_cons_of_pos blank, ih, lexes_blank blank]
    · rw [dropWhile_cons_of_neg blank]

theorem lexes_quote (on : dq = true) : Lexes dq ('"' :: cs) tokens ↔
    ∃ text more, quoted cs = some (text, more) ∧ ∃ rest, Lexes dq more rest ∧
      tokens = text :: rest := by
  constructor
  · intro lexes
    cases lexes with
    | wspc blank _ => exact absurd blank (by decide)
    | dqstr _ found rest => exact ⟨_, _, found, _, rest, rfl⟩
    | uqstr some _ => exact absurd (unquoted_quote_head on cs) some
  · rintro ⟨text, more, found, rest, lexes, rfl⟩
    exact .dqstr on found lexes

theorem lexes_plain (blank : isBlank c = false) (quote : ¬(dq = true ∧ c = '"')) :
    Lexes dq (c :: cs) tokens ↔ (unquoted dq (c :: cs)).1 ≠ [] ∧
      ∃ rest, Lexes dq (unquoted dq (c :: cs)).2 rest ∧
        tokens = (unquoted dq (c :: cs)).1 :: rest := by
  constructor
  · intro lexes
    cases lexes with
    | wspc blank' _ => exact absurd (blank.symm.trans blank') (by decide)
    | dqstr on _ _ => exact absurd ⟨on, rfl⟩ quote
    | uqstr some rest => exact ⟨some, _, rest, rfl⟩
  · rintro ⟨some, rest, lexes, rfl⟩
    exact .uqstr some lexes

theorem unquoted_shorter (some : (unquoted dq cs).1 ≠ []) :
    (unquoted dq cs).2.length < cs.length := by
  have long := List.length_pos_iff.2 some
  have whole : ((unquoted dq cs).1 ++ (unquoted dq cs).2).length =
    cs.length := by rw [unquoted_append]
  rw [length_append] at whole
  omega

theorem argvTokens_iff {turns : Nat} (enough : cs.length < turns) :
    argvTokens dq turns cs = some tokens ↔ Lexes dq cs tokens := by
  induction turns generalizing cs tokens with
  | zero => omega
  | succ turns ih =>
    have mapped (text more : List Char) (short : more.length < cs.length) :
        (argvTokens dq turns more).map (text :: ·) = some tokens ↔
          ∃ rest, Lexes dq more rest ∧ tokens = text :: rest := by
      rw [Option.map_eq_some_iff]
      exact exists_congr fun rest => and_congr (ih (by omega)) eq_comm
    cases cs with
    | nil =>
      rw [lexes_nil]
      change some [] = some tokens ↔ tokens = []
      rw [Option.some.injEq, eq_comm]
    | cons c cs =>
      unfold argvTokens argvLex
      dsimp only
      by_cases blank : isBlank c = true
      · rw [if_pos blank, lexes_blank blank, ← lexes_blanks]
        have short : (cs.dropWhile isBlank).length ≤ cs.length :=
          (dropWhile_sublist _).length_le
        exact ih (by rw [length_cons] at enough; omega)
      · rw [if_neg blank]
        by_cases quote : dq = true ∧ c = '"'
        · obtain ⟨on, rfl⟩ := quote
          rw [if_pos (by rw [on]; rfl), lexes_quote on]
          cases found : quoted cs with
          | none => simp
          | some r =>
            obtain ⟨text, more⟩ := r
            have short : more.length < cs.length := quoted_shorter found
            simpa using mapped text more (Nat.lt_succ_of_lt short)
        · rw [if_neg (by simpa using quote), lexes_plain (Bool.eq_false_iff.2 blank) quote]
          cases found : unquoted dq (c :: cs) with
          | mk text more =>
            cases text with
            | nil => simp
            | cons t text =>
              have some : (unquoted dq (c :: cs)).1 ≠ [] := by
                rw [found]
                exact cons_ne_nil _ _
              have short := unquoted_shorter some
              rw [found] at short
              simpa using mapped (t :: text) more short

theorem lexes_backslash : ¬Lexes dq ['\\'] tokens := by
  rw [lexes_plain (by decide) (fun quote => absurd quote.2 (by decide))]
  exact fun lexes => lexes.1 (by cases dq <;> rfl)

theorem lexes_join {cs' : List Char} {tokens' : List (List Char)} (first : Lexes dq cs tokens)
    (second : Lexes dq cs' tokens') : Lexes dq (cs ++ ' ' :: cs') (tokens ++ tokens') := by
  induction first with
  | stop => exact .wspc rfl second
  | wspc blank _ ih => exact .wspc blank ih
  | dqstr on found _ ih => exact .dqstr on (quoted_append _ found) ih
  | @uqstr cs tokens some rest ih =>
    have whole : (unquoted dq cs).2 ≠ ['\\'] := fun same => lexes_backslash (same ▸ rest)
    have joined := unquoted_blank cs cs' whole
    have step : Lexes dq (cs ++ ' ' :: cs')
      ((unquoted dq (cs ++ ' ' :: cs')).1 :: (tokens ++ tokens')) :=
      .uqstr (by rw [joined]; exact some) (by rw [joined]; exact ih)
    rw [joined] at step
    exact step

end Lexing

theorem strArr_join {v v' : String} {dq : Bool} {as bs : List String}
    (first : confConvToStrArr v dq = some as)
    (second : confConvToStrArr v' dq = some bs) :
    confConvToStrArr (v ++ " " ++ v') dq = some (as ++ bs) := by
  obtain ⟨tokens, lexed, copied⟩ := Option.bind_eq_some_iff.1 first
  obtain ⟨tokens', lexed', copied'⟩ := Option.bind_eq_some_iff.1 second
  refine Option.bind_eq_some_iff.2 ⟨tokens ++ tokens', ?_, Collect.mapM_append copied copied'⟩
  rw [argvTokens_iff (Nat.lt_succ_self _)] at lexed lexed' ⊢
  have joined := lexes_join lexed lexed'
  rw [String.toList_append, String.toList_append, append_assoc]
  exact joined

example : confConvToStrArr "a\\ b \"c d\"e" true = some ["a b", "c d", "e"] := by decide

end Crinit
