import Crinit.EnvExpansion

/-! The two loops that decode escape sequences, for the arguments of a command and for the values of
variables. -/
namespace Crinit

open List

/-- Whether `char` is signed, and what lies around the table in memory. -/
structure CharEnv where
  signed : Bool
  outside : Int → Char

def CharEnv.negative (env : CharEnv) (c : Char) : Bool :=
  env.signed && decide (128 ≤ c.toNat) && decide (c.toNat < 256)

def CharEnv.toInt (env : CharEnv) (c : Char) : Int :=
  if env.negative c = true then (c.toNat : Int) - 256 else c.toNat

def CharEnv.toSize (env : CharEnv) (c : Char) : Nat :=
  if env.negative c = true then 2 ^ 64 - 256 + c.toNat else c.toNat

def InTable (i : Int) : Prop := 0 ≤ i ∧ i < 128

instance (i : Int) : Decidable (InTable i) := inferInstanceAs (Decidable (0 ≤ i ∧ i < 128))

def CharEnv.escMapAt (env : CharEnv) (i : Int) : Char :=
  if InTable i then escMap (Char.ofNat i.toNat) else env.outside i

/-! ### The functions, with the places of the table that they read -/

def copyEscapedReads (env : CharEnv) : List Char → Option (List Char) × List Int
  | [] => (some [], [])
  | '\\' :: 'x' :: a :: b :: cs =>
    if Numeral.isDigit 16 a && Numeral.isDigit 16 b then
      let r := copyEscapedReads env cs
      (r.1.map (Char.ofNat (Numeral.value 16 [a, b]) :: ·), r.2)
    else
      let r := copyEscapedReads env (a :: b :: cs)
      (r.1.map (env.escMapAt (env.toInt 'x') :: ·), env.toInt 'x' :: r.2)
  | '\\' :: c :: cs =>
    let r := copyEscapedReads env cs
    (r.1.map (env.escMapAt (env.toInt c) :: ·), env.toInt c :: r.2)
  | ['\\'] => (none, [])
  | c :: cs =>
    let r := copyEscapedReads env cs
    (r.1.map (c :: ·), r.2)

def stringsReads (env : CharEnv) : List (List Char) → Option (List (List Char)) × List Int
  | [] => (some [], [])
  | text :: texts =>
    match copyEscapedReads env text with
    | (none, reads) => (none, reads)
    | (some out, reads) =>
      let r := stringsReads env texts
      (r.1.map (out :: ·), reads ++ r.2)

def strArrReads (env : CharEnv) (confVal : List Char) (doubleQuoting : Bool) :
    Option (List (List Char)) × List Int :=
  match argvTokens doubleQuoting (confVal.length + 1) confVal with
  | none => (none, [])
  | some tokens => stringsReads env tokens

def envEscape (env : CharEnv) (c : Char) : Char × List Int :=
  if env.toSize c < 128 then (env.escMapAt (env.toSize c), [(env.toSize c : Int)])
  else ('\x00', [])

def expandReads (env : CharEnv) : Nat → List Char → List Int
  | 0, _ => []
  | turns + 1, s =>
    match envVarInnerLex s with
    | (.err, _) | (.stop, _) => []
    | (.esc c, rest) =>
      (envEscape env c).2 ++
        if (envEscape env c).1 = '\x00' then [] else expandReads env turns rest
    | (_, rest) => expandReads env turns rest

def quotedArgument (text : List Char) : List Char := '"' :: (text ++ ['"'])

def envSetDirective (name text : List Char) : List Char :=
  name ++ ([' '] ++ '"' :: (text ++ '"' :: []))

def decodedArgument (env : CharEnv) (text : List Char) : Option (List Char) :=
  match (strArrReads env (quotedArgument text) true).1 with
  | some [out] => some (upToNul out)
  | _ => none

def decodedValue (es : EnvSet) (name text : List Char) : Option (List Char) :=
  match confConvToEnvSetMember {} es (envSetDirective name text) with
  | some (0, es') => es'.get name
  | _ => none

def tokensOf (text : List Char) : List EnvInnerToken := (textTokens text).map Prod.fst

structure PlainText (text : List Char) : Prop where
  noNul : '\x00' ∉ text
  noNewline : '\n' ∉ text
  noQuote : .cpy '"' ∉ tokensOf text
  noReference : ∀ name, .var name ∉ tokensOf text

def Dangling (text : List Char) : Prop := .err ∈ tokensOf text

instance (text : List Char) : Decidable (Dangling text) :=
  inferInstanceAs (Decidable (.err ∈ tokensOf text))

def Unsupported (text : List Char) : Prop := ∃ c, .esc c ∈ tokensOf text ∧ escMap c = '\x00'

structure UnescapersAgree (env : CharEnv) (es : EnvSet) (name text : List Char) : Prop where
  same : decodedArgument env text = decodedValue es name text
  inTable : ∀ i ∈ (strArrReads env (quotedArgument text) true).2, InTable i
  inTable' : ∀ i ∈ expandReads env (text.length + 1) text, InTable i
  refused : Unsupported text → decodedArgument env text = none ∧ decodedValue es name text = none

/-! ### What is read from the table -/

section Table

variable {env : CharEnv} {c : Char}

theorem escMap_ascii (supported : escMap c ≠ '\x00') : c.toNat < 128 := by
  revert supported
  fun_cases escMap c with
  | case13 => exact fun supported => absurd rfl supported
  | _ => intro _; simp

theorem negative_iff : env.negative c = true ↔
    env.signed = true ∧ 128 ≤ c.toNat ∧ c.toNat < 256 := by
  simp [CharEnv.negative, and_assoc]

theorem not_negative (env : CharEnv) (ascii : c.toNat < 128) : ¬ env.negative c = true := by
  rw [negative_iff]
  omega

theorem toInt_ascii (env : CharEnv) (ascii : c.toNat < 128) : env.toInt c = c.toNat :=
  if_neg (not_negative env ascii)

theorem inTable_ascii (ascii : c.toNat < 128) : InTable c.toNat :=
  ⟨Int.natCast_nonneg _, by exact_mod_cast ascii⟩

theorem escMapAt_ascii (env : CharEnv) (ascii : c.toNat < 128) :
    env.escMapAt c.toNat = escMap c := by
  rw [CharEnv.escMapAt, if_pos (inTable_ascii ascii), Int.toNat_natCast, Char.ofNat_toNat]

theorem inTable_toInt : InTable (env.toInt c) ↔ c.toNat < 128 := by
  constructor
  · rintro ⟨low, high⟩
    unfold CharEnv.toInt at low high
    split_ifs at low high with negative
    · have byte := (negative_iff.1 negative).2.2
      omega
    · omega
  · intro ascii
    rw [toInt_ascii env ascii]
    exact inTable_ascii ascii

theorem escMapAt_toInt (inside : InTable (env.toInt c)) :
    env.escMapAt (env.toInt c) = escMap c := by
  have ascii := inTable_toInt.1 inside
  rw [toInt_ascii env ascii, escMapAt_ascii env ascii]

theorem envEscape_inTable (env : CharEnv) (c : Char) : ∀ i ∈ (envEscape env c).2, InTable i := by
  unfold envEscape
  intro i mem
  split_ifs at mem with small
  · obtain rfl := List.mem_singleton.1 mem
    exact ⟨Int.natCast_nonneg _, by exact_mod_cast small⟩
  · exact absurd mem not_mem_nil

theorem expandReads_inTable (env : CharEnv) (turns : Nat) (s : List Char) :
    ∀ i ∈ expandReads env turns s, InTable i := by
  induction turns generalizing s with
  | zero => exact fun i mem => absurd mem not_mem_nil
  | succ turns ih =>
    intro i mem
    unfold expandReads at mem
    cases lexed : envVarInnerLex s with
    | mk token rest =>
      rw [lexed] at mem
      cases token with
      | err | stop => exact absurd mem not_mem_nil
      | cpy | escx | var => exact ih rest i mem
      | esc c =>
        rcases List.mem_append.1 mem with mem | mem
        · exact envEscape_inTable env c i mem
        · split_ifs at mem
          · exact absurd mem not_mem_nil
          · exact ih rest i mem

end Table

/-! ### The functions without the reads -/

section Results

variable {env : CharEnv} {s : List Char}

theorem copyEscapedReads_result (inside : ∀ i ∈ (copyEscapedReads env s).2, InTable i) :
    (copyEscapedReads env s).1 = copyEscaped s := by
  fun_induction copyEscapedReads env s with
  | case1 => rfl
  | case2 a b cs digits r ih => rw [copyEscaped, if_pos digits, ← ih inside]
  | case3 a b cs digits r ih =>
    have later := ih fun i mem => inside i (mem_cons_of_mem _ mem)
    rw [copyEscaped, if_neg digits, ← later, escMapAt_toInt (inside _ mem_cons_self)]
  | case4 c cs short r ih =>
    have later := ih fun i mem => inside i (mem_cons_of_mem _ mem)
    rw [copyEscaped, ← later, escMapAt_toInt (inside _ mem_cons_self)]
    exact short
  | case5 => rfl
  | case6 c cs hex escape lone r ih =>
    rw [copyEscaped, ← ih inside]
    · exact hex
    · exact escape
    · exact lone

theorem stringsReads_result {texts : List (List Char)}
    (inside : ∀ i ∈ (stringsReads env texts).2, InTable i) :
    (stringsReads env texts).1.map (List.map terminated) =
      texts.mapM fun text => (copyEscaped text).map terminated := by
  induction texts with
  | nil => rfl
  | cons text texts ih =>
    unfold stringsReads at inside ⊢
    cases read : copyEscapedReads env text with
    | mk out reads =>
      have result := @copyEscapedReads_result env text
      rw [read] at inside result
      cases out with
      | none => simp [mapM_cons, ← result inside]
      | some out =>
        simp only [mem_append] at inside
        have here := result fun i mem => inside i (.inl mem)
        have later := ih fun i mem => inside i (.inr mem)
        rw [mapM_cons, ← here, ← later]
        dsimp only
        cases (stringsReads env texts).1 with
        | none => rfl
        | some outs => rfl

/-- As long as the table is read inside its bounds, the strings are those of
`crinitConfConvToStrArr`. -/
theorem strArrReads_result (confVal : String) (doubleQuoting : Bool)
    (inside : ∀ i ∈ (strArrReads env confVal.toList doubleQuoting).2, InTable i) :
    (strArrReads env confVal.toList doubleQuoting).1.map (List.map terminated) =
      confConvToStrArr confVal doubleQuoting := by
  unfold strArrReads at inside ⊢
  unfold confConvToStrArr
  cases read : argvTokens doubleQuoting (confVal.toList.length + 1) confVal.toList with
  | none => rfl
  | some tokens =>
    rw [read] at inside
    exact stringsReads_result inside

end Results

/-! ### The argument of a command -/

def copyChar (env : CharEnv) : EnvInnerToken → Char
  | .cpy c => c
  | .esc c => env.escMapAt (env.toInt c)
  | .escx a b => Char.ofNat (Numeral.value 16 [a, b])
  | .err | .stop | .var _ => '\x00'

def copyReads (env : CharEnv) : EnvInnerToken → List Int
  | .esc c => [env.toInt c]
  | _ => []

section Argument

variable {env : CharEnv} {s rest : List Char} {token : EnvInnerToken} {turns : Nat}

theorem copyEscapedReads_lex (env : CharEnv) (lexed : envVarInnerLex s = (token, rest))
    (goes : token ≠ .stop) (whole : token ≠ .err) (plain : ∀ name, token ≠ .var name) :
    copyEscapedReads env s = ((copyEscapedReads env rest).1.map (copyChar env token :: ·),
      copyReads env token ++ (copyEscapedReads env rest).2) := by
  revert lexed
  fun_cases envVarInnerLex s with
  | case1 => rintro ⟨⟩; exact absurd rfl goes
  | case2 a b cs digits => rintro ⟨⟩; simp [copyEscapedReads, digits, copyChar, copyReads]
  | case3 a b cs digits => rintro ⟨⟩; simp [copyEscapedReads, digits, copyChar, copyReads]
  | case4 c cs short =>
    rintro ⟨⟩
    rw [copyEscapedReads]
    · rfl
    · exact short
  | case5 => rintro ⟨⟩; exact absurd rfl whole
  | case6 cs name rest found => rintro ⟨⟩; exact absurd rfl (plain name)
  | case7 cs found => rintro ⟨⟩; simp [copyEscapedReads, copyChar, copyReads]
  | case8 c cs hex escape lone var =>
    rintro ⟨⟩
    rw [copyEscapedReads]
    · rfl
    · exact hex
    · exact escape
    · exact lone

theorem innerLex_err (lexed : envVarInnerLex s = (.err, rest)) : s = ['\\'] ∧ rest = [] := by
  revert lexed
  fun_cases envVarInnerLex s with
  | case5 => rintro ⟨⟩; exact ⟨rfl, rfl⟩
  | _ => intro lexed; cases lexed

def tokensCopy (env : CharEnv) (tokens : List EnvInnerToken) : Option (List Char) × List Int :=
  (if .err ∈ tokens then none else some (tokens.map (copyChar env)), tokens.flatMap (copyReads env))

theorem tokensCopy_cons (whole : token ≠ .err) (tokens : List EnvInnerToken) :
    tokensCopy env (token :: tokens) = ((tokensCopy env tokens).1.map (copyChar env token :: ·),
      copyReads env token ++ (tokensCopy env tokens).2) := by
  have other : EnvInnerToken.err ∈ token :: tokens ↔ .err ∈ tokens := by
    simp [Ne.symm whole]
  by_cases open' : EnvInnerToken.err ∈ tokens
  · simp [tokensCopy, open']
  · simp [tokensCopy, other, open']

theorem tokens_induction {P : List Char → List EnvInnerToken → Prop} (stop : P [] [])
    (lone : P ['\\'] [.err])
    (step : ∀ s token rest tokens, envVarInnerLex s = (token, rest) → token ≠ .stop →
      token ≠ .err → P rest tokens → P s (token :: tokens)) (text : List Char) :
    P text (tokensOf text) := by
  suffices all : ∀ turns s, s.length < turns → P s ((innerTokens turns s).map Prod.fst) from
    all _ text (Nat.lt_succ_self _)
  intro turns
  induction turns with
  | zero => exact fun s enough => absurd enough (Nat.not_lt_zero _)
  | succ turns ih =>
    intro s enough
    cases lexed : envVarInnerLex s with
    | mk token rest =>
      by_cases goes : token = .stop
      · subst goes
        obtain rfl := innerLex_stop lexed
        exact stop
      have nonempty : s ≠ [] := by
        rintro rfl
        cases lexed
        exact goes rfl
      have shorter := innerLex_shorter lexed nonempty
      rw [innerTokens_cons lexed goes, map_cons]
      by_cases whole : token = .err
      · subst whole
        obtain ⟨rfl, rfl⟩ := innerLex_err lexed
        cases turns <;> exact lone
      · exact step s token rest _ lexed goes whole (ih rest (by omega))

theorem copyEscapedReads_eq (env : CharEnv) (text : List Char)
    (noReference : ∀ name, .var name ∉ tokensOf text) :
    copyEscapedReads env text = tokensCopy env (tokensOf text) := by
  revert noReference
  refine tokens_induction
    (P := fun s tokens => (∀ name, .var name ∉ tokens) →
      copyEscapedReads env s = tokensCopy env tokens)
    (fun _ => rfl) (fun _ => rfl) ?_ text
  intro s token rest tokens lexed goes whole ih noReference
  have plain : ∀ name, token ≠ .var name := fun name same =>
    noReference name (same ▸ mem_cons_self)
  rw [copyEscapedReads_lex env lexed goes whole plain, tokensCopy_cons whole,
    ih fun name mem => noReference name (mem_cons_of_mem _ mem)]

theorem quoted_pair {e : Char} (other : e ≠ '\x00') (cs : List Char) :
    quoted ('\\' :: e :: cs) = (quoted cs).map fun r => ('\\' :: e :: r.1, r.2) := by
  simp [quoted, other]

theorem quoted_plain {c : Char} (quote : c ≠ '"') (escape : c ≠ '\\') (newline : c ≠ '\n')
    (other : c ≠ '\x00') (cs : List Char) :
    quoted (c :: (cs ++ ['"'])) = (quoted (cs ++ ['"'])).map fun r => (c :: r.1, r.2) := by
  cases cs with
  | nil => simp [quoted, quote, escape, newline, other]
  | cons e cs => simp [quoted, quote, escape, newline, other]

theorem quoted_digit {c : Char} (digit : Numeral.isDigit 16 c = true) (cs : List Char) :
    quoted (c :: (cs ++ ['"'])) = (quoted (cs ++ ['"'])).map fun r => (c :: r.1, r.2) := by
  refine quoted_plain ?_ ?_ ?_ ?_ cs
  all_goals
    rintro rfl
    exact absurd digit (by decide)

theorem quoted_lex (lexed : envVarInnerLex s = (token, rest)) (goes : token ≠ .stop)
    (whole : token ≠ .err) (plain : ∀ name, token ≠ .var name) (noQuote : token ≠ .cpy '"')
    (noNul : '\x00' ∉ s) (noNewline : '\n' ∉ s) : ∃ read, s = read ++ rest ∧
      quoted (s ++ ['"']) = (quoted (rest ++ ['"'])).map fun r => (read ++ r.1, r.2) := by
  revert lexed
  fun_cases envVarInnerLex s with
  | case1 => rintro ⟨⟩; exact absurd rfl goes
  | case2 a b cs digits =>
    rintro ⟨⟩
    rw [Bool.and_eq_true] at digits
    refine ⟨['\\', 'x', a, b], rfl, ?_⟩
    have digit := quoted_digit digits.1 (b :: rest)
    rw [cons_append, quoted_digit digits.2] at digit
    simp only [cons_append, quoted_pair (show 'x' ≠ '\x00' by decide), digit, Option.map_map]
    rfl
  | case3 a b cs digits =>
    rintro ⟨⟩
    exact ⟨['\\', 'x'], rfl, quoted_pair (by decide) _⟩
  | case4 c cs short =>
    rintro ⟨⟩
    simp only [mem_cons, not_or] at noNul
    exact ⟨['\\', c], rfl, quoted_pair (Ne.symm noNul.2.1) _⟩
  | case5 => rintro ⟨⟩; exact absurd rfl whole
  | case6 cs name rest found => rintro ⟨⟩; exact absurd rfl (plain name)
  | case7 cs found =>
    rintro ⟨⟩
    exact ⟨['$'], rfl, quoted_plain (by decide) (by decide) (by decide) (by decide) ('\x7b' :: cs)⟩
  | case8 c cs hex escape lone var =>
    rintro ⟨⟩
    simp only [mem_cons, not_or] at noNul noNewline
    refine ⟨[c], rfl, quoted_plain ?_ (not_backslash escape lone) (Ne.symm noNewline.1)
      (Ne.symm noNul.1) rest⟩
    rintro rfl
    exact noQuote rfl

theorem quoted_eq (text : List Char) (plain : PlainText text) :
    quoted (text ++ ['"']) = if Dangling text then none else some (text, []) := by
  obtain ⟨noNul, noNewline, noQuote, noReference⟩ := plain
  revert noNul noNewline noQuote noReference
  refine tokens_induction
    (P := fun s tokens => '\x00' ∉ s → '\n' ∉ s → .cpy '"' ∉ tokens →
      (∀ name, .var name ∉ tokens) →
        quoted (s ++ ['"']) = if .err ∈ tokens then none else some (s, []))
    (fun _ _ _ _ => rfl) (fun _ _ _ _ => rfl) ?_ text
  intro s token rest tokens lexed goes whole ih noNul noNewline noQuote noReference
  obtain ⟨read, rfl, step⟩ := quoted_lex lexed goes whole
    (fun name same => noReference name (same ▸ mem_cons_self))
    (fun same => noQuote (same ▸ mem_cons_self)) noNul noNewline
  rw [step, ih (fun mem => noNul (mem_append_right _ mem))
    (fun mem => noNewline (mem_append_right _ mem))
    (fun mem => noQuote (mem_cons_of_mem _ mem))
    fun name mem => noReference name (mem_cons_of_mem _ mem)]
  simp only [mem_cons, Ne.symm whole, false_or]
  split_ifs
  · rfl
  · rfl

/-- The text in quotes is one argument, unless its last backslash takes the closing quote. -/
theorem argument_tokens {text : List Char} (plain : PlainText text) :
    argvTokens true ((quotedArgument text).length + 1) (quotedArgument text) =
      if Dangling text then none else some [text] := by
  rw [argvTokens, quotedArgument, argvLex, if_neg (by decide), if_pos (by decide),
    quoted_eq text plain]
  split_ifs
  · rfl
  · rfl

theorem strArrReads_eq (env : CharEnv) {text : List Char} (plain : PlainText text) :
    strArrReads env (quotedArgument text) true =
      if Dangling text then (none, [])
      else (some [(tokensOf text).map (copyChar env)],
        (tokensOf text).flatMap (copyReads env)) := by
  rw [strArrReads, argument_tokens plain]
  split_ifs with lone
  · rfl
  · have whole : EnvInnerToken.err ∉ tokensOf text := lone
    simp [stringsReads, copyEscapedReads_eq env text plain.noReference, tokensCopy, whole]

end Argument

section Value

variable {env : CharEnv} {es : EnvSet} {name text : List Char}

theorem tokens_goOn (text : List Char) : EnvInnerToken.stop ∉ tokensOf text := by
  refine tokens_induction (P := fun _ tokens => .stop ∉ tokens) not_mem_nil (by decide) ?_ text
  intro s token rest tokens _ goes _ ih mem
  rcases List.mem_cons.1 mem with same | mem
  · exact goes same.symm
  · exact ih mem

theorem tokensOk_iff (es : EnvSet) (text : List Char) :
    (textTokens text).all (tokenOk {} es) = true ↔ ¬ Dangling text ∧ ¬ Unsupported text := by
  rw [all_eq_true]
  constructor
  · intro ok
    constructor
    · intro lone
      obtain ⟨⟨token, left⟩, mem, rfl⟩ := List.mem_map.1 lone
      exact absurd (ok _ mem) (by simp [tokenOk])
    · rintro ⟨c, escape, none⟩
      obtain ⟨⟨token, left⟩, mem, same⟩ := List.mem_map.1 escape
      obtain rfl : token = .esc c := same
      exact absurd (ok _ mem) (by simp [tokenOk, none])
  · rintro ⟨closed, supported⟩ ⟨token, left⟩ mem
    have here : token ∈ tokensOf text := List.mem_map.2 ⟨_, mem, rfl⟩
    cases token with
    | err => exact absurd here closed
    | esc c => exact bne_iff_ne.2 fun none => supported ⟨c, here, none⟩
    | stop | cpy | escx => rfl
    | var name => simp [tokenOk]

theorem directive_of (identifier : Identifier name) (text : List Char) :
    Directive (envSetDirective name text) name text :=
  ⟨[], [' '], [], fun _ mem => absurd mem not_mem_nil, identifier, by simp [Blanks, isBlank],
    fun _ mem => absurd mem not_mem_nil, rfl⟩

theorem writes_with_memory (room : es.reserve true ≠ none) (val : List Char) :
    ¬ es.KeepsOld {} name val := by
  unfold EnvSet.KeepsOld
  cases es.envp.find? (isEntry name) with
  | none => simp [room]
  | some old => simp

theorem decodedValue_eq (identifier : Identifier name) (room : es.reserve true ≠ none)
    (text : List Char) : decodedValue es name text =
      if (textTokens text).all (tokenOk {} es) = true then
        some (upToNul (decodedText es (textTokens text)))
      else none := by
  have directive := directive_of identifier text
  unfold decodedValue
  split_ifs with ok
  · obtain ⟨plain, plain'⟩ := identifier_plain identifier
    obtain ⟨ret, es', ran, outcome⟩ :=
      set_cases {} es (decodedText es (textTokens text)) plain plain'
    rcases outcome with ⟨keeps, -⟩ | ⟨-, -, unprinted, -⟩ | ⟨-, -, rfl, here, -⟩
    · exact absurd keeps (writes_with_memory room _)
    · cases unprinted
    · rw [confConv_set directive ⟨rfl, rfl, rfl, ok⟩, ran]
      exact here
  · have refused : ∀ name' text', Directive (envSetDirective name text) name' text' →
        ¬ Expandable {} es text' := by
      rintro name' text' directive' ⟨-, -, -, ok'⟩
      obtain ⟨rfl, rfl⟩ := directive_unique directive directive'
      exact ok ok'
    rw [confConv_refused refused]
    rfl

/-- On a text without references both loops write the same characters. -/
theorem decodedText_eq (env : CharEnv) (es : EnvSet) (plain : PlainText text)
    (closed : ¬ Dangling text) (supported : ¬ Unsupported text) :
    decodedText es (textTokens text) = (tokensOf text).map (copyChar env) := by
  have each : ∀ token ∈ tokensOf text, tokenText es token = [copyChar env token] := by
    intro token mem
    cases token with
    | err => exact absurd mem closed
    | stop => exact absurd mem (tokens_goOn text)
    | cpy | escx => rfl
    | esc c =>
      have ascii : c.toNat < 128 := escMap_ascii fun none => supported ⟨c, mem, none⟩
      rw [tokenText, copyChar, toInt_ascii env ascii, escMapAt_ascii env ascii]
    | var name => exact absurd mem (plain.noReference name)
  rw [decodedText, ← flatMap_map]
  exact (flatMap_congr each).trans List.map_eq_flatMap.symm

end Value

section Both

variable {env : CharEnv} {es : EnvSet} {name text : List Char}

theorem decodedArgument_eq (env : CharEnv) (plain : PlainText text) :
    decodedArgument env text =
      if Dangling text then none
      else some (upToNul ((tokensOf text).map (copyChar env))) := by
  rw [decodedArgument, strArrReads_eq env plain]
  split_ifs
  · rfl
  · rfl

theorem agree_dangling (env : CharEnv) (identifier : Identifier name)
    (room : es.reserve true ≠ none) (plain : PlainText text) (lone : Dangling text) :
    UnescapersAgree env es name text := by
  have argument : decodedArgument env text = none := by
    rw [decodedArgument_eq env plain, if_pos lone]
  have value : decodedValue es name text = none := by
    rw [decodedValue_eq identifier room, if_neg]
    rw [tokensOk_iff]
    exact fun ok => ok.1 lone
  refine ⟨argument.trans value.symm, ?_, expandReads_inTable env _ _, fun _ => ⟨argument, value⟩⟩
  rw [strArrReads_eq env plain, if_pos lone]
  exact fun i mem => absurd mem not_mem_nil

theorem agree_supported (env : CharEnv) (identifier : Identifier name)
    (room : es.reserve true ≠ none) (plain : PlainText text) (closed : ¬ Dangling text)
    (supported : ¬ Unsupported text) : UnescapersAgree env es name text := by
  refine ⟨?_, ?_, expandReads_inTable env _ _, fun unsupported => absurd unsupported supported⟩
  · rw [decodedArgument_eq env plain, if_neg closed, decodedValue_eq identifier room,
      if_pos ((tokensOk_iff es text).2 ⟨closed, supported⟩),
      decodedText_eq env es plain closed supported]
  · rw [strArrReads_eq env plain, if_neg closed]
    intro i mem
    obtain ⟨token, here, read⟩ := List.mem_flatMap.1 mem
    cases token with
    | esc c =>
      obtain rfl := List.mem_singleton.1 read
      exact inTable_toInt.2 (escMap_ascii fun none => supported ⟨c, here, none⟩)
    | _ => exact absurd read not_mem_nil

/-- The functions agree exactly on the texts whose escape sequences are all supported, and on
those that end in a backslash, which both refuse. -/
theorem unescapers_agree_iff (env : CharEnv) (es : EnvSet) (name text : List Char)
    (identifier : Identifier name) (room : es.reserve true ≠ none) (plain : PlainText text) :
    UnescapersAgree env es name text ↔ Dangling text ∨ ¬ Unsupported text := by
  constructor
  · intro agree
    by_contra neither
    push Not at neither
    obtain ⟨closed, unsupported⟩ := neither
    have argument := (agree.refused unsupported).1
    rw [decodedArgument_eq env plain, if_neg closed] at argument
    cases argument
  · intro cond
    by_cases lone : Dangling text
    · exact agree_dangling env identifier room plain lone
    · exact agree_supported env identifier room plain lone (cond.resolve_left lone)

def signedChars : CharEnv := { signed := true, outside := fun _ => '\x00' }

def tabText : List Char := ['a', '\\', 't', 'b']

theorem tab_decoded : PlainText tabText ∧ ¬ Unsupported tabText ∧
    UnescapersAgree signedChars pathOnly ['P'] tabText := by
  have tokens : tokensOf tabText = [.cpy 'a', .esc 't', .cpy 'b'] := by decide
  have plain : PlainText tabText := by
    refine ⟨by decide, by decide, ?_, ?_⟩
    · rw [tokens]
      decide
    · intro name
      rw [tokens]
      simp
  have supported : ¬ Unsupported tabText := by
    rintro ⟨c, mem, none⟩
    rw [tokens] at mem
    simp only [mem_cons, EnvInnerToken.esc.injEq, reduceCtorEq, not_mem_nil, or_false,
      false_or] at mem
    subst mem
    exact absurd none (by decide)
  have identifier : Identifier ['P'] :=
    ⟨'P', [], rfl, by decide, fun _ mem => absurd mem not_mem_nil⟩
  exact ⟨plain, supported, (unescapers_agree_iff signedChars pathOnly ['P'] tabText identifier
    (by decide) plain).2 (.inr supported)⟩

/-- The text `a\qb` is the argument `a`, and no value. -/
theorem unsupported_cuts : ¬ UnescapersAgree signedChars pathOnly ['P'] ['a', '\\', 'q', 'b'] := by
  intro agree
  have argument : decodedArgument signedChars ['a', '\\', 'q', 'b'] = some ['a'] := by decide
  have value : decodedValue pathOnly ['P'] ['a', '\\', 'q', 'b'] = none := by decide
  have same := agree.same
  rw [argument, value] at same
  cases same

end Both

end Crinit
