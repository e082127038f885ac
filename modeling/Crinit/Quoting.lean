import Crinit.AddTask
import Crinit.Handlers

/-! Quotes in configuration values: `crinitIniHandler` takes those around a whole value away. -/
namespace Crinit

open List

def matchQuotedConfig (value : List Char) : Option (List Char) :=
  match value.dropWhile (· = ' ') with
  | '"' :: rest =>
    match rest.reverse.dropWhile (· = ' ') with
    | '"' :: text => some text.reverse
    | _ => none
  | _ => none

structure IniParserCtx where
  list : List ConfKv := []
  keyArrayCount : Nat := 0
  deriving DecidableEq, Repr

def arrayCount (ctx : IniParserCtx) (key : List Char) : Nat :=
  match ctx.list.getLast? with
  | none => ctx.keyArrayCount
  | some last => if key = last.key.toList then ctx.keyArrayCount else 0

/-- Only the characters up to the last two are the key if the subscript is empty, wherever its
brackets stand. -/
def legacyKey (ctx : IniParserCtx) (key : List Char) : Option (List Char × Nat) :=
  if 2 < key.length ∧ '[' ∈ key then
    match key.dropWhile (· ≠ '[') with
    | '[' :: ']' :: _ =>
      let short := key.take (key.length - 2)
      some (short, arrayCount ctx short + 1)
    | brck =>
      let short := key.take (key.length - brck.length)
      let index := Numeral.strtoUnsigned 64 10 brck.tail
      if index.rest = brck.tail ∨ index.rest.head? ≠ some ']' then none
      else if index.value ≠ arrayCount ctx short then none
      else some (short, arrayCount ctx short + 1)
  else some (key, ctx.keyArrayCount)

/-- `crinitIniHandler`, for which there is memory; `none` is the result 0, with which it
reports an error. -/
def iniHandler (ctx : IniParserCtx) (key value : String) : Option IniParserCtx :=
  (legacyKey ctx key.toList).map fun (short, count) =>
    let val := (matchQuotedConfig value.toList).getD value.toList
    ⟨ctx.list ++ [⟨String.ofList short, String.ofList val⟩], count⟩

def escaped (a : List Char) : List Char :=
  a.flatMap fun c => if c = '\\' ∨ c = '"' then ['\\', c] else [c]

def inQuotes (a : List Char) : List Char := '"' :: (escaped a ++ ['"'])

def quotedText : List (List Char) → List Char
  | [] => []
  | [a] => inQuotes a
  | a :: more => inQuotes a ++ ' ' :: quotedText more

def innerText : List (List Char) → List Char
  | [] => []
  | [a] => escaped a
  | a :: more => escaped a ++ '"' :: ' ' :: '"' :: innerText more

variable {args : List (List Char)}

theorem quotedText_inner (some : args ≠ []) :
    quotedText args = '"' :: (innerText args ++ ['"']) := by
  induction args with
  | nil => exact absurd rfl some
  | cons a more ih =>
    cases more with
    | nil => rfl
    | cons b more =>
      have inner := ih (cons_ne_nil _ _)
      change inQuotes a ++ ' ' :: quotedText (b :: more) =
        '"' :: (escaped a ++ '"' :: ' ' :: '"' :: innerText (b :: more) ++ ['"'])
      rw [inner, inQuotes]
      simp

theorem matchQuotedConfig_quoted (some : args ≠ []) :
    matchQuotedConfig (quotedText args) = .some (innerText args) := by
  rw [quotedText_inner some]
  simp [matchQuotedConfig]

def blankWords (a : List Char) : List (List Char) :=
  (a.splitOnP isBlank).filter fun w => !w.isEmpty

section Reading

variable {w a rest : List Char}

def isText (c : Char) : Bool := !isBlank c && c != '\n' && c != '\x00'

theorem text_noBlank {c : Char} (text : isText c = true) : isBlank c = false := by
  simp only [isText, Bool.and_eq_true, Bool.not_eq_true'] at text
  exact text.1.1

theorem unquoted_plain {c : Char} (plain : isPlain true c = true) (cs : List Char) :
    unquoted true (c :: cs) = (c :: (unquoted true cs).1, (unquoted true cs).2) := by
  cases cs <;> simp [unquoted, plain]

theorem unquoted_escape {e : Char} (some : e ≠ '\x00') (cs : List Char) :
    unquoted true ('\\' :: e :: cs) =
      ('\\' :: e :: (unquoted true cs).1, (unquoted true cs).2) := by
  simp [unquoted, isPlain, some]

theorem escaped_cons (c : Char) (cs : List Char) : escaped (c :: cs) =
    (if c = '\\' ∨ c = '"' then ['\\', c] else [c]) ++ escaped cs := rfl

theorem unquoted_escaped (text : ∀ c ∈ w, isText c = true)
    (stop : ∀ c ∈ rest.head?, isBlank c = true ∨ c = '"') :
    unquoted true (escaped w ++ rest) = (escaped w, rest) := by
  induction w with
  | nil =>
    cases rest with
    | nil => rfl
    | cons c rest =>
      have none : (unquoted true (c :: rest)).1 = [] := by
        rcases stop c rfl with blank | rfl
        · exact unquoted_blank_head blank rest
        · exact unquoted_quote_head rfl rest
      have whole := @unquoted_append true (c :: rest)
      rw [none, nil_append] at whole
      exact Prod.ext none whole
  | cons c w ih =>
    have read := ih fun c mem => text c (mem_cons_of_mem _ mem)
    have here := text c mem_cons_self
    simp only [isText, isBlank, Bool.and_eq_true, Bool.not_eq_true', Bool.or_eq_false_iff,
      decide_eq_false_iff_not, bne_iff_ne] at here
    obtain ⟨⟨⟨space, tab⟩, newline⟩, zero⟩ := here
    rw [escaped_cons]
    split_ifs with special
    · simp only [cons_append, nil_append]
      rw [unquoted_escape zero, read]
    · rw [not_or] at special
      have plain : isPlain true c = true := by
        simp [isPlain, space, tab, newline, zero, special]
      simp only [cons_append, nil_append]
      rw [unquoted_plain plain, read]

theorem escaped_head (some : w ≠ []) (text : ∀ c ∈ w, isText c = true) :
    ∃ c cs, escaped w = c :: cs ∧ isBlank c = false ∧ c ≠ '"' := by
  obtain ⟨c, w', rfl⟩ := exists_cons_of_ne_nil some
  rw [escaped_cons]
  split_ifs with special
  · exact ⟨'\\', _, rfl, by decide, by decide⟩
  · rw [not_or] at special
    exact ⟨c, _, rfl, text_noBlank (text c mem_cons_self), special.2⟩

theorem blankWords_text (text : ∀ c ∈ w, isText c = true) :
    blankWords w = if w = [] then [] else [w] := by
  have inside : ∀ c ∈ w, isBlank c = false := fun c mem => text_noBlank (text c mem)
  rw [blankWords, splitOnP_eq_singleton inside]
  split_ifs with none
  · rw [none]
    rfl
  · simp [none]

theorem blankWords_append {b : Char} (text : ∀ c ∈ w, isText c = true) (blank : isBlank b = true)
    (a : List Char) : blankWords (w ++ b :: a) = blankWords w ++ blankWords a := by
  have inside : ∀ c ∈ w, isBlank c = false := fun c mem => text_noBlank (text c mem)
  unfold blankWords
  rw [splitOnP_append_cons_of_forall_mem inside b blank, splitOnP_eq_singleton inside,
    ← filter_append]
  rfl

theorem lexes_text (text : ∀ c ∈ w, isText c = true)
    (stop : ∀ c ∈ rest.head?, isBlank c = true ∨ c = '"') {tokens : List (List Char)} :
    Lexes true (escaped w ++ rest) tokens ↔
      ∃ ts, Lexes true rest ts ∧ tokens = (blankWords w).map escaped ++ ts := by
  rw [blankWords_text text]
  split_ifs with none
  · rw [none]
    exact ⟨fun lexes => ⟨tokens, lexes, rfl⟩, fun ⟨_, lexes, same⟩ => same ▸ lexes⟩
  · obtain ⟨c, cs, head, blank, quote⟩ := escaped_head none text
    have read := unquoted_escaped text stop
    rw [head, cons_append] at read ⊢
    rw [lexes_plain blank fun quoted => quote quoted.2, read, map_singleton, head]
    exact ⟨fun lexes => lexes.2, fun lexes => ⟨cons_ne_nil _ _, lexes⟩⟩

/-- An argument is one piece of text, or a first one, a blank and an argument. -/
theorem argument_induction {P : List Char → Prop} (whole : ∀ w, (∀ c ∈ w, isText c = true) → P w)
    (split : ∀ w b more, (∀ c ∈ w, isText c = true) → isBlank b = true → P more →
      P (w ++ b :: more))
    (plain : ∀ c ∈ a, c ≠ '\n' ∧ c ≠ '\x00') : P a := by
  suffices ∀ w, (∀ c ∈ w, isText c = true) → P (w ++ a) from
    this [] fun _ mem => (not_mem_nil mem).elim
  induction a with
  | nil =>
    intro w text
    rw [append_nil]
    exact whole w text
  | cons c a ih =>
    have later := ih fun c mem => plain c (mem_cons_of_mem _ mem)
    intro w text
    by_cases blank : isBlank c = true
    · exact split w c a text blank (later [] fun _ mem => (not_mem_nil mem).elim)
    · obtain ⟨newline, zero⟩ := plain c mem_cons_self
      have here : isText c = true := by simp [isText, blank, newline, zero]
      rw [← singleton_append, ← append_assoc]
      refine later (w ++ [c]) fun c' mem => ?_
      rcases List.mem_append.1 mem with mem | mem
      · exact text c' mem
      · exact List.mem_singleton.1 mem ▸ here

theorem escaped_append {b : Char} (blank : isBlank b = true) (w more : List Char) :
    escaped (w ++ b :: more) = escaped w ++ b :: escaped more := by
  have ordinary : ¬ (b = '\\' ∨ b = '"') := by
    rintro (rfl | rfl) <;> exact absurd blank (by decide)
  simp [escaped, ordinary]

theorem lexes_words (plain : ∀ c ∈ a, c ≠ '\n' ∧ c ≠ '\x00')
    (stop : ∀ c ∈ rest.head?, c = '"') (tokens : List (List Char)) :
    Lexes true (escaped a ++ rest) tokens ↔
      ∃ ts, Lexes true rest ts ∧ tokens = (blankWords a).map escaped ++ ts := by
  refine argument_induction (P := fun a => ∀ tokens, Lexes true (escaped a ++ rest) tokens ↔
    ∃ ts, Lexes true rest ts ∧ tokens = (blankWords a).map escaped ++ ts) ?_ ?_ plain tokens
  · intro w text tokens
    exact lexes_text text fun c mem => .inr (stop c mem)
  · intro w b more text blank later tokens
    have first : ∀ c ∈ (b :: (escaped more ++ rest)).head?, isBlank c = true ∨ c = '"' := by
      rintro c ⟨⟩
      exact .inl blank
    rw [escaped_append blank, append_assoc, cons_append, lexes_text text first,
      blankWords_append text blank]
    constructor
    · rintro ⟨ts, lexes, rfl⟩
      rw [lexes_blank blank, later] at lexes
      obtain ⟨ts', lexes, rfl⟩ := lexes
      exact ⟨ts', lexes, by simp⟩
    · rintro ⟨ts, lexes, rfl⟩
      refine ⟨(blankWords more).map escaped ++ ts, ?_, by simp⟩
      exact (lexes_blank blank).2 ((later _).2 ⟨ts, lexes, rfl⟩)

theorem words_text (plain : ∀ c ∈ a, c ≠ '\n' ∧ c ≠ '\x00') :
    ∀ w ∈ blankWords a, ∀ c ∈ w, isText c = true := by
  refine argument_induction (P := fun a => ∀ w ∈ blankWords a, ∀ c ∈ w, isText c = true) ?_ ?_ plain
  · intro w text w' mem
    rw [blankWords_text text] at mem
    split_ifs at mem
    · exact (not_mem_nil mem).elim
    · exact List.mem_singleton.1 mem ▸ text
  · intro w b more text blank later w' mem
    rw [blankWords_append text blank, blankWords_text text] at mem
    rcases List.mem_append.1 mem with mem | mem
    · split_ifs at mem
      · exact (not_mem_nil mem).elim
      · exact List.mem_singleton.1 mem ▸ text
    · exact later w' mem

end Reading

/-! ### The arguments that are read -/

/-- The code takes the blank between two quotes for an argument. -/
def readArgs : List (List Char) → List (List Char)
  | [] => []
  | [a] => blankWords a
  | a :: more => blankWords a ++ [' '] :: readArgs more

def PlainArgs (args : List (List Char)) : Prop := ∀ a ∈ args, ∀ c ∈ a, c ≠ '\n' ∧ c ≠ '\x00'

theorem lexes_inner (some : args ≠ []) (plain : PlainArgs args) (tokens : List (List Char)) :
    Lexes true (innerText args) tokens ↔ tokens = (readArgs args).map escaped := by
  induction args generalizing tokens with
  | nil => exact absurd rfl some
  | cons a more ih =>
    obtain ⟨here, later⟩ := List.forall_mem_cons.1 plain
    cases more with
    | nil =>
      have words := @lexes_words a [] here (fun _ mem => by cases mem) tokens
      rw [append_nil] at words
      rw [innerText, words]
      simp [lexes_nil, readArgs]
    | cons b more =>
      change Lexes true (escaped a ++ '"' :: ' ' :: '"' :: innerText (b :: more)) tokens ↔
        tokens = (blankWords a ++ [' '] :: readArgs (b :: more)).map escaped
      rw [lexes_words here (fun c mem => (Option.mem_some_iff.1 mem).symm) tokens]
      have blank : quoted (' ' :: '"' :: innerText (b :: more)) =
        .some ([' '], innerText (b :: more)) := by
        cases inner : innerText (b :: more) <;> simp [quoted]
      have read := ih (cons_ne_nil _ _) later
      simp only [lexes_quote, blank]
      simp [escaped, read]

theorem copyEscaped_escaped (w : List Char) : copyEscaped (escaped w) = some w := by
  induction w with
  | nil => rfl
  | cons c w ih =>
    rw [escaped_cons]
    by_cases backslash : c = '\\'
    · subst backslash
      simp [copyEscaped, ih, escMap]
    · by_cases quote : c = '"'
      · subst quote
        simp [copyEscaped, ih, escMap]
      · simp [copyEscaped, ih, backslash, quote]

theorem terminated_text {w : List Char} (text : ∀ c ∈ w, isText c = true) :
    terminated w = String.ofList w := by
  rw [terminated, List.takeWhile_eq_self_iff.2]
  intro c mem
  have here := text c mem
  simp only [isText, Bool.and_eq_true] at here
  exact here.2

theorem readArgs_text (plain : PlainArgs args) :
    ∀ w ∈ readArgs args, terminated w = String.ofList w := by
  induction args with
  | nil => exact fun _ mem => (not_mem_nil mem).elim
  | cons a more ih =>
    obtain ⟨here, later⟩ := List.forall_mem_cons.1 plain
    have words : ∀ w ∈ blankWords a, terminated w = String.ofList w := fun w mem =>
      terminated_text (words_text here w mem)
    cases more with
    | nil => exact words
    | cons b more =>
      intro w mem
      rcases List.mem_append.1 (show w ∈ blankWords a ++ [' '] :: readArgs (b :: more) from mem)
        with mem | mem
      · exact words w mem
      · rcases List.mem_cons.1 mem with rfl | mem
        · rfl
        · exact ih later w mem

theorem strArr_inner (some : args ≠ []) (plain : PlainArgs args) :
    confConvToStrArr (String.ofList (innerText args)) true =
      .some ((readArgs args).map String.ofList) := by
  refine Option.bind_eq_some_iff.2 ⟨(readArgs args).map escaped, ?_, ?_⟩
  · rw [String.toList_ofList, argvTokens_iff (Nat.lt_succ_self _)]
    exact (lexes_inner some plain _).2 rfl
  · rw [Collect.mapM_some_iff, List.forall₂_map_left_iff, List.forall₂_map_right_iff,
      List.forall₂_same]
    intro w mem
    rw [copyEscaped_escaped, Option.map_some, readArgs_text plain w mem]

/-! ### When they are the arguments written -/

def IsWord (a : List Char) : Prop := a ≠ [] ∧ ∀ c ∈ a, isBlank c = false

def OneWord : List (List Char) → Prop
  | [] => False
  | a :: more => IsWord a ∧ (∀ b ∈ more, b = [' ']) ∨ a = [' '] ∧ OneWord more

theorem blankWords_blank : blankWords [' '] = [] := by decide

theorem words_of_word {a : List Char} (plain : ∀ c ∈ a, c ≠ '\n' ∧ c ≠ '\x00')
    (word : IsWord a) : blankWords a = [a] := by
  have text : ∀ c ∈ a, isText c = true := fun c mem => by
    simp [isText, word.2 c mem, plain c mem]
  rw [blankWords_text text, if_neg word.1]

theorem word_of_mem {a : List Char} (plain : ∀ c ∈ a, c ≠ '\n' ∧ c ≠ '\x00')
    (mem : a ∈ blankWords a) : IsWord a := by
  have some : a ≠ [] := by
    rintro rfl
    exact absurd mem (by decide)
  exact ⟨some, fun c here => text_noBlank (words_text plain a mem c here)⟩

/-- Behind a word every further argument has to be a blank. -/
theorem blanks_iff (some : args ≠ []) : [' '] :: readArgs args = args ↔ ∀ a ∈ args, a = [' '] := by
  induction args with
  | nil => exact absurd rfl some
  | cons a more ih =>
    cases more with
    | nil =>
      rw [readArgs, List.cons.injEq, forall_mem_singleton]
      constructor
      · exact fun same => same.1.symm
      · rintro rfl
        exact ⟨rfl, blankWords_blank⟩
    | cons b more =>
      change [' '] :: (blankWords a ++ [' '] :: readArgs (b :: more)) = a :: b :: more ↔ _
      rw [List.cons.injEq, forall_mem_cons, eq_comm]
      refine and_congr_right ?_
      rintro rfl
      rw [blankWords_blank, nil_append]
      exact ih (cons_ne_nil _ _)

theorem readArgs_iff (some : args ≠ []) (plain : PlainArgs args) :
    readArgs args = args ↔ OneWord args := by
  induction args with
  | nil => exact absurd rfl some
  | cons a more ih =>
    obtain ⟨here, later⟩ := List.forall_mem_cons.1 plain
    cases more with
    | nil =>
      simp only [readArgs, OneWord, and_false, or_false, not_mem_nil, false_imp_iff,
        implies_true, and_true]
      constructor
      · intro same
        exact word_of_mem here (same ▸ List.mem_singleton.2 rfl)
      · exact words_of_word here
    | cons b more =>
      have read := ih (cons_ne_nil _ _) later
      change blankWords a ++ [' '] :: readArgs (b :: more) = a :: b :: more ↔
        IsWord a ∧ (∀ c ∈ b :: more, c = [' ']) ∨ a = [' '] ∧ OneWord (b :: more)
      rw [← read, ← blanks_iff (cons_ne_nil b more)]
      constructor
      · intro same
        cases words : blankWords a with
        | nil =>
          rw [words, nil_append, List.cons.injEq] at same
          exact .inr ⟨same.1.symm, same.2⟩
        | cons w ws =>
          have first : w = a := by
            rw [words] at same
            exact (List.cons.inj same).1
          have word : IsWord a := word_of_mem here (by simp [words, first])
          rw [words_of_word here word] at same
          exact .inl ⟨word, (List.cons.inj same).2⟩
      · rintro (⟨word, same⟩ | ⟨rfl, same⟩)
        · rw [words_of_word here word, singleton_append, same]
        · rw [blankWords_blank, nil_append, same]

def CommandRead {Env Redir Cgroup : Type} (ctx : IniParserCtx) (d : TaskDraft Env Redir Cgroup)
    (args : List String) : Prop :=
  ∃ val d', iniHandler ctx "COMMAND" (String.ofList (quotedText (args.map String.toList))) =
      some ⟨ctx.list ++ [⟨"COMMAND", val⟩], ctx.keyArrayCount⟩ ∧
    cfgCmdHandler val d = some d' ∧ d'.cmds = d.cmds ++ [args]

theorem iniHandler_command (ctx : IniParserCtx) (some : args ≠ []) :
    iniHandler ctx "COMMAND" (String.ofList (quotedText args)) =
      .some ⟨ctx.list ++ [⟨"COMMAND", String.ofList (innerText args)⟩], ctx.keyArrayCount⟩ := by
  have key : legacyKey ctx "COMMAND".toList = .some ("COMMAND".toList, ctx.keyArrayCount) :=
    if_neg (by decide)
  rw [iniHandler, key, String.toList_ofList, matchQuotedConfig_quoted some]
  rfl

/-- Quoting protects the arguments of a command exactly if one of them is a word and all others
are single blanks; a list of one argument is protected if that is a word. -/
theorem quoting_protects_iff {Env Redir Cgroup : Type} (ctx : IniParserCtx)
    (d : TaskDraft Env Redir Cgroup) {args : List String} (some : args ≠ [])
    (plain : PlainArgs (args.map String.toList)) :
    CommandRead ctx d args ↔ OneWord (args.map String.toList) := by
  have texts : args.map String.toList ≠ [] := mt List.map_eq_nil_iff.1 some
  have read := strArr_inner texts plain
  rw [← readArgs_iff texts plain, CommandRead]
  simp only [iniHandler_command ctx texts, Option.some.injEq, IniParserCtx.mk.injEq,
    append_cancel_left_eq, List.cons.injEq, ConfKv.mk.injEq, true_and, and_true]
  constructor
  · rintro ⟨_, d', rfl, handled, cmds⟩
    rw [cfgCmdHandler, read, Option.map_some, Option.some.injEq] at handled
    subst handled
    have same : (readArgs (args.map String.toList)).map String.ofList = args := by
      simpa using cmds
    have texts := congrArg (List.map String.toList) same
    simpa using texts
  · intro same
    refine ⟨_, _, rfl, by rw [cfgCmdHandler, read]; rfl, ?_⟩
    rw [same, map_map]
    simp

def bareDraft : TaskDraft Unit Unit Unit := { taskEnv := (), elosFilters := () }

theorem blank_word_plain : PlainArgs ([" ", "ls", " "].map String.toList) := by
  have all : ([" ", "ls", " "].map String.toList).all
      (fun a => a.all fun c => c != '\n' && c != '\x00') = true := by decide
  intro a mem c within
  simpa using List.all_eq_true.1 (List.all_eq_true.1 all a mem) c within

/-- A word between two blanks. -/
theorem word_protected : CommandRead {} bareDraft [" ", "ls", " "] := by
  refine (quoting_protects_iff {} bareDraft (cons_ne_nil _ _) blank_word_plain).2 ?_
  exact .inr ⟨by decide, .inl ⟨⟨by decide, by simp; decide⟩, by decide⟩⟩

/-- The two arguments become three: the quotes in the middle enclose the blank. -/
theorem two_words_unprotected : ¬ CommandRead {} bareDraft ["a", "b"] := by
  rintro ⟨val, d', parsed, handled, cmds⟩
  have value : iniHandler {} "COMMAND" (String.ofList (quotedText [['a'], ['b']])) =
    some ⟨[⟨"COMMAND", "a\" \"b"⟩], 0⟩ := by decide
  cases value.symm.trans parsed
  have argv : confConvToStrArr "a\" \"b" true = some ["a", " ", "b"] := by decide
  rw [cfgCmdHandler, argv] at handled
  cases handled
  exact absurd cmds (by decide)

end Crinit
