import Crinit.ArgvBuffer
import Crinit.EnvExpansion
import Crinit.Lib.Replace

/-! `crinitExpandPIDVariablesInCommands`: the variable `TASK_PID` in stop commands, found with the
lexer for the values of variables. -/
namespace Crinit

open CText List Replace

def taskPid : List Char := "TASK_PID".toList

def pidVariable : List Char := '$' :: '\x7b' :: (taskPid ++ ['\x7d'])

def pidText (pid : Int) : List Char :=
  if pid < 0 then '-' :: Nat.toDigits 10 pid.natAbs else Nat.toDigits 10 pid.natAbs

/-- The loop of `crinitExpandPIDVariablesInSingleCommand`: `none` is the result -1, and the inner
`none` a text without the variable. `pending` is the text between `src` and `s`. -/
def expandPidLoop (pid : List Char) :
    Nat → List Char → List Char → Option (List Char) → Option (Option (List Char))
  | 0, _, _, _ => none
  | turns + 1, s, pending, result =>
    match envVarInnerLex s with
    | (.err, _) | (.esc _, _) | (.escx _ _, _) => none
    | (.stop, _) => some (result.map (· ++ pending))
    | (.cpy c, rest) => expandPidLoop pid turns rest (pending ++ [c]) result
    | (.var name, rest) =>
      if name = taskPid then
        expandPidLoop pid turns rest [] (some (result.getD [] ++ (pending ++ pid)))
      else
        expandPidLoop pid turns rest (pending ++ '$' :: '\x7b' :: (name ++ ['\x7d'])) result

def expandPIDVariablesInSingleCommand (pid : Int) (input : List Char) : Option (List Char) :=
  (expandPidLoop (pidText pid) (input.length + 1) input [] none).map (Option.getD · input)

structure PidMem where
  bufOk : Nat → Bool := fun _ => true
  argOk : Nat → Nat → Bool := fun _ _ => true

def ValBuf.reserve (b : ValBuf) (n : Nat) : ValBuf :=
  if b.text.length + n > b.alloc then ⟨b.text.length + n, b.text⟩ else b

/-- The loop over the arguments: the buffer, and the offsets of the results in it. The inner
`none` ends the function, the outer one is a write behind the end of the buffer. -/
def expandArgs (pid : Int) (ok : Nat → Bool) :
    Nat → List (List Char) → ValBuf → Option (Option (ValBuf × List Nat))
  | _, [], b => some (some (b, []))
  | j, arg :: args, b =>
    match if ok j then expandPIDVariablesInSingleCommand pid arg else none with
    | none => some none
    | some result =>
      ((b.reserve (result.length + 1)).write (result ++ [nul]) 0).bind fun b' =>
        (expandArgs pid ok (j + 1) args b').map (Option.map fun r => (r.1, b.text.length :: r.2))

def argvLen (argv : List (List Char)) : Nat := (argv.map fun arg => arg.length + 1).sum

def expandCommand (pid : Int) (mem : PidMem) (i : Nat) (argv : List (List Char)) :
    Option (Option (List (List Char))) :=
  if mem.bufOk i = false then some none
  else (expandArgs pid (mem.argOk i) 0 argv ⟨2 * argvLen argv, []⟩).map
    (Option.map fun r => r.2.map fun off => upToNul (r.1.text.drop off))

def expandPIDVariablesInCommands (pid : Int) (mem : PidMem) :
    Nat → List (List (List Char)) → Option (List (List (List Char)))
  | _, [] => some []
  | i, argv :: commands =>
    if argv.length > 0 then
      match expandCommand pid mem i argv with
      | none => none
      | some none => some (argv :: commands)
      | some (some argv') =>
        (expandPIDVariablesInCommands pid mem (i + 1) commands).map (argv' :: ·)
    else (expandPIDVariablesInCommands pid mem (i + 1) commands).map (argv :: ·)

structure PidExpanded (pid : Int) (commands commands' : List (List (List Char))) : Prop where
  args : commands' = commands.map (List.map (replace pidVariable (pidText pid)))
  argc : commands'.map List.length = commands.map List.length

/-- The function ends at a command: it lacks memory, or an argument has a backslash. -/
def Refused (mem : PidMem) (i : Nat) (argv : List (List Char)) : Prop :=
  argv ≠ [] ∧ (mem.bufOk i = false ∨
    ∃ j arg, argv[j]? = some arg ∧ (mem.argOk i j = false ∨ '\\' ∈ arg))

def NoneLeft (mem : PidMem) (commands : List (List (List Char))) : Prop :=
  ∀ i argv, commands[i]? = some argv → Refused mem i argv →
    ∀ argv' ∈ commands.drop i, ∀ arg ∈ argv', ¬ pidVariable <:+: arg

section Argument

variable {s rest : List Char} {pid : List Char} {turns : Nat} {token : EnvInnerToken}

theorem keyStart_keyChar {c : Char} (start : isKeyStart c = true) : isKeyChar c = true := by
  unfold isKeyStart at start
  unfold isKeyChar Char.isAlphanum
  rw [Bool.or_eq_true] at start ⊢
  exact start.imp_left fun alpha => by rw [alpha, Bool.true_or]

theorem varAt_name {name : List Char} (identifier : Identifier name) (rest : List Char) :
    varAt (name ++ '\x7d' :: rest) = some (name, rest) := by
  obtain ⟨c, cs, rfl, start, inside⟩ := identifier
  have keys : ∀ d ∈ c :: cs, isKeyChar d = true := by
    intro d mem
    rcases List.mem_cons.1 mem with rfl | mem
    · exact keyStart_keyChar start
    · exact inside d mem
  have brace : ¬ isKeyChar '\x7d' = true := by decide
  have taken : (c :: cs ++ '\x7d' :: rest).takeWhile isKeyChar = c :: cs := by
    rw [takeWhile_append_of_pos keys, takeWhile_cons_of_neg brace, append_nil]
  have left : (c :: cs ++ '\x7d' :: rest).dropWhile isKeyChar = '\x7d' :: rest := by
    rw [dropWhile_append_of_pos keys, dropWhile_cons_of_neg brace]
  unfold varAt
  rw [taken, left]
  exact if_pos start

theorem pidVariable_some : pidVariable ≠ [] := cons_ne_nil _ _

theorem taskPid_identifier : Identifier taskPid :=
  ⟨'T', "ASK_PID".toList, by decide, by decide, List.all_eq_true.1 (by decide)⟩

theorem pidVariable_lex (rest : List Char) :
    envVarInnerLex (pidVariable ++ rest) = (.var taskPid, rest) := by
  have whole : pidVariable ++ rest = '$' :: '\x7b' :: (taskPid ++ '\x7d' :: rest) := by
    simp [pidVariable]
  rw [whole]
  simp [envVarInnerLex, varAt_name taskPid_identifier]

theorem varAt_keys {cs name : List Char} (found : varAt cs = some (name, rest)) :
    ∀ c ∈ name, isKeyChar c = true := by
  unfold varAt at found
  split at found
  · rename_i c inside rest' taken left
    split_ifs at found
    cases found
    rw [← taken]
    exact fun d mem => mem_takeWhile_imp mem
  · cases found

theorem innerLex_cases (lexed : envVarInnerLex s = (token, rest)) :
    (token = .stop ∧ s = []) ∨
      (∃ c, token = .cpy c ∧ s = c :: rest ∧ c ≠ '\\' ∧ ¬ pidVariable <+: s) ∨
      (∃ name, token = .var name ∧ s = '$' :: '\x7b' :: (name ++ '\x7d' :: rest) ∧
        ∀ c ∈ name, isKeyChar c = true) ∨
      ('\\' ∈ s ∧ (token = .err ∨ (∃ c, token = .esc c) ∨ ∃ a b, token = .escx a b)) := by
  have noVariable {c : Char} (copied : token = .cpy c) : ¬ pidVariable <+: s := by
    rintro ⟨t, rfl⟩
    rw [pidVariable_lex] at lexed
    cases lexed
    cases copied
  revert lexed
  fun_cases envVarInnerLex s with
  | case1 => rintro ⟨⟩; exact .inl ⟨rfl, rfl⟩
  | case2 a b => rintro ⟨⟩; exact .inr (.inr (.inr ⟨by simp, .inr (.inr ⟨a, b, rfl⟩)⟩))
  | case3 => rintro ⟨⟩; exact .inr (.inr (.inr ⟨by simp, .inr (.inl ⟨'x', rfl⟩)⟩))
  | case4 c => rintro ⟨⟩; exact .inr (.inr (.inr ⟨by simp, .inr (.inl ⟨c, rfl⟩)⟩))
  | case5 => rintro ⟨⟩; exact .inr (.inr (.inr ⟨by simp, .inl rfl⟩))
  | case6 cs name rest' found =>
    rintro ⟨⟩
    exact .inr (.inr (.inl ⟨name, rfl, by rw [varAt_eq found], varAt_keys found⟩))
  | case7 cs found => rintro ⟨⟩; exact .inr (.inl ⟨'$', rfl, rfl, by decide, noVariable rfl⟩)
  | case8 c cs hex escape lone =>
    rintro ⟨⟩
    exact .inr (.inl ⟨c, rfl, rfl, not_backslash escape lone, noVariable rfl⟩)

theorem other_variable {name : List Char} (other : name ≠ taskPid)
    (keys : ∀ c ∈ name, isKeyChar c = true)
    (lexed : envVarInnerLex ('$' :: '\x7b' :: (name ++ '\x7d' :: rest)) = (.var name, rest)) :
    replace pidVariable pid ('$' :: '\x7b' :: (name ++ '\x7d' :: rest)) =
        ('$' :: '\x7b' :: (name ++ ['\x7d'])) ++ replace pidVariable pid rest ∧
      (pidVariable <:+: '$' :: '\x7b' :: (name ++ '\x7d' :: rest) ↔ pidVariable <:+: rest) := by
  have here : ¬ pidVariable <+: '$' :: '\x7b' :: (name ++ '\x7d' :: rest) := by
    rintro ⟨t, whole⟩
    rw [← whole, pidVariable_lex] at lexed
    cases lexed
    exact other rfl
  have inside : ∀ c ∈ '\x7b' :: (name ++ ['\x7d']), pidVariable.head? ≠ some c := by
    intro c mem same
    obtain rfl : '$' = c := Option.some.inj same
    simp only [mem_cons, mem_append, not_mem_nil, or_false] at mem
    rcases mem with mem | mem | mem
    · exact absurd mem (by decide)
    · exact absurd (keys _ mem) (by decide)
    · exact absurd mem (by decide)
  have parts : '\x7b' :: (name ++ '\x7d' :: rest) = ('\x7b' :: (name ++ ['\x7d'])) ++ rest := by
    simp
  constructor
  · rw [replace_cons here, parts, replace_skip inside pidVariable_some, ← cons_append]
  · rw [infix_cons_iff, or_iff_right here, parts, infix_skip inside pidVariable_some]

def pidResult (pid s pending : List Char) (result : Option (List Char)) : Option (List Char) :=
  if result = none ∧ ¬ pidVariable <:+: s then none
  else some (result.getD [] ++ (pending ++ replace pidVariable pid s))

theorem pidResult_step {read : List Char} (left : pidVariable <:+: s ↔ pidVariable <:+: rest)
    (text : replace pidVariable pid s = read ++ replace pidVariable pid rest)
    (pending : List Char) (result : Option (List Char)) :
    pidResult pid rest (pending ++ read) result = pidResult pid s pending result := by
  simp only [pidResult, left, text, append_assoc]

theorem expandPidLoop_plain (enough : s.length < turns) (plain : '\\' ∉ s) (pending : List Char)
    (result : Option (List Char)) :
    expandPidLoop pid turns s pending result = some (pidResult pid s pending result) := by
  induction turns generalizing s pending result with
  | zero => omega
  | succ turns ih =>
    cases lexed : envVarInnerLex s with
    | mk token rest =>
      unfold expandPidLoop
      rw [lexed]
      rcases innerLex_cases lexed with ⟨rfl, rfl⟩ | ⟨c, rfl, rfl, -, here⟩ |
        ⟨name, rfl, rfl, keys⟩ | ⟨escape, -⟩
      · cases result with
        | none => rfl
        | some r => simp [pidResult, Replace.replace_nil]
      · rw [length_cons] at enough
        simp only [mem_cons, not_or] at plain
        have left : pidVariable <:+: c :: rest ↔ pidVariable <:+: rest := by
          rw [infix_cons_iff, or_iff_right here]
        dsimp only
        rw [ih (by omega) plain.2, pidResult_step left (replace_cons here)]
      · simp only [length_cons, length_append] at enough
        simp only [mem_cons, mem_append, not_or] at plain
        have again := fun p r => ih (s := rest) (by omega) plain.2.2.2.2 p r
        dsimp only
        by_cases this : name = taskPid
        · subst this
          have parts : '$' :: '\x7b' :: (taskPid ++ '\x7d' :: rest) = pidVariable ++ rest := by
            simp [pidVariable]
          have occurs : pidVariable <:+: pidVariable ++ rest := ⟨[], rest, by simp⟩
          rw [if_pos rfl, again, pidResult, pidResult, parts, if_neg (by simp),
            if_neg (fun none => none.2 occurs), replace_here pidVariable_some]
          simp
        · obtain ⟨text, left⟩ := @other_variable rest pid name this keys lexed
          rw [if_neg this, again, pidResult_step left text]
      · exact absurd escape plain

theorem expandPidLoop_escape (escape : '\\' ∈ s) (pending : List Char)
    (result : Option (List Char)) : expandPidLoop pid turns s pending result = none := by
  induction turns generalizing s pending result with
  | zero => rfl
  | succ turns ih =>
    cases lexed : envVarInnerLex s with
    | mk token rest =>
      unfold expandPidLoop
      rw [lexed]
      rcases innerLex_cases lexed with ⟨rfl, rfl⟩ | ⟨c, rfl, rfl, other, -⟩ |
        ⟨name, rfl, rfl, keys⟩ | ⟨-, rfl | ⟨c, rfl⟩ | ⟨a, b, rfl⟩⟩
      · exact absurd escape not_mem_nil
      · exact ih ((List.mem_cons.1 escape).resolve_left (Ne.symm other)) _ _
      · have behind : '\\' ∈ rest := by
          simp only [mem_cons, mem_append] at escape
          rcases escape with here | here | here | here | here
          · exact absurd here (by decide)
          · exact absurd here (by decide)
          · exact absurd (keys _ here) (by decide)
          · exact absurd here (by decide)
          · exact here
        dsimp only
        split_ifs
        · exact ih behind _ _
        · exact ih behind _ _
      · rfl
      · rfl
      · rfl

theorem pidText_chars (pid : Int) : ∀ c ∈ pidText pid, c = '-' ∨ c.isDigit = true := by
  have digits : ∀ c ∈ Nat.toDigits 10 pid.natAbs, c = '-' ∨ c.isDigit = true :=
    fun c mem => .inr (Nat.isDigit_of_mem_toDigits (by decide) (by decide) mem)
  unfold pidText
  split_ifs
  · exact fun c mem => (List.mem_cons.1 mem).elim .inl (digits c)
  · exact digits

theorem pidText_some (pid : Int) : pidText pid ≠ [] := by
  unfold pidText
  split_ifs
  · exact cons_ne_nil _ _
  · exact Nat.toDigits_ne_nil

theorem not_mem_pidText {c : Char} (minus : c ≠ '-') (digit : ¬ c.isDigit = true) (pid : Int) :
    c ∉ pidText pid :=
  fun mem => (pidText_chars pid c mem).elim minus digit

theorem pidText_head (pid : Int) : (pidText pid).head? ≠ pidVariable.head? := fun same =>
  not_mem_pidText (by decide) (by decide) pid (mem_of_mem_head? same)

theorem pidText_noNul (pid : Int) : nul ∉ pidText pid :=
  not_mem_pidText (by decide) (by decide) pid

/-- The documented argument, or nothing if there is a backslash in it. -/
theorem expandSingle_eq (pid : Int) (input : List Char) :
    expandPIDVariablesInSingleCommand pid input =
      if '\\' ∈ input then none else some (replace pidVariable (pidText pid) input) := by
  unfold expandPIDVariablesInSingleCommand
  split_ifs with escape
  · rw [expandPidLoop_escape escape, Option.map_none]
  · rw [expandPidLoop_plain (Nat.lt_succ_self _) escape, pidResult, Option.map_some]
    split_ifs with none
    · rw [Option.getD_none, replace_none none.2]
    · simp

theorem expanded_noNul {pid : Int} {input : List Char} (plain : nul ∉ input) :
    nul ∉ replace pidVariable (pidText pid) input :=
  fun mem => (mem_replace mem).elim (pidText_noNul pid) plain

end Argument

section Command

variable {pid : Int} {ok : Nat → Bool} {args : List (List Char)} {b : ValBuf}

theorem reserve_write (b : ValBuf) (text : List Char) :
    ∃ alloc, (b.reserve text.length).write text 0 = some ⟨alloc, b.text ++ text⟩ := by
  unfold ValBuf.reserve
  split_ifs with small
  · exact ⟨_, write_fits (Nat.le_refl _)⟩
  · exact ⟨_, write_fits (Nat.not_lt.1 small)⟩

theorem stored_upToNul {mem out : List Char} {off : Nat} (stored : Stored mem off out)
    (plain : nul ∉ out) : upToNul (mem.drop off) = out := by
  obtain ⟨before, after, rfl, rfl⟩ := stored
  have behind : upToNul (nul :: after) = [] := rfl
  rw [drop_left, upToNul_append plain, behind, append_nil]

def ArgRefused (ok : Nat → Bool) (j : Nat) (args : List (List Char)) : Prop :=
  ∃ k arg, args[k]? = some arg ∧ (ok (j + k) = false ∨ '\\' ∈ arg)

theorem argRefused_cons {j : Nat} {arg : List Char} : ArgRefused ok j (arg :: args) ↔
    (ok j = false ∨ '\\' ∈ arg) ∨ ArgRefused ok (j + 1) args := by
  unfold ArgRefused
  constructor
  · rintro ⟨k, arg', here, why⟩
    cases k with
    | zero =>
      obtain rfl : arg = arg' := Option.some.inj here
      exact .inl why
    | succ k => exact .inr ⟨k, arg', here, by rwa [Nat.add_assoc, Nat.add_comm 1]⟩
  · rintro (why | ⟨k, arg', here, why⟩)
    · exact ⟨0, arg, rfl, why⟩
    · exact ⟨k + 1, arg', here, by rwa [Nat.add_comm k, ← Nat.add_assoc]⟩

theorem single_cases (pid : Int) (ok : Nat → Bool) (j : Nat) (arg : List Char) :
    (if ok j then expandPIDVariablesInSingleCommand pid arg else none) =
      if ok j = false ∨ '\\' ∈ arg then none
      else some (replace pidVariable (pidText pid) arg) := by
  rw [expandSingle_eq]
  cases ok j with
  | false => simp
  | true => simp

theorem expandArgs_refused {j : Nat} (refused : ArgRefused ok j args) :
    expandArgs pid ok j args b = some none := by
  induction args generalizing j b with
  | nil =>
    obtain ⟨k, arg, here, -⟩ := refused
    cases here
  | cons arg args ih =>
    rw [expandArgs, single_cases]
    by_cases here : ok j = false ∨ '\\' ∈ arg
    · rw [if_pos here]
    · have later := (argRefused_cons.1 refused).resolve_left here
      obtain ⟨alloc, written⟩ := reserve_write b (replace pidVariable (pidText pid) arg ++ [nul])
      rw [length_append, length_singleton] at written
      rw [if_neg here]
      dsimp only
      rw [written, Option.bind_some, ih later]
      rfl

theorem expandArgs_stored {j : Nat} (accepted : ¬ ArgRefused ok j args) (b : ValBuf) :
    ∃ b' offs, expandArgs pid ok j args b = some (some (b', offs)) ∧
      (∃ more, b'.text = b.text ++ more) ∧
      List.Forall₂ (Stored b'.text) offs (args.map (replace pidVariable (pidText pid))) := by
  induction args generalizing j b with
  | nil => exact ⟨b, [], rfl, ⟨[], (append_nil _).symm⟩, .nil⟩
  | cons arg args ih =>
    rw [argRefused_cons, not_or] at accepted
    obtain ⟨alloc, written⟩ := reserve_write b (replace pidVariable (pidText pid) arg ++ [nul])
    rw [length_append, length_singleton] at written
    obtain ⟨b', offs, rest, ⟨more, text⟩, stored⟩ := ih accepted.2
      ⟨alloc, b.text ++ (replace pidVariable (pidText pid) arg ++ [nul])⟩
    have whole : b'.text = b.text ++ (replace pidVariable (pidText pid) arg ++ nul :: more) := by
      rw [text]
      simp
    refine ⟨b', b.text.length :: offs, ?_, ⟨_, whole⟩, .cons ⟨b.text, more, whole, rfl⟩ stored⟩
    rw [expandArgs, single_cases, if_neg accepted.1]
    dsimp only
    rw [written, Option.bind_some, rest]
    rfl

theorem strings_read {mem : List Char} {offs : List Nat} {outs : List (List Char)}
    (stored : List.Forall₂ (Stored mem) offs outs) (plain : ∀ out ∈ outs, nul ∉ out) :
    offs.map (fun off => upToNul (mem.drop off)) = outs := by
  induction stored with
  | nil => rfl
  | cons here _ ih =>
    rw [map_cons, stored_upToNul here (plain _ mem_cons_self),
      ih fun out mem => plain out (mem_cons_of_mem _ mem)]

/-- All arguments of a command are expanded, or none is. -/
theorem expandCommand_eq (pid : Int) (mem : PidMem) (i : Nat) {argv : List (List Char)}
    (some : argv ≠ []) (plain : ∀ arg ∈ argv, nul ∉ arg) :
    (Refused mem i argv → expandCommand pid mem i argv = .some none) ∧
      (¬ Refused mem i argv → expandCommand pid mem i argv =
        .some (.some (argv.map (replace pidVariable (pidText pid))))) := by
  have refusedIff : Refused mem i argv ↔ mem.bufOk i = false ∨ ArgRefused (mem.argOk i) 0 argv := by
    unfold Refused ArgRefused
    simp only [some, ne_eq, not_false_eq_true, true_and, Nat.zero_add]
  unfold expandCommand
  rw [refusedIff]
  by_cases buffer : mem.bufOk i = false
  · exact ⟨fun _ => if_pos buffer, fun accepted => absurd (.inl buffer) accepted⟩
  · rw [if_neg buffer, or_iff_right buffer]
    constructor
    · intro refused
      rw [expandArgs_refused refused]
      rfl
    · intro accepted
      obtain ⟨b', offs, ran, -, stored⟩ := @expandArgs_stored pid (mem.argOk i) argv 0 accepted
        ⟨2 * argvLen argv, []⟩
      rw [ran, Option.map_some, Option.map_some, strings_read stored]
      intro out here
      obtain ⟨arg, inside, rfl⟩ := List.mem_map.1 here
      exact expanded_noNul (plain arg inside)

end Command

section Commands

variable {pid : Int} {mem : PidMem} {commands : List (List (List Char))}

def NoneLeftFrom (mem : PidMem) (i : Nat) (commands : List (List (List Char))) : Prop :=
  ∀ k argv, commands[k]? = some argv → Refused mem (i + k) argv →
    ∀ argv' ∈ commands.drop k, ∀ arg ∈ argv', ¬ pidVariable <:+: arg

theorem noneLeft_cons {i : Nat} {argv : List (List Char)} :
    NoneLeftFrom mem i (argv :: commands) ↔
      (Refused mem i argv → ∀ argv' ∈ argv :: commands, ∀ arg ∈ argv', ¬ pidVariable <:+: arg) ∧
        NoneLeftFrom mem (i + 1) commands := by
  unfold NoneLeftFrom
  constructor
  · intro none
    refine ⟨none 0 argv rfl, fun k argv' here refused => ?_⟩
    refine none (k + 1) argv' here ?_
    rwa [Nat.add_comm k, ← Nat.add_assoc]
  · rintro ⟨first, later⟩ k argv' here refused
    cases k with
    | zero =>
      obtain rfl : argv = argv' := Option.some.inj here
      exact first refused
    | succ k => exact later k argv' here (by rwa [Nat.add_assoc, Nat.add_comm 1])

theorem argument_unchanged_iff (pid : Int) (arg : List Char) :
    replace pidVariable (pidText pid) arg = arg ↔ ¬ pidVariable <:+: arg :=
  replace_eq_self_iff pidVariable_some (pidText_some pid) (pidText_head pid)

theorem map_eq_self_iff {α : Type} (f : α → α) (l : List α) :
    l.map f = l ↔ ∀ a ∈ l, f a = a := by
  have inj := @map_inj_left _ _ l f id
  rwa [map_id] at inj

theorem unchanged_iff_none (pid : Int) (commands : List (List (List Char))) :
    commands = commands.map (List.map (replace pidVariable (pidText pid))) ↔
      ∀ argv ∈ commands, ∀ arg ∈ argv, ¬ pidVariable <:+: arg := by
  rw [eq_comm, map_eq_self_iff]
  simp only [map_eq_self_iff, argument_unchanged_iff]

theorem cons_map_some {α : Type} {a : α} {o : Option (List α)} {l : List α} :
    o.map (a :: ·) = some (a :: l) ↔ o = some l := by
  cases o with
  | none => simp
  | some l' => simp

theorem expandCommands_eq_iff (pid : Int) (mem : PidMem)
    (plain : ∀ argv ∈ commands, ∀ arg ∈ argv, nul ∉ arg) (i : Nat) :
    expandPIDVariablesInCommands pid mem i commands =
        some (commands.map (List.map (replace pidVariable (pidText pid)))) ↔
      NoneLeftFrom mem i commands := by
  induction commands generalizing i with
  | nil =>
    refine iff_of_true rfl ?_
    intro k argv here
    cases here
  | cons argv commands ih =>
    have later := ih (fun argv mem => plain argv (mem_cons_of_mem _ mem)) (i + 1)
    rw [noneLeft_cons, expandPIDVariablesInCommands]
    by_cases empty : argv = []
    · subst empty
      have accepted : ¬ Refused mem i [] := fun refused => refused.1 rfl
      rw [if_neg (by simp), map_cons, map_nil, cons_map_some, later]
      exact (and_iff_right fun refused => absurd refused accepted).symm
    obtain ⟨ends, goes⟩ := expandCommand_eq pid mem i empty (plain argv mem_cons_self)
    rw [if_pos (List.length_pos_iff.2 empty)]
    by_cases refused : Refused mem i argv
    · rw [ends refused]
      dsimp only
      rw [Option.some_inj, unchanged_iff_none]
      constructor
      · intro none
        refine ⟨fun _ => none, fun k argv' here _ argv'' mem => none argv'' ?_⟩
        exact mem_cons_of_mem _ (mem_of_mem_drop mem)
      · exact fun none => none.1 refused
    · rw [goes refused]
      dsimp only
      rw [map_cons, cons_map_some, later]
      exact (and_iff_right fun here => absurd here refused).symm

/-- The expansion is the documented one exactly if no command from the first on at which the
function ends has the variable. -/
theorem stop_expansion_iff (pid : Int) (mem : PidMem) (commands : List (List (List Char)))
    (plain : ∀ argv ∈ commands, ∀ arg ∈ argv, nul ∉ arg) :
    (∃ commands', expandPIDVariablesInCommands pid mem 0 commands = some commands' ∧
        PidExpanded pid commands commands') ↔ NoneLeft mem commands := by
  have from0 : NoneLeftFrom mem 0 commands ↔ NoneLeft mem commands := by
    simp only [NoneLeftFrom, NoneLeft, Nat.zero_add]
  rw [← from0, ← expandCommands_eq_iff pid mem plain]
  constructor
  · rintro ⟨commands', ran, expanded⟩
    rw [ran, expanded.args]
  · intro ran
    refine ⟨_, ran, rfl, ?_⟩
    simp

def killAndEcho : List (List (List Char)) :=
  [["kill".toList, pidVariable], ["echo".toList, "$\x7bHOME\x7d".toList]]

theorem kill_expanded : ∃ commands', expandPIDVariablesInCommands 42 {} 0 killAndEcho =
    some commands' ∧ PidExpanded 42 killAndEcho commands' := by
  have plain : ∀ argv ∈ killAndEcho, ∀ arg ∈ argv, nul ∉ arg ∧ '\\' ∉ arg := by
    intro argv mem arg mem'
    simp only [killAndEcho, mem_cons, not_mem_nil, or_false] at mem
    rcases mem with rfl | rfl <;>
      simp only [mem_cons, not_mem_nil, or_false] at mem' <;>
      rcases mem' with rfl | rfl <;> decide
  refine (stop_expansion_iff 42 {} killAndEcho fun argv mem arg mem' =>
    (plain argv mem arg mem').1).2 ?_
  rintro i argv here ⟨-, buffer | ⟨j, arg, here', memory | escape⟩⟩
  · cases buffer
  · cases memory
  · exact absurd escape (plain argv (mem_of_getElem? here) arg (mem_of_getElem? here')).2

def echoAndKill : List (List (List Char)) := [["a\\b".toList], [pidVariable]]

theorem backslash_ends : ¬ ∃ commands', expandPIDVariablesInCommands 42 {} 0 echoAndKill =
    some commands' ∧ PidExpanded 42 echoAndKill commands' := by
  have unchanged : expandPIDVariablesInCommands 42 {} 0 echoAndKill = some echoAndKill := by decide
  rintro ⟨commands', ran, expanded⟩
  obtain rfl : echoAndKill = commands' := Option.some.inj (unchanged.symm.trans ran)
  exact absurd expanded.args (by decide)

end Commands

end Crinit
