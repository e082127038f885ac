import Crinit.RtimMsg

/-! Writing a runtime command as a text and reading it again. -/
namespace Crinit

open List

def opStrGetByRtimOp (opCode : RtimOp) : Option String :=
  (rtimOps.find? fun op => op = opCode).map RtimOp.opStr

def rtimCmdToMsgStr (allocOk : Bool) (cmd : RtimCmd) : Option (List Char × Nat) := do
  let opStr ← opStrGetByRtimOp cmd.op
  let outLen := cmd.args.foldl (fun n arg => n + (arg.length + 1)) (opStr.length + 1)
  if !allocOk then none
  else some (cmd.args.foldl (fun out arg => out ++ argDelim :: arg.toList) opStr.toList, outLen)

def argText (cmdStr : List Char) : List Char :=
  skipDelims (cmdStr.dropWhile fun ch => ch ≠ argDelim)

/-- The maximal pieces of a text that starts with a delimiter, if it is not empty: each one
stands between delimiters, or behind the last of them at the end. -/
inductive Pieces : List Char → List (List Char) → Prop where
  | none {delims : List Char} (only : ∀ ch ∈ delims, ch = argDelim) : Pieces delims []
  | cons {delims piece rest : List Char} {pieces : List (List Char)} (some : delims ≠ [])
      (only : ∀ ch ∈ delims, ch = argDelim) (nonempty : piece ≠ []) (text : argDelim ∉ piece)
      (stop : rest = [] ∨ rest.head? = .some argDelim) (later : Pieces rest pieces) :
      Pieces (delims ++ piece ++ rest) (piece :: pieces)

section Tokens

variable {piece rest : List Char}

theorem strtok_delims {delims : List Char} (only : ∀ ch ∈ delims, ch = argDelim) (s : List Char) :
    strtok (delims ++ s) = strtok s := by
  induction delims with
  | nil => rfl
  | cons ch delims ih =>
    rw [only ch mem_cons_self, cons_append, strtok_delim]
    exact ih fun ch mem => only ch (mem_cons_of_mem _ mem)

theorem strtok_piece (nonempty : piece ≠ []) (text : argDelim ∉ piece)
    (stop : rest = [] ∨ rest.head? = some argDelim) :
    strtok (piece ++ rest) = piece :: strtok rest := by
  have within : ∀ ch ∈ piece, (ch == argDelim) = false := by
    intro ch mem
    rw [beq_eq_false_iff_ne]
    rintro rfl
    exact text mem
  rcases stop with rfl | delim
  · rw [append_nil, strtok, List.splitOn, splitOnP_eq_singleton within]
    simp [nonempty, strtok]
  · obtain ⟨later, rfl⟩ := List.head?_eq_some_iff.1 delim
    rw [strtok_delim, strtok, List.splitOn,
      splitOnP_append_cons_of_forall_mem within argDelim (beq_self_eq_true _)]
    simp [nonempty, strtok, List.splitOn]

theorem strtok_of_pieces {s : List Char} {pieces : List (List Char)} (are : Pieces s pieces) :
    strtok s = pieces := by
  induction are with
  | none only =>
    have tokens := strtok_delims only []
    rw [append_nil] at tokens
    exact tokens
  | cons _ only nonempty text stop _ ih =>
    rw [append_assoc, strtok_delims only, strtok_piece nonempty text stop, ih]

theorem dropWhile_stop (s : List Char) : (s.dropWhile fun ch => ch ≠ argDelim) = [] ∨
    (s.dropWhile fun ch => ch ≠ argDelim).head? = some argDelim := by
  rcases h : s.dropWhile (fun ch => decide (ch ≠ argDelim)) with _ | ⟨ch, rest⟩
  · exact .inl rfl
  · have stop := head?_dropWhile_not (fun ch => decide (ch ≠ argDelim)) s
    rw [h] at stop
    exact .inr (by simpa using stop)

/-- Both behind delimiters and within a piece that has begun. -/
theorem pieces_strtok_from (s : List Char) {delims : List Char} (some : delims ≠ [])
    (only : ∀ ch ∈ delims, ch = argDelim) : Pieces (delims ++ s) (strtok s) ∧
      ∀ piece, piece ≠ [] → argDelim ∉ piece →
        Pieces (delims ++ piece ++ s) (strtok (piece ++ s)) := by
  induction s generalizing delims with
  | nil =>
    refine ⟨?_, fun piece nonempty text => ?_⟩
    · rw [append_nil]
      exact .none only
    · rw [strtok_piece nonempty text (.inl rfl)]
      exact .cons some only nonempty text (.inl rfl) (.none fun _ mem => nomatch mem)
  | cons ch s ih =>
    by_cases delim : ch = argDelim
    · subst delim
      have one : ∀ ch ∈ [argDelim], ch = argDelim := fun _ mem => List.mem_singleton.1 mem
      refine ⟨?_, fun piece nonempty text => ?_⟩
      · have more : ∀ ch ∈ delims ++ [argDelim], ch = argDelim := by
          intro ch mem
          rcases List.mem_append.1 mem with mem | mem
          · exact only ch mem
          · exact one ch mem
        have later := (ih (by simp) more).1
        rwa [append_assoc, singleton_append, ← strtok_delim] at later
      · rw [strtok_piece nonempty text (.inr rfl), strtok_delim]
        exact .cons some only nonempty text (.inr rfl) (ih (cons_ne_nil _ _) one).1
    · have within := (ih some only).2
      refine ⟨?_, fun piece nonempty text => ?_⟩
      · simpa using within [ch] (cons_ne_nil _ _) (by simpa using Ne.symm delim)
      · have longer := within (piece ++ [ch]) (by simp) (by simp [text, Ne.symm delim])
        simpa using longer

theorem pieces_strtok {s : List Char} (start : s = [] ∨ s.head? = some argDelim) :
    Pieces s (strtok s) := by
  rcases start with rfl | delim
  · exact .none fun _ mem => nomatch mem
  · obtain ⟨later, rfl⟩ := List.head?_eq_some_iff.1 delim
    have from_delim := (pieces_strtok_from later (cons_ne_nil argDelim []) fun _ mem =>
      List.mem_singleton.1 mem).1
    rwa [strtok_delim]

end Tokens

theorem strtok_skipDelims (s : List Char) (start : s = [] ∨ s.head? = some argDelim) :
    strtok (skipDelims s).tail = strtok s := by
  induction s with
  | nil => rfl
  | cons a rest ih =>
    have delim : a = argDelim := by simpa using start
    subst delim
    cases rest with
    | nil => exact (strtok_delim []).symm
    | cons b rest =>
      unfold skipDelims
      rw [strtok_delim]
      split_ifs with again
      · exact ih (.inr (by rw [again]; rfl))
      · rfl

/-- The parser gives all tokens behind the opcode: the count bounds their loop and cuts
nothing off. -/
theorem parse_eq (cmdStr : List Char) : parseRtimCmd true cmdStr =
    (rtimOpGetByOpStr cmdStr).map fun op =>
      ⟨op, (strtok (cmdStr.dropWhile fun ch => ch ≠ argDelim)).map String.ofList⟩ := by
  have fills : (strtok (argText cmdStr).tail).length = countArgs (argText cmdStr) :=
    parse_fills cmdStr
  have tokens : strtok (argText cmdStr).tail = strtok (cmdStr.dropWhile fun ch => ch ≠ argDelim) :=
    strtok_skipDelims _ (dropWhile_stop cmdStr)
  rw [tokens] at fills
  unfold parseRtimCmd
  cases rtimOpGetByOpStr cmdStr with
  | none => rfl
  | some op =>
    simp only [Option.bind_eq_bind, Option.bind_some, Bool.not_true, Bool.false_eq_true, if_false,
      Option.map_some]
    change (if countArgs (argText cmdStr) = 0 then _
    else some (⟨op, ((strtok (argText cmdStr).tail).take
      (countArgs (argText cmdStr))).map String.ofList⟩ : RtimCmd)) = _
    rw [← fills, tokens, take_length]
    split_ifs with none
    · rw [List.length_eq_zero_iff.1 none]
      rfl
    · rfl

theorem delimitedStrlen_append {op rest : List Char} (text : argDelim ∉ op)
    (stop : rest = [] ∨ rest.head? = some argDelim) : delimitedStrlen (op ++ rest) = op.length := by
  induction op with
  | nil =>
    rcases stop with rfl | delim
    · rfl
    · obtain ⟨later, rfl⟩ := List.head?_eq_some_iff.1 delim
      rfl
  | cons ch op ih =>
    rw [mem_cons, not_or] at text
    rw [cons_append, delimitedStrlen, if_neg (Ne.symm text.1), ih text.2, length_cons]

theorem opStr_text (op : RtimOp) : argDelim ∉ op.opStr.toList := by
  cases op with
  | c x => cases x <;> decide
  | r x => cases x <;> decide

theorem opStr_find (op : RtimOp) : rtimOps.find? (fun x => op.opStr.length = x.opStr.length &&
    x.opStr.toList.take op.opStr.length = op.opStr.toList) = some op := by
  cases op with
  | c x => cases x <;> decide
  | r x => cases x <;> decide

theorem opStrGetByRtimOp_eq (op : RtimOp) : opStrGetByRtimOp op = some op.opStr := by
  cases op with
  | c x => cases x <;> rfl
  | r x => cases x <;> rfl

theorem rtimOpGetByOpStr_append (op : RtimOp) {rest : List Char}
    (stop : rest = [] ∨ rest.head? = some argDelim) :
    rtimOpGetByOpStr (op.opStr.toList ++ rest) = some op := by
  have length := delimitedStrlen_append (opStr_text op) stop
  rw [String.length_toList] at length
  have taken : (op.opStr.toList ++ rest).take op.opStr.length = op.opStr.toList := by
    rw [← String.length_toList, take_left]
  simp only [rtimOpGetByOpStr, length, taken]
  exact opStr_find op

def argsText (args : List String) : List Char := args.flatMap fun arg => argDelim :: arg.toList

theorem toMsgStr_eq (cmd : RtimCmd) : rtimCmdToMsgStr true cmd =
    some (cmd.op.opStr.toList ++ argsText cmd.args,
      (cmd.op.opStr.toList ++ argsText cmd.args).length + 1) := by
  have text (out : List Char) (args : List String) :
      args.foldl (fun out arg => out ++ argDelim :: arg.toList) out = out ++ argsText args := by
    induction args generalizing out with
    | nil => simp [argsText]
    | cons arg args ih => simp [ih, argsText]
  have length (n : Nat) (args : List String) :
      args.foldl (fun n arg => n + (arg.length + 1)) n = n + (argsText args).length := by
    induction args generalizing n with
    | nil => rfl
    | cons arg args ih =>
      simp only [foldl_cons, ih, argsText, flatMap_cons, length_append,
        length_cons,
        String.length_toList]
      omega
  have total : cmd.op.opStr.length + 1 + (argsText cmd.args).length =
      (cmd.op.opStr.toList ++ argsText cmd.args).length + 1 := by
    rw [length_append, String.length_toList]
    omega
  simp only [rtimCmdToMsgStr, opStrGetByRtimOp_eq, Option.bind_eq_bind, Option.bind_some,
    Bool.not_true,
    Bool.false_eq_true, if_false, text, length, total]

def Sendable (args : List String) : Prop := ∀ arg ∈ args, arg ≠ "" ∧ argDelim ∉ arg.toList

theorem argsText_stop (args : List String) :
    argsText args = [] ∨ (argsText args).head? = some argDelim := by
  cases args with
  | nil => exact .inl rfl
  | cons arg args => exact .inr rfl

theorem argsText_pieces {args : List String} (sendable : Sendable args) :
    Pieces (argsText args) (args.map String.toList) := by
  induction args with
  | nil => exact .none fun _ mem => nomatch mem
  | cons arg args ih =>
    obtain ⟨nonempty, text⟩ := sendable arg mem_cons_self
    have later := ih fun arg mem => sendable arg (mem_cons_of_mem _ mem)
    have first : Pieces ([argDelim] ++ arg.toList ++ argsText args)
      (arg.toList :: args.map String.toList) :=
      .cons (cons_ne_nil _ _) (fun _ mem => List.mem_singleton.1 mem)
        (mt String.toList_eq_nil_iff.1 nonempty) text (argsText_stop args) later
    exact first

theorem parse_written {op : RtimOp} {args : List String} (sendable : Sendable args) :
    parseRtimCmd true (op.opStr.toList ++ argsText args) = some ⟨op, args⟩ := by
  have behind : (op.opStr.toList ++ argsText args).dropWhile (fun ch => ch ≠ argDelim) =
    argsText args := by
    have within : ∀ ch ∈ op.opStr.toList, decide (ch ≠ argDelim) = true := by
      intro ch mem
      rw [decide_eq_true_eq]
      rintro rfl
      exact opStr_text op mem
    rw [dropWhile_append_of_pos within]
    cases args with
    | nil => rfl
    | cons arg args => rfl
  rw [parse_eq, rtimOpGetByOpStr_append op (argsText_stop args), Option.map_some, behind,
    strtok_of_pieces (argsText_pieces sendable), map_map]
  simp

theorem sendable_of_pieces {s : List Char} {args : List String}
    (are : Pieces s (args.map String.toList)) :
    Sendable args := by
  induction args generalizing s with
  | nil => exact fun _ mem => nomatch mem
  | cons arg args ih =>
    rw [map_cons] at are
    cases are with
    | cons _ _ nonempty text _ later =>
      exact List.forall_mem_cons.2 ⟨⟨mt String.toList_eq_nil_iff.2 nonempty, text⟩, ih later⟩

def Survives (cmd : RtimCmd) : Prop :=
  ∃ msg, rtimCmdToMsgStr true cmd = some (msg, msg.length + 1) ∧ parseRtimCmd true msg = some cmd

theorem survives_of_sendable {cmd : RtimCmd} (sendable : Sendable cmd.args) : Survives cmd :=
  ⟨_, toMsgStr_eq cmd, parse_written sendable⟩

/-- Every command with sendable arguments survives; and whatever text is read as a command,
its arguments are the pieces behind the opcode, as many as were counted, and it survives. -/
theorem command_round_trip :
    (∀ (op : RtimOp) (args : List String), Sendable args → Survives ⟨op, args⟩) ∧
      ∀ (allocOk : Bool) (cmdStr : List Char) (cmd : RtimCmd),
        parseRtimCmd allocOk cmdStr = some cmd →
        Pieces (cmdStr.dropWhile fun ch => ch ≠ argDelim) (cmd.args.map String.toList) ∧
          countArgs (argText cmdStr) = cmd.args.length ∧ Survives cmd := by
  refine ⟨fun op args sendable => survives_of_sendable sendable,
    fun allocOk cmdStr cmd parsed => ?_⟩
  cases allocOk with
  | false =>
    unfold parseRtimCmd at parsed
    cases found : rtimOpGetByOpStr cmdStr with
    | none => simp [found] at parsed
    | some op => simp [found] at parsed
  | true =>
    rw [parse_eq] at parsed
    obtain ⟨op, -, rfl⟩ := Option.map_eq_some_iff.1 parsed
    have pieces : Pieces (cmdStr.dropWhile fun ch => ch ≠ argDelim)
        ((strtok (cmdStr.dropWhile fun ch => ch ≠ argDelim)).map String.ofList |>.map
          String.toList) := by
      rw [map_map]
      simpa [Function.comp_def] using pieces_strtok (dropWhile_stop cmdStr)
    have counted : countArgs (argText cmdStr) =
      (strtok (cmdStr.dropWhile fun ch => ch ≠ argDelim)).length := by
      rw [← strtok_skipDelims _ (dropWhile_stop cmdStr)]
      exact (parse_fills cmdStr).symm
    exact ⟨pieces, by rw [counted, length_map],
      survives_of_sendable (sendable_of_pieces pieces)⟩

end Crinit
