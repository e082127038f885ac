import Crinit.Commands

/-! The text form of a runtime command, as `rtimopmap.c` and `rtimcmd.c` read it: the opcode and the
arguments, each behind a newline. -/
namespace Crinit

open List

def argDelim : Char := '\n'

def Command.opStr : Command → String
  | .addTask => "ADDTASK"
  | .addSeries => "ADDSERIES"
  | .enable => "ENABLE"
  | .disable => "DISABLE"
  | .stop => "STOP"
  | .kill => "KILL"
  | .restart => "RESTART"
  | .notify => "NOTIFY"
  | .status => "STATUS"
  | .taskList => "TASKLIST"
  | .shutdown => "SHUTDOWN"
  | .getVer => "GETVER"

def RtimOp.opStr : RtimOp → String
  | .c x => "C_" ++ x.opStr
  | .r x => "R_" ++ x.opStr

def rtimOps : List RtimOp :=
  [Command.addTask, .addSeries, .enable, .disable, .stop, .kill, .restart, .notify,
    .status, .taskList,
    .shutdown, .getVer].flatMap fun x => [.c x, .r x]

def delimitedStrlen : List Char → Nat
  | [] => 0
  | ch :: rest => if ch = argDelim then 0 else delimitedStrlen rest + 1

def rtimOpGetByOpStr (opStr : List Char) : Option RtimOp :=
  let n := delimitedStrlen opStr
  rtimOps.find? fun op => n = op.opStr.length && op.opStr.toList.take n = opStr.take n

def skipDelims : List Char → List Char
  | a :: b :: rest => if b = argDelim then skipDelims (b :: rest) else a :: b :: rest
  | s => s

def countArgs : List Char → Nat
  | a :: b :: rest => (if a = argDelim ∧ b ≠ argDelim then 1 else 0) + countArgs (b :: rest)
  | _ => 0

def strtok (s : List Char) : List (List Char) := (s.splitOn argDelim).filter fun token => token ≠ []

def parseRtimCmd (allocOk : Bool) (cmdStr : List Char) : Option RtimCmd := do
  let op ← rtimOpGetByOpStr cmdStr
  let argStart := skipDelims (cmdStr.dropWhile fun ch => ch ≠ argDelim)
  let argCount := countArgs argStart
  if !allocOk then none
  else if argCount = 0 then some ⟨op, []⟩
  else some ⟨op, ((strtok argStart.tail).take argCount).map String.ofList⟩

section
variable (a b : Char) (s : List Char)

theorem strtok_delim : strtok (argDelim :: s) = strtok s := by
  simp [strtok, List.splitOn, splitOnP_cons_eq_if_modifyHead]

theorem strtok_alone (text : a ≠ argDelim) : strtok (a :: argDelim :: s) = [a] :: strtok s := by
  simp [strtok, List.splitOn, splitOnP_cons_eq_if_modifyHead, text]

theorem strtok_next (first : a ≠ argDelim) (second : b ≠ argDelim) :
    (strtok (a :: b :: s)).length = (strtok (b :: s)).length := by
  have head := splitOnP_ne_nil (fun ch => ch == argDelim) s
  obtain ⟨x, xs, split⟩ := exists_cons_of_ne_nil head
  simp [strtok, List.splitOn, splitOnP_cons_eq_if_modifyHead, first, second, split]

end

/-- The counting loop and `strtok_r` agree, behind a delimiter and within a token. -/
theorem countArgs_strtok (s : List Char) :
    countArgs (argDelim :: s) = (strtok s).length ∧
      ∀ a, a ≠ argDelim → countArgs (a :: s) + 1 = (strtok (a :: s)).length := by
  induction s with
  | nil =>
    refine ⟨rfl, fun a text => ?_⟩
    simp [countArgs, strtok, List.splitOn, splitOnP_cons_eq_if_modifyHead, text]
  | cons b rest ih =>
    obtain ⟨behind, within⟩ := ih
    by_cases delim : b = argDelim
    · subst delim
      refine ⟨?_, fun a text => ?_⟩
      · simp [countArgs, strtok_delim, behind]
      · simp [countArgs, strtok_alone a rest text, text, behind]
    · refine ⟨?_, fun a text => ?_⟩
      · simp only [countArgs, delim, ne_eq, not_false_eq_true, and_self, if_true]
        rw [← within b delim]
        omega
      · rw [strtok_next a b rest text delim, ← within b delim]
        simp [countArgs, text]

theorem skipDelims_head (s : List Char) (start : s = [] ∨ s.head? = some argDelim) :
    skipDelims s = [] ∨ (skipDelims s).head? = some argDelim := by
  induction s with
  | nil => exact .inl rfl
  | cons a rest ih =>
    cases rest with
    | nil => simpa [skipDelims] using start
    | cons b rest =>
      unfold skipDelims
      split_ifs with delim
      · exact ih (.inr (by rw [delim]; rfl))
      · exact .inr (by simpa using start)

/-- Every slot of the argument array that the parser allocates is filled. -/
theorem parse_fills (cmdStr : List Char) :
    let argStart := skipDelims (cmdStr.dropWhile fun ch => ch ≠ argDelim)
    (strtok argStart.tail).length = countArgs argStart := by
  intro argStart
  have start := skipDelims_head (cmdStr.dropWhile fun ch => ch ≠ argDelim) (by
    rcases h : cmdStr.dropWhile (fun ch => decide (ch ≠ argDelim)) with _ | ⟨a, rest⟩
    · exact .inl rfl
    · have stop := head?_dropWhile_not (fun ch => decide (ch ≠ argDelim)) cmdStr
      rw [h] at stop
      exact .inr (by simpa using stop))
  rcases start with none | delim
  · simp [argStart, none, countArgs, strtok]
  · obtain ⟨rest, split⟩ := List.head?_eq_some_iff.mp delim
    simp only [argStart, split, tail_cons]
    exact (countArgs_strtok rest).1.symm

end Crinit
