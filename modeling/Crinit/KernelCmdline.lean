import Crinit.EnvExpansion
import Crinit.Handlers
import Crinit.Lib.CText
import Crinit.Lib.QuoteSplit

/-! Settings on the kernel command line: `crinitKernelCmdlineParse`, and the kernel's own
parameters. -/
namespace Crinit

open CText List

inductive CmdlineToken where
  | stop
  | wspc
  | var (key val : List Char)
  | cpy
  deriving DecidableEq, Repr

/-- A value that begins with a quote is not one of `uqcontent`, so that at most one of the two rules
matches. -/
def cmdlineVar (s : List Char) : Option (List Char × List Char × List Char) :=
  if "crinit.".toList.isPrefixOf s then
    match (s.drop 7).takeWhile isKeyChar, (s.drop 7).dropWhile isKeyChar with
    | c :: name, '=' :: '"' :: content =>
      if isKeyStart c then (quoted content).map fun r => (c :: name, r.1, r.2) else none
    | c :: name, '=' :: content =>
      match unquoted true content with
      | ([], _) => none
      | (val, rest) => if isKeyStart c then some (c :: name, val, rest) else none
    | _, _ => none
  else none

/-- `whitespace` and the variables are longer than `all`, which matches any character. -/
def kernelCmdlineLex : List Char → CmdlineToken × List Char
  | [] => (.stop, [])
  | c :: cs =>
    if isBlank c then (.wspc, cs.dropWhile isBlank)
    else
      match cmdlineVar (c :: cs) with
      | some (key, val, rest) => (.var key val, rest)
      | none => (.cpy, cs)

structure SigOpts where
  signatures : Bool := false
  sigKeyDir : Option String := some "/etc/crinit/pk"
  deriving DecidableEq, Repr

/-- The requests for memory behind a token, told apart by the length of the rest. -/
structure CmdlineMem where
  dupOk : Nat → Bool := fun _ => true
  storeOk : Nat → Bool := fun _ => true

def cfgSigKeyDirHandler (storeOk : Bool) (val : String) (opts : SigOpts) : Int × SigOpts :=
  if storeOk then (0, { opts with sigKeyDir := some val })
  else (-1, { opts with sigKeyDir := none })

def cfgSignaturesHandler (val : String) (opts : SigOpts) : Int × SigOpts :=
  match confConvToBool val with
  | some v => (0, { opts with signatures := v })
  | none => (-1, opts)

inductive KCmdlineKey where
  | sigKeyDir
  | signatures
  deriving DecidableEq, Repr

def findKCmdlineKey (key : String) : Option KCmdlineKey :=
  if key = "sigkeydir" then some .sigKeyDir
  else if key = "signatures" then some .signatures
  else none

def KCmdlineKey.cfgHandler (storeOk : Bool) : KCmdlineKey → String → SigOpts → Int × SigOpts
  | .sigKeyDir => cfgSigKeyDirHandler storeOk
  | .signatures => cfgSignaturesHandler

structure CmdlineVar where
  start : List Char
  key : List Char
  val : List Char
  rest : List Char
  deriving DecidableEq, Repr

def CmdlineVar.handlerKey (mem : CmdlineMem) (v : CmdlineVar) : Option KCmdlineKey :=
  if mem.dupOk v.rest.length then findKCmdlineKey (String.ofList v.key) else none

def CmdlineVar.call (mem : CmdlineMem) (v : CmdlineVar) (k : KCmdlineKey) (opts : SigOpts) :
    Int × SigOpts :=
  k.cfgHandler (mem.storeOk v.rest.length) (String.ofList v.val) opts

def CmdlineVar.writes (v : CmdlineVar) : KCmdlineKey → Bool
  | .sigKeyDir => true
  | .signatures => (confConvToBool (String.ofList v.val)).isSome

structure CmdlineRun where
  ret : Int
  opts : SigOpts
  applied : List CmdlineVar
  deriving DecidableEq, Repr

/-- The state TOKEN_INNER is `inner`. A failed `strndup` changes the type of the token, which only
ends the loop if it is CRINIT_TK_END. -/
def cmdlineLoop (mem : CmdlineMem) :
    Nat → Bool → List Char → SigOpts → List CmdlineVar → CmdlineRun
  | 0, _, _, opts, applied => ⟨0, opts, applied⟩
  | turns + 1, inner, s, opts, applied =>
    match kernelCmdlineLex s with
    | (.stop, _) => ⟨0, opts, applied⟩
    | (.cpy, rest) => cmdlineLoop mem turns true rest opts applied
    | (.wspc, rest) => cmdlineLoop mem turns false rest opts applied
    | (.var key val, rest) =>
      if inner then cmdlineLoop mem turns true rest opts applied
      else
        let v : CmdlineVar := ⟨s, key, val, rest⟩
        match v.handlerKey mem with
        | none => cmdlineLoop mem turns true rest opts applied
        | some k =>
          let applied' := if v.writes k then applied ++ [v] else applied
          match v.call mem k opts with
          | (ret, opts') =>
            if ret = -1 then ⟨-1, opts', applied'⟩
            else cmdlineLoop mem turns true rest opts' applied'

def kcmdlineMaxLen : Nat := 4096

def kernelCmdlineParse (mem : CmdlineMem) (file : Option (List Char)) (opts : SigOpts) :
    CmdlineRun :=
  match file.bind (fgets kcmdlineMaxLen) with
  | none => ⟨-1, opts, []⟩
  | some buf =>
    if buf.length ≥ kcmdlineMaxLen - 1 then ⟨-1, opts, []⟩
    else
      let line := if buf.getLast? = some '\n' then buf.dropLast else buf
      cmdlineLoop mem (line.length + 1) false line opts []

/-! ### The parameters of the kernel -/

def kernelSpace (c : Char) : Bool :=
  c = ' ' || (9 ≤ c.toNat && c.toNat ≤ 13) || c.toNat = 160

def isQuote (c : Char) : Bool := c = '"'

/-- The kernel splits its command line at spaces outside of double quotes. -/
def kernelParams (cmdline : List Char) : List (List Char × List Char) :=
  QuoteSplit.split kernelSpace isQuote cmdline

def procCmdline (cmdline : List Char) : Option (List Char) := some (cmdline ++ ['\n'])

def firstLine (cmdline : List Char) : List Char := cmdline.takeWhile (· != '\n')

def otherLines (cmdline : List Char) : List Char := cmdline.dropWhile (· != '\n')

def OwnParameters (mem : CmdlineMem) (cmdline : List Char) (opts : SigOpts) : Prop :=
  ∀ v ∈ (kernelCmdlineParse mem (procCmdline cmdline) opts).applied,
    (v.start ++ otherLines cmdline, v.rest ++ otherLines cmdline) ∈ kernelParams cmdline

/-! ### The variables that the scanner finds -/

def cmdlineVars : Nat → Bool → List Char → List CmdlineVar
  | 0, _, _ => []
  | turns + 1, inner, s =>
    match kernelCmdlineLex s with
    | (.stop, _) => []
    | (.cpy, rest) => cmdlineVars turns true rest
    | (.wspc, rest) => cmdlineVars turns false rest
    | (.var key val, rest) =>
      if inner then cmdlineVars turns true rest
      else ⟨s, key, val, rest⟩ :: cmdlineVars turns true rest

def handleVars (mem : CmdlineMem) : List CmdlineVar → SigOpts → List CmdlineVar → CmdlineRun
  | [], opts, applied => ⟨0, opts, applied⟩
  | v :: vs, opts, applied =>
    match v.handlerKey mem with
    | none => handleVars mem vs opts applied
    | some k =>
      let applied' := if v.writes k then applied ++ [v] else applied
      match v.call mem k opts with
      | (ret, opts') =>
        if ret = -1 then ⟨-1, opts', applied'⟩ else handleVars mem vs opts' applied'

def CmdlineVar.stored (mem : CmdlineMem) (v : CmdlineVar) : Bool :=
  (v.handlerKey mem).any v.writes

def CmdlineVar.refused (mem : CmdlineMem) (v : CmdlineVar) : Bool :=
  (v.handlerKey mem).any fun k => (v.call mem k {}).1 = -1

def TakenUp (mem : CmdlineMem) (vs : List CmdlineVar) (v : CmdlineVar) : Prop :=
  ∃ done later, vs = done ++ v :: later ∧ (∀ d ∈ done, d.refused mem = false) ∧ v.stored mem = true

section Scanning

variable {mem : CmdlineMem} {turns : Nat} {inner : Bool} {s rest : List Char}
  {key val : List Char} {v : CmdlineVar}

theorem cmdlineLoop_eq (mem : CmdlineMem) (turns : Nat) (inner : Bool) (s : List Char)
    (opts : SigOpts) (applied : List CmdlineVar) : cmdlineLoop mem turns inner s opts applied =
      handleVars mem (cmdlineVars turns inner s) opts applied := by
  induction turns generalizing inner s opts applied with
  | zero => rfl
  | succ turns ih =>
    unfold cmdlineLoop cmdlineVars
    cases kernelCmdlineLex s with
    | mk token rest =>
    cases token with
    | stop => rfl
    | cpy => exact ih true rest opts applied
    | wspc => exact ih false rest opts applied
    | var key val =>
      cases inner with
      | true => exact ih true rest opts applied
      | false =>
        simp only [handleVars, ih, Bool.false_eq_true, if_false]

theorem call_ret (v : CmdlineVar) (k : KCmdlineKey) (opts : SigOpts) :
    (v.call mem k opts).1 = (v.call mem k {}).1 := by
  cases k with
  | sigKeyDir =>
    unfold CmdlineVar.call KCmdlineKey.cfgHandler cfgSigKeyDirHandler
    dsimp only
    split_ifs
    · rfl
    · rfl
  | signatures =>
    unfold CmdlineVar.call KCmdlineKey.cfgHandler cfgSignaturesHandler
    dsimp only
    cases confConvToBool (String.ofList v.val) with
    | none => rfl
    | some b => rfl

theorem takenUp_cons (x : CmdlineVar) (vs : List CmdlineVar) : TakenUp mem (x :: vs) v ↔
    (v = x ∧ x.stored mem = true) ∨ (x.refused mem = false ∧ TakenUp mem vs v) := by
  constructor
  · rintro ⟨done, later, parts, before, stored⟩
    cases done with
    | nil =>
      cases parts
      exact .inl ⟨rfl, stored⟩
    | cons d done =>
      cases parts
      rw [forall_mem_cons] at before
      exact .inr ⟨before.1, done, later, rfl, before.2, stored⟩
  · rintro (⟨rfl, stored⟩ | ⟨goes, done, later, rfl, before, stored⟩)
    · exact ⟨[], vs, rfl, forall_mem_nil _, stored⟩
    · exact ⟨x :: done, later, rfl, List.forall_mem_cons.2 ⟨goes, before⟩, stored⟩

/-- The variables that are taken up, in turn. -/
def takenVars (mem : CmdlineMem) : List CmdlineVar → List CmdlineVar
  | [] => []
  | v :: vs => (if v.stored mem then [v] else []) ++ if v.refused mem then [] else takenVars mem vs

theorem takenVars_sublist (mem : CmdlineMem) (vs : List CmdlineVar) : takenVars mem vs <+ vs := by
  induction vs with
  | nil => exact .slnil
  | cons x vs ih =>
    unfold takenVars
    change _ <+ [x] ++ vs
    refine Sublist.append ?_ ?_
    · split_ifs <;> simp
    · split_ifs
      · exact nil_sublist vs
      · exact ih

theorem mem_takenVars {vs : List CmdlineVar} : v ∈ takenVars mem vs ↔ TakenUp mem vs v := by
  induction vs with
  | nil =>
    refine iff_of_false not_mem_nil ?_
    rintro ⟨done, later, parts, -⟩
    exact absurd parts.symm (by simp)
  | cons x vs ih =>
    rw [takenVars, takenUp_cons, ← ih]
    cases x.stored mem <;> cases x.refused mem <;> simp

def CmdlineVar.setOpts (mem : CmdlineMem) (opts : SigOpts) (v : CmdlineVar) : SigOpts :=
  match v.handlerKey mem with
  | none => opts
  | some k => (v.call mem k opts).2

theorem call_unwritten {k : KCmdlineKey} (unwritten : v.writes k = false) (opts : SigOpts) :
    (v.call mem k opts).2 = opts := by
  cases k with
  | sigKeyDir => cases unwritten
  | signatures =>
    have none : confConvToBool (String.ofList v.val) = none := by
      simpa [CmdlineVar.writes] using unwritten
    simp [CmdlineVar.call, KCmdlineKey.cfgHandler, cfgSignaturesHandler, none]

/-- The variables are taken in turn up to the first whose handler fails. -/
theorem handleVars_eq (mem : CmdlineMem) (vs : List CmdlineVar) (opts : SigOpts)
    (applied : List CmdlineVar) : handleVars mem vs opts applied =
      ⟨if vs.any (CmdlineVar.refused mem) then -1 else 0,
        (takenVars mem vs).foldl (CmdlineVar.setOpts mem) opts, applied ++ takenVars mem vs⟩ := by
  induction vs generalizing opts applied with
  | nil => simp [handleVars, takenVars]
  | cons x vs ih =>
    unfold handleVars takenVars
    cases key : x.handlerKey mem with
    | none => simp [ih, CmdlineVar.stored, CmdlineVar.refused, key]
    | some k =>
      have stored : x.stored mem = x.writes k := by simp [CmdlineVar.stored, key]
      have refused : x.refused mem = decide ((x.call mem k opts).1 = -1) := by
        simp [CmdlineVar.refused, key, call_ret x k opts]
      have set : x.setOpts mem opts = (x.call mem k opts).2 := by rw [CmdlineVar.setOpts, key]
      simp only [any_cons, refused, stored, ih]
      by_cases failed : (x.call mem k opts).1 = -1 <;> cases writes : x.writes k
      · simp [failed, call_unwritten writes]
      · simp [failed, set]
      · simp [failed, call_unwritten writes]
      · simp [failed, set]

theorem quoted_rest {cs : List Char} {r : List Char × List Char} (found : quoted cs = some r) :
    ∃ used, cs = used ++ r.2 := by
  fun_induction quoted cs generalizing r with
  | case1 => cases found
  | case2 => cases found; exact ⟨['"'], rfl⟩
  | case3 => cases found
  | case4 => cases found; exact ⟨['"'], rfl⟩
  | case5 => cases found
  | case6 e cs text quote ih =>
    obtain ⟨r', found', rfl⟩ := Option.map_eq_some_iff.1 found
    obtain ⟨used, rfl⟩ := ih found'
    exact ⟨_ :: _ :: used, rfl⟩
  | case7 => cases found
  | case8 c e cs quote escape ends ih =>
    obtain ⟨r', found', rfl⟩ := Option.map_eq_some_iff.1 found
    obtain ⟨used, parts⟩ := ih found'
    exact ⟨c :: used, congrArg (c :: ·) parts⟩

theorem cmdlineVar_append (found : cmdlineVar s = some (key, val, rest)) :
    ∃ raw, s = 'c' :: (raw ++ rest) := by
  unfold cmdlineVar at found
  split_ifs at found with fixed
  obtain ⟨behind, rfl⟩ := List.isPrefixOf_iff_prefix.1 fixed
  have letters : "crinit.".toList = ['c', 'r', 'i', 'n', 'i', 't', '.'] := by decide
  have left : ("crinit.".toList ++ behind).drop 7 = behind := by rw [letters]; rfl
  rw [left] at found
  have suffix : ∃ used, behind = used ++ rest := by
    have parts := @takeWhile_append_dropWhile _ isKeyChar behind
    split at found
    · rename_i c name content taken dropped
      split_ifs at found
      obtain ⟨r, read, same⟩ := Option.map_eq_some_iff.1 found
      cases same
      obtain ⟨used, rfl⟩ := quoted_rest read
      exact ⟨c :: name ++ '=' :: '"' :: used, by rw [← parts, taken, dropped]; simp⟩
    · rename_i c name content other taken dropped
      split at found
      · cases found
      · rename_i val' rest' read
        split_ifs at found
        cases found
        have whole := @unquoted_append true content
        rw [read] at whole
        exact ⟨c :: name ++ '=' :: val, by rw [← parts, taken, dropped, ← whole]; simp⟩
    · cases found
  obtain ⟨used, rfl⟩ := suffix
  exact ⟨['r', 'i', 'n', 'i', 't', '.'] ++ used, by rw [letters]; simp⟩

theorem blanks_last {c : Char} {cs : List Char} (blanks : ∀ d ∈ c :: cs, isBlank d = true) :
    ∃ p d, c :: cs = p ++ [d] ∧ isBlank d = true := by
  obtain none | ⟨p, d, same⟩ := eq_nil_or_concat (c :: cs)
  · cases none
  · rw [concat_eq_append] at same
    refine ⟨p, d, same, blanks d ?_⟩
    rw [same]
    exact mem_append_right p mem_cons_self

def TokenText : CmdlineToken → List Char → Prop
  | .wspc, used => ∃ p d, used = p ++ [d] ∧ isBlank d = true
  | .var _ _, used => ∃ raw, used = 'c' :: raw
  | _, _ => True

theorem cmdlineLex_append {token : CmdlineToken} (lexed : kernelCmdlineLex s = (token, rest)) :
    ∃ used, s = used ++ rest ∧ TokenText token used := by
  cases s with
  | nil =>
    cases lexed
    exact ⟨[], rfl, trivial⟩
  | cons c cs =>
    rw [kernelCmdlineLex] at lexed
    split_ifs at lexed with blank
    · cases lexed
      refine ⟨c :: cs.takeWhile isBlank, ?_, blanks_last ?_⟩
      · rw [cons_append, takeWhile_append_dropWhile]
      · exact List.forall_mem_cons.2 ⟨blank, fun d mem => mem_takeWhile_imp mem⟩
    · split at lexed
      · rename_i found
        cases lexed
        obtain ⟨raw, parts⟩ := cmdlineVar_append found
        exact ⟨'c' :: raw, parts, raw, rfl⟩
      · cases lexed
        exact ⟨[c], rfl, trivial⟩

def Opens (inner : Bool) (before : List Char) : Prop :=
  (before = [] ∧ inner = false) ∨ ∃ p d, before = p ++ [d] ∧ isBlank d = true

theorem opens_append {before : List Char} (used : List Char) (opens : Opens true before) :
    Opens inner (used ++ before) := by
  rcases opens with ⟨-, other⟩ | ⟨p, d, rfl, blank⟩
  · cases other
  · exact .inr ⟨used ++ p, d, by rw [append_assoc], blank⟩

theorem opens_blanks {before used : List Char} (opens : Opens false before)
    (blanks : ∃ p d, used = p ++ [d] ∧ isBlank d = true) : Opens inner (used ++ before) := by
  rcases opens with ⟨rfl, -⟩ | ⟨p, d, rfl, blank⟩
  · rw [append_nil]
    exact .inr blanks
  · exact .inr ⟨used ++ p, d, by rw [append_assoc], blank⟩

theorem mem_cmdlineVars (found : v ∈ cmdlineVars turns inner s) :
    ∃ before raw, s = before ++ v.start ∧ v.start = 'c' :: (raw ++ v.rest) ∧
      Opens inner before := by
  induction turns generalizing inner s with
  | zero => cases found
  | succ turns ih =>
    unfold cmdlineVars at found
    cases lexed : kernelCmdlineLex s with
    | mk token rest =>
    rw [lexed] at found
    -- behind the token
    have later {inner'} (found : v ∈ cmdlineVars turns inner' rest) {used : List Char}
        (parts : s = used ++ rest)
        (goes : ∀ before, Opens inner' before → Opens inner (used ++ before)) :
        ∃ before raw, s = before ++ v.start ∧ v.start = 'c' :: (raw ++ v.rest) ∧
          Opens inner before := by
      obtain ⟨before, raw, same, shape, opens⟩ := ih found
      exact ⟨used ++ before, raw, by rw [parts, same, append_assoc], shape, goes _ opens⟩
    obtain ⟨used, parts, text⟩ := cmdlineLex_append lexed
    cases token with
    | stop => cases found
    | cpy => exact later found parts fun _ => opens_append used
    | wspc => exact later found parts fun _ opens => opens_blanks opens text
    | var key' val' =>
      cases inner with
      | true => exact later found parts fun _ => opens_append used
      | false =>
        rcases List.mem_cons.1 found with rfl | found
        · obtain ⟨raw, rfl⟩ := text
          exact ⟨[], raw, rfl, parts, .inl ⟨rfl, rfl⟩⟩
        · exact later found parts fun _ => opens_append used

end Scanning

/-! ### Settings that are not parameters -/

def openQuotes (s : List Char) : Bool := QuoteSplit.behind isQuote false s

structure StandsAlone (before raw after : List Char) : Prop where
  outside : openQuotes before = false
  whole : ∀ p c r, raw = p ++ c :: r → kernelSpace c = true → openQuotes p = true
  ends : after = [] ∨ openQuotes raw = false ∧ ∃ c cs, after = c :: cs ∧ kernelSpace c = true

def settingsOf (cmdline : List Char) : List CmdlineVar :=
  cmdlineVars ((firstLine cmdline).length + 1) false (firstLine cmdline)

theorem blank_space {c : Char} (blank : isBlank c = true) : kernelSpace c = true := by
  rcases isBlank_iff.1 blank with rfl | rfl
  · decide
  · decide

theorem space_plain (c : Char) (space : kernelSpace c = true) : isQuote c = false := by
  rw [isQuote, decide_eq_false_iff_not]
  rintro rfl
  exact absurd space (by decide)

theorem proc_line (cmdline : List Char) :
    (cmdline ++ ['\n']).takeWhile (· != '\n') = firstLine cmdline ∧
      ((cmdline ++ ['\n']).dropWhile (· != '\n')).take 1 = ['\n'] := by
  induction cmdline with
  | nil => decide
  | cons c cs ih =>
    by_cases ends : c = '\n'
    · subst ends
      exact ⟨rfl, rfl⟩
    · have goes : (c != '\n') = true := bne_iff_ne.2 ends
      simp only [firstLine, cons_append, takeWhile_cons, dropWhile_cons, goes, if_true]
      exact ⟨congrArg (c :: ·) ih.1, ih.2⟩

theorem fgets_proc (cmdline : List Char) : fgets kcmdlineMaxLen (cmdline ++ ['\n']) =
    some ((firstLine cmdline ++ ['\n']).take (kcmdlineMaxLen - 1)) := by
  obtain ⟨line, ends⟩ := proc_line cmdline
  rw [fgets, if_neg (by simp), line, ends]

theorem firstLine_short {cmdline : List Char} (short : cmdline.length + 1 < kcmdlineMaxLen - 1) :
    (firstLine cmdline).length + 1 < kcmdlineMaxLen - 1 := by
  have := (takeWhile_sublist (· != '\n') (l := cmdline)).length_le
  rw [firstLine]
  omega

theorem parse_line {mem : CmdlineMem} {cmdline : List Char} {opts : SigOpts}
    (short : (firstLine cmdline).length + 1 < kcmdlineMaxLen - 1) :
    kernelCmdlineParse mem (procCmdline cmdline) opts =
      handleVars mem (settingsOf cmdline) opts [] := by
  have shorter : (firstLine cmdline ++ ['\n']).length < kcmdlineMaxLen - 1 := by simpa using short
  rw [kernelCmdlineParse, procCmdline, Option.bind_some, fgets_proc,
    take_of_length_le (Nat.le_of_lt shorter)]
  dsimp only
  rw [if_neg (Nat.not_le.2 shorter), if_pos getLast?_concat, dropLast_concat]
  exact cmdlineLoop_eq ..

theorem parse_long {mem : CmdlineMem} {cmdline : List Char} {opts : SigOpts}
    (long : ¬ (firstLine cmdline).length + 1 < kcmdlineMaxLen - 1) :
    kernelCmdlineParse mem (procCmdline cmdline) opts = ⟨-1, opts, []⟩ := by
  have full : ((firstLine cmdline ++ ['\n']).take (kcmdlineMaxLen - 1)).length ≥
      kcmdlineMaxLen - 1 := by
    rw [length_take, length_append, length_singleton]
    omega
  rw [kernelCmdlineParse, procCmdline, Option.bind_some, fgets_proc]
  exact if_pos full

/-- The options at the end are those that the variables taken up have set, in their order. A line
for which there is no room sets none. -/
theorem parse_opts (mem : CmdlineMem) (cmdline : List Char) (opts : SigOpts) :
    if (firstLine cmdline).length + 1 < kcmdlineMaxLen - 1 then
      (∃ taken, taken <+ settingsOf cmdline ∧
        (∀ v, v ∈ taken ↔ TakenUp mem (settingsOf cmdline) v) ∧
        (kernelCmdlineParse mem (procCmdline cmdline) opts).opts =
          taken.foldl (CmdlineVar.setOpts mem) opts) ∧
      (kernelCmdlineParse mem (procCmdline cmdline) opts).ret =
        if (settingsOf cmdline).any (CmdlineVar.refused mem) then -1 else 0
    else kernelCmdlineParse mem (procCmdline cmdline) opts = ⟨-1, opts, []⟩ := by
  by_cases short : (firstLine cmdline).length + 1 < kcmdlineMaxLen - 1
  · rw [if_pos short, parse_line short, handleVars_eq]
    exact ⟨⟨_, takenVars_sublist .., fun v => mem_takenVars, rfl⟩, rfl⟩
  · rw [if_neg short]
    exact parse_long short

/-- A variable that the scanner finds is a parameter if it stands alone. -/
theorem param_iff {cmdline before raw : List Char} {v : CmdlineVar}
    (found : v ∈ settingsOf cmdline) (line : firstLine cmdline = before ++ v.start)
    (shape : v.start = raw ++ v.rest) :
    (v.start ++ otherLines cmdline, v.rest ++ otherLines cmdline) ∈ kernelParams cmdline ↔
      StandsAlone before raw (v.rest ++ otherLines cmdline) := by
  obtain ⟨before', raw', line', shape', opens⟩ := mem_cmdlineVars found
  obtain rfl := append_cancel_right (line.symm.trans line')
  obtain rfl : raw = 'c' :: raw' := append_cancel_right (shape.symm.trans shape')
  have whole : firstLine cmdline ++ otherLines cmdline = cmdline :=
    takeWhile_append_dropWhile
  generalize otherLines cmdline = tail at whole ⊢
  have opens' : before = [] ∨ ∃ p d, before = p ++ [d] ∧ kernelSpace d = true := by
    rcases opens with ⟨rfl, -⟩ | ⟨p, d, rfl, blank⟩
    · exact .inl rfl
    · exact .inr ⟨p, d, rfl, blank_space blank⟩
  have text : v.start ++ tail = 'c' :: (raw' ++ (v.rest ++ tail)) := by
    rw [shape', cons_append, append_assoc]
  rw [kernelParams, ← whole, line, append_assoc, text,
    QuoteSplit.mem_split_iff space_plain (by decide) opens', ← cons_append, QuoteSplit.argEnd_iff]
  exact ⟨fun ⟨outside, whole, ends⟩ => ⟨outside, whole, ends⟩,
    fun alone => ⟨alone.outside, alone.whole, alone.ends⟩⟩

/-- The part of the line behind `before` and ahead of `after` is a setting that is taken up. -/
def SettingAt (mem : CmdlineMem) (cmdline before raw after : List Char) : Prop :=
  firstLine cmdline = before ++ (raw ++ after) ∧
    ∃ key val, TakenUp mem (settingsOf cmdline) ⟨raw ++ after, key, val, after⟩

theorem own_parameters_iff (mem : CmdlineMem) (cmdline : List Char) (opts : SigOpts)
    (short : cmdline.length + 1 < kcmdlineMaxLen - 1) : OwnParameters mem cmdline opts ↔
      ∀ before raw after, SettingAt mem cmdline before raw after →
        StandsAlone before raw (after ++ otherLines cmdline) := by
  have found {v : CmdlineVar} (taken : TakenUp mem (settingsOf cmdline) v) :
      v ∈ settingsOf cmdline := (takenVars_sublist mem _).mem (mem_takenVars.2 taken)
  unfold OwnParameters
  rw [parse_line (firstLine_short short), handleVars_eq, nil_append]
  constructor
  · rintro own before raw after ⟨line, key, val, taken⟩
    exact (param_iff (found taken) line rfl).1 (own _ (mem_takenVars.2 taken))
  · intro alone v member
    have taken := mem_takenVars.1 member
    obtain ⟨before, raw, line, shape, -⟩ := mem_cmdlineVars (found taken)
    refine (@param_iff _ before ('c' :: raw) v (found taken) line shape).2 (alone _ _ _ ⟨?_, v.key,
      v.val, ?_⟩)
    · rw [line, shape]
      rfl
    · rwa [cons_append, ← shape]

def quietSigned : List Char := "quiet crinit.signatures=yes".toList

def signedVar : CmdlineVar :=
  ⟨"crinit.signatures=yes".toList, "signatures".toList, "yes".toList, []⟩

theorem quiet_signed : quietSigned.length + 1 < kcmdlineMaxLen - 1 ∧
    OwnParameters {} quietSigned {} := by
  have short : quietSigned.length + 1 < kcmdlineMaxLen - 1 := by decide
  refine ⟨short, (own_parameters_iff {} quietSigned {} short).2 ?_⟩
  have settings : settingsOf quietSigned = [signedVar] := by decide
  rintro before raw after ⟨line, key, val, taken⟩
  have found := (takenVars_sublist _ _).mem (mem_takenVars.2 taken)
  rw [settings, mem_singleton] at found
  obtain rfl : after = [] := congrArg CmdlineVar.rest found
  have start : raw ++ [] = "crinit.signatures=yes".toList := congrArg CmdlineVar.start found
  obtain rfl := (append_nil raw).symm.trans start
  have parts : firstLine quietSigned = "quiet ".toList ++ ("crinit.signatures=yes".toList ++ []) :=
    by decide
  obtain rfl := append_cancel_right (line.symm.trans parts)
  refine ⟨by decide, ?_, .inl (by decide)⟩
  intro p c r shape space
  have mem : c ∈ "crinit.signatures=yes".toList := by
    rw [shape]
    exact mem_append_right p mem_cons_self
  have none : ("crinit.signatures=yes".toList.all fun c => !kernelSpace c) = true := by decide
  have plain := List.all_eq_true.1 none c mem
  rw [space] at plain
  cases plain

def hiddenOff : List Char := "crinit.signatures=yes title=\"a crinit.signatures=no\"".toList

def hiddenVar : CmdlineVar :=
  ⟨"crinit.signatures=no\"".toList, "signatures".toList, "no".toList, ['"']⟩

/-- The end of another parameter switches the signatures off. -/
theorem hidden_off : ¬ OwnParameters {} hiddenOff {} := by
  intro own
  have applied : hiddenVar ∈ (kernelCmdlineParse {} (procCmdline hiddenOff) {}).applied := by
    decide
  have param := own hiddenVar applied
  revert param
  decide

end Crinit
