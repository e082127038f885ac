import Crinit.Argv
import Crinit.Commands
import Crinit.ConfInteger

/-! The values of IO_REDIRECT: `crinitConfConvToIoRedir` of `confconv.c`. -/
namespace Crinit

open Numeral

def oRdonly : BitVec 32 := 0x0#32
def oWronly : BitVec 32 := 0x1#32
def oCreat : BitVec 32 := 0x40#32
def oTrunc : BitVec 32 := 0x200#32
def oAppend : BitVec 32 := 0x400#32

structure IoRedir where
  newFd : Int := -1
  oldFd : Int := -1
  path : Option String := none
  oflags : BitVec 32 := oTrunc ||| oCreat
  mode : Int := 0o644
  fifo : Bool := false
  deriving DecidableEq, Repr

def stdFd (name : String) : Option Int :=
  if name = "STDOUT" then some 1
  else if name = "STDERR" then some 2
  else if name = "STDIN" then some 0
  else none

def IoRedir.setFlags (ior : IoRedir) (param : String) : Option IoRedir :=
  if param = "TRUNCATE" then some { ior with oflags := oTrunc ||| oCreat }
  else if param = "APPEND" then some { ior with oflags := oAppend ||| oCreat }
  else if param = "PIPE" then some { ior with oflags := 0x0#32, fifo := true }
  else none

/-- The fourth parameter. `mode_t` is an `unsigned int`, and `errno` is what it was before the
call unless the conversion sets it to ERANGE. -/
def modeParam (errno : Int) (param : String) : Option Int :=
  let r := strtoGenericInteger .uint 8 param.toList
  let mode := IntType.uint.assign r.value
  let errno := if r.erange then 34 else errno
  if mode = 0 ∧ (errno ≠ 0 ∨ r.rest = param.toList) then none
  else if mode > 0o777 then none
  else some mode

/-- The parameters behind the path. Those behind the fourth one are not looked at. -/
def IoRedir.setParams (ior : IoRedir) (errno : Int) : List String → Option IoRedir
  | [] => some ior
  | [param] => ior.setFlags param
  | param :: param' :: _ => (ior.setFlags param).bind fun ior =>
    (modeParam errno param').map fun mode => { ior with mode := mode }

def IoRedir.setAccess (ior : IoRedir) : IoRedir :=
  if ior.newFd = 0 then { ior with oflags := oRdonly }
  else { ior with oflags := ior.oflags ||| oWronly }

def confConvToIoRedir (errno : Int) (confVal : String) : Option IoRedir := do
  match ← confConvToStrArr confVal true with
  | source :: target :: params =>
    let newFd ← stdFd source
    let ior : IoRedir := { newFd := newFd }
    match stdFd target with
    | some oldFd => return { ior with oldFd := oldFd }
    | none =>
      if isAbsPath target then
        let ior ← { ior with path := some target : IoRedir }.setParams errno params
        return ior.setAccess
      else none
  | _ => none

inductive FileMode where
  | truncate | append | pipe
  deriving DecidableEq, Repr

def fileMode (word : String) : Option FileMode :=
  if word = "TRUNCATE" then some .truncate
  else if word = "APPEND" then some .append
  else if word = "PIPE" then some .pipe
  else none

def FileMode.oflags : FileMode → BitVec 32
  | .truncate => oTrunc ||| oCreat
  | .append => oAppend ||| oCreat
  | .pipe => 0x0#32

def octalMode (word : String) : Option Nat :=
  if word.toList ≠ [] ∧ word.toList.all (isDigit 8) = true ∧ value 8 word.toList ≤ 0o777 then
    some (value 8 word.toList)
  else none

/-- `[ APPEND | TRUNCATE | PIPE ] [ OCTAL_MODE ]`. -/
def documentedParams : List String → Option (FileMode × Nat)
  | [] => some (.truncate, 0o644)
  | [word] =>
    match fileMode word with
    | some keyword => some (keyword, 0o644)
    | none => (octalMode word).map fun mode => (.truncate, mode)
  | [word, word'] => (fileMode word).bind fun keyword => (octalMode word').map fun mode =>
    (keyword, mode)
  | _ => none

def fileRedirect (newFd : Int) (path : String) (keyword : FileMode) (mode : Int) : IoRedir where
  newFd := newFd
  path := some path
  oflags := if newFd = 0 then oRdonly else keyword.oflags ||| oWronly
  mode := mode
  fifo := keyword = .pipe

def documentedRedirect (confVal : String) : Option IoRedir := do
  match ← confConvToStrArr confVal true with
  | stream :: path :: words =>
    let newFd ← stdFd stream
    let (keyword, mode) ← documentedParams words
    return fileRedirect newFd path keyword mode
  | _ => none

/-- The conversion refuses the word whatever `errno` was: there is no number at its start, or
what is left of the number in 32 bits is too large. -/
def ModeRefused (word : String) : Prop :=
  ∀ r, read 8 word.toList = some r → 0x10000000000000000 ≤ r.mag ∨
    0o777 < signed r.neg r.mag % 0x100000000

def ParamsAgree : List String → Prop
  | [] => True
  | [word] => octalMode word = none
  | [word, word'] => fileMode word = none ∨ (∃ mode, octalMode word' = some mode ∧ mode ≠ 0) ∨
    ModeRefused word'
  | word :: word' :: _ :: _ => fileMode word = none ∨ ModeRefused word'

theorem modeParam_read (errno : Int) (word : String) :
    modeParam errno word =
      match read 8 word.toList with
      | none => none
      | some r =>
        if 0x10000000000000000 ≤ r.mag ∨ 0o777 < signed r.neg r.mag % 0x100000000 then none
        else if signed r.neg r.mag % 0x100000000 = 0 ∧ errno ≠ 0 then none
        else some (signed r.neg r.mag % 0x100000000) := by
  cases found : read 8 word.toList with
  | none => simp [modeParam, strtoGenericInteger, strtoUnsigned, found, IntType.assign]
  | some r =>
    have shorter := read_shorter found
    have left : r.rest ≠ word.toList := fun same => by
      rw [same] at shorter
      exact Nat.lt_irrefl _ shorter
    have cut : signed r.neg r.mag % 0x10000000000000000 % 0x100000000 =
        signed r.neg r.mag % 0x100000000 := Int.emod_emod_of_dvd _ (by decide)
    have strto : strtoGenericInteger .uint 8 word.toList =
        if 0x10000000000000000 ≤ r.mag then ⟨0x10000000000000000 - 1, true, r.rest⟩
        else ⟨signed r.neg r.mag % 0x10000000000000000, false, r.rest⟩ := by
      simp only [strtoGenericInteger, strtoUnsigned, found]
      norm_num
    by_cases large : 0x10000000000000000 ≤ r.mag
    · rw [if_pos large] at strto
      simp [modeParam, strto, large, IntType.assign]
    · rw [if_neg large] at strto
      simp only [modeParam, strto, large, IntType.assign, cut, left, false_or, or_false,
        Bool.false_eq_true, if_false]
      split_ifs <;> rfl

theorem modeRefused_iff (word : String) :
    ModeRefused word ↔ ∀ errno, modeParam errno word = none := by
  unfold ModeRefused
  constructor
  · intro refused errno
    rw [modeParam_read]
    cases found : read 8 word.toList with
    | none => rfl
    | some r => exact if_pos (refused r found)
  · intro none r found
    by_contra accepted
    have given := none 0
    simp [modeParam_read, found, accepted] at given

theorem octalMode_read {word : String} {mode : Nat} (octal : octalMode word = some mode) :
    read 8 word.toList = some ⟨false, mode, []⟩ ∧ mode ≤ 0o777 := by
  unfold octalMode at octal
  split_ifs at octal with spelt
  cases octal
  refine ⟨read_of_spells (by decide) ?_, spelt.2.2⟩
  exact ⟨[], [], [], _, rfl, List.forall_mem_nil _, .bare, .bare, spelt.1,
    List.all_eq_true.mp spelt.2.1, rfl⟩

theorem modeParam_octal {word : String} {mode : Nat} (octal : octalMode word = some mode)
    (errno : Int) :
    modeParam errno word = if mode = 0 ∧ errno ≠ 0 then none else some (mode : Int) := by
  obtain ⟨found, small⟩ := octalMode_read octal
  have same : (mode : Int) % 0x100000000 = mode := by omega
  have within : ¬ (0x10000000000000000 ≤ mode ∨ 0o777 < (mode : Int)) := by omega
  simp only [modeParam_read, found, signed_false, same, within, if_false, Int.natCast_eq_zero]

theorem modeParam_iff (word : String) :
    (∀ errno, modeParam errno word = (octalMode word).map Int.ofNat) ↔
      (∃ mode, octalMode word = some mode ∧ mode ≠ 0) ∨ ModeRefused word := by
  rw [modeRefused_iff]
  cases octal : octalMode word with
  | none => simp
  | some mode =>
    simp only [modeParam_octal octal, Option.map_some]
    constructor
    · intro same
      refine .inl ⟨mode, rfl, fun zero => ?_⟩
      have given := same 1
      simp [zero] at given
    · rintro (⟨_, ⟨⟩, positive⟩ | none)
      · simp [positive]
      · have given := none 0
        simp at given

theorem setFlags_keyword (ior : IoRedir) (plain : ior.fifo = false) (word : String) :
    ior.setFlags word = (fileMode word).map fun keyword =>
      { ior with oflags := keyword.oflags, fifo := keyword = .pipe } := by
  unfold IoRedir.setFlags fileMode
  split_ifs <;> simp [FileMode.oflags, plain]

section Documented

variable {newFd : Int} {path : String}

theorem setParams_none (errno : Int) :
    (({ newFd := newFd, path := some path : IoRedir }.setParams errno []).map IoRedir.setAccess) =
      some (fileRedirect newFd path .truncate 0o644) := by
  simp only [IoRedir.setParams, Option.map_some, IoRedir.setAccess, fileRedirect]
  split_ifs <;> rfl

theorem setParams_one (errno : Int) (word : String) :
    (({ newFd := newFd, path := some path : IoRedir }.setParams errno [word]).map
        IoRedir.setAccess) =
      (fileMode word).map fun keyword => fileRedirect newFd path keyword 0o644 := by
  simp only [IoRedir.setParams, setFlags_keyword, Option.map_map]
  refine Option.map_congr fun keyword _ => ?_
  simp only [Function.comp, IoRedir.setAccess, fileRedirect]
  split_ifs <;> rfl

theorem setParams_two (errno : Int) (word word' : String) (further : List String) :
    (({ newFd := newFd, path := some path : IoRedir }.setParams errno
        (word :: word' :: further)).map IoRedir.setAccess) =
      (fileMode word).bind fun keyword => (modeParam errno word').map fun mode =>
        fileRedirect newFd path keyword mode := by
  simp only [IoRedir.setParams, setFlags_keyword]
  cases fileMode word with
  | none => rfl
  | some keyword =>
    simp only [Option.map_some, Option.bind_some, Option.map_map]
    refine Option.map_congr fun mode _ => ?_
    simp only [Function.comp, IoRedir.setAccess, fileRedirect]
    split_ifs <;> rfl

theorem same_mode (keyword : FileMode) (mode : Option Int) (octal : Option Nat) :
    mode.map (fileRedirect newFd path keyword) =
        octal.map (fun n : Nat => fileRedirect newFd path keyword (n : Int)) ↔
      mode = octal.map Int.ofNat := by
  cases mode <;> cases octal <;> simp [fileRedirect]

theorem keyword_not_octal {word : String} {keyword : FileMode}
    (found : fileMode word = some keyword) : octalMode word = none := by
  unfold fileMode at found
  split_ifs at found with truncate append pipe
  · rw [truncate]
    decide
  · rw [append]
    decide
  · rw [pipe]
    decide

theorem setParams_iff (newFd : Int) (path : String) (words : List String) :
    (∀ errno, ({ newFd := newFd, path := some path : IoRedir }.setParams errno words).map
        IoRedir.setAccess =
      (documentedParams words).map fun p => fileRedirect newFd path p.1 p.2) ↔
    ParamsAgree words := by
  match words with
  | [] => simp [setParams_none, documentedParams, ParamsAgree]
  | [word] =>
    simp only [setParams_one, documentedParams, ParamsAgree, forall_const]
    cases keyword : fileMode word with
    | none => cases octalMode word <;> simp
    | some keyword' => simp [keyword_not_octal keyword]
  | [word, word'] =>
    simp only [setParams_two, documentedParams, ParamsAgree]
    cases fileMode word with
    | none => simp
    | some keyword =>
      simp only [Option.bind_some, Option.map_map, Function.comp_def]
      refine (forall_congr' fun errno => same_mode keyword _ _).trans ?_
      rw [modeParam_iff]
      simp
  | word :: word' :: _ :: _ =>
    simp only [setParams_two, documentedParams, ParamsAgree, modeRefused_iff]
    cases fileMode word <;> simp

end Documented

theorem absolute_not_stream {path : String} (absolute : isAbsPath path = true) :
    stdFd path = none := by
  unfold stdFd
  split_ifs with out err inp
  · rw [out] at absolute
    exact absurd absolute (by decide)
  · rw [err] at absolute
    exact absurd absolute (by decide)
  · rw [inp] at absolute
    exact absurd absolute (by decide)
  · rfl

def FileTarget (confVal : String) : Prop :=
  ∀ tokens, confConvToStrArr confVal true = some tokens →
    ∃ path, tokens[1]? = some path ∧ isAbsPath path = true

/-- A redirection to a file is read as documented exactly if the stream is none that there is, or
no octal mode comes without a keyword, no fifth word behind a mode that is taken, and a mode that
is taken is an octal numeral other than zero and at most 0777. -/
theorem redirect_documented_iff (confVal : String) (file : FileTarget confVal) :
    (∀ errno, confConvToIoRedir errno confVal = documentedRedirect confVal) ↔
      ∀ stream path words, confConvToStrArr confVal true = some (stream :: path :: words) →
        stdFd stream = none ∨ ParamsAgree words := by
  unfold confConvToIoRedir documentedRedirect
  cases tokenised : confConvToStrArr confVal true with
  | none => simp
  | some tokens =>
    obtain ⟨path, second, absolute⟩ := file tokens tokenised
    match tokens, second with
    | stream :: target :: words, second =>
      cases second
      simp only [Option.bind_eq_bind, Option.bind_some, Option.some.injEq, List.cons.injEq]
      cases known : stdFd stream with
      | none => simp +contextual [known]
      | some newFd =>
        have agree := setParams_iff newFd path words
        simp only [Option.bind_some, absolute_not_stream absolute, absolute, if_true]
        simp only [Option.map_eq_bind] at agree
        refine agree.trans ⟨?_, fun words' => ?_⟩
        · rintro taken _ _ _ ⟨rfl, rfl, rfl⟩
          exact .inr taken
        · have taken := words' stream path words ⟨rfl, rfl, rfl⟩
          rw [known] at taken
          exact taken.resolve_left (Option.some_ne_none newFd)

def appendedLog : String := "STDOUT \"/var/log/net-dhcp.log\" APPEND 0644"

theorem appended_tokens : confConvToStrArr appendedLog true =
    some ["STDOUT", "/var/log/net-dhcp.log", "APPEND", "0644"] := by decide

theorem appended_documented : FileTarget appendedLog ∧
    (∀ errno, confConvToIoRedir errno appendedLog = documentedRedirect appendedLog) ∧
    documentedRedirect appendedLog =
      some (fileRedirect 1 "/var/log/net-dhcp.log" .append 0o644) := by
  have file : FileTarget appendedLog := by
    intro tokens tokenised
    rw [appended_tokens] at tokenised
    cases tokenised
    exact ⟨_, rfl, by decide⟩
  refine ⟨file, (redirect_documented_iff appendedLog file).mpr ?_, by decide⟩
  intro stream path words tokenised
  rw [appended_tokens] at tokenised
  cases tokenised
  exact .inr (.inr (.inl ⟨0o644, by decide, by decide⟩))

/-- A mode with further text, a fifth word and a mode that does not fit in 32 bits are taken, and a
mode without a keyword is refused. -/
theorem redirect_misread :
    confConvToIoRedir 0 "STDOUT /x APPEND 6x" = some (fileRedirect 1 "/x" .append 6) ∧
    documentedRedirect "STDOUT /x APPEND 6x" = none ∧
    confConvToIoRedir 0 "STDOUT /x APPEND 6 x" = some (fileRedirect 1 "/x" .append 6) ∧
    documentedRedirect "STDOUT /x APPEND 6 x" = none ∧
    confConvToIoRedir 0 "STDOUT /x APPEND 40000000006" = some (fileRedirect 1 "/x" .append 6) ∧
    documentedRedirect "STDOUT /x APPEND 40000000006" = none ∧
    confConvToIoRedir 2 "STDOUT /x APPEND 0" = none ∧
    confConvToIoRedir 0 "STDOUT /x APPEND 0" = some (fileRedirect 1 "/x" .append 0) ∧
    confConvToIoRedir 0 "STDOUT /x 6" = none ∧
    documentedRedirect "STDOUT /x 6" = some (fileRedirect 1 "/x" .truncate 6) := by
  decide

end Crinit
