import Crinit.Handlers
import Crinit.Lib.CText
import Crinit.Lib.Getopt

/-! The command line of `crinit-launch`: how crinit builds it and how the launcher reads it. -/
namespace Crinit

open CText Getopt List Numeral

inductive ArgPtr
  | given (text : Text)
  | buf (off : Nat)

def ArgPtr.text (mem : List Char) : ArgPtr → List Char
  | .given text => text.chars
  | .buf off => textAt mem off

structure TaskCmd where
  name : Text
  args : List Text

structure LaunchCgroup where
  name : Option Text
  parentName : Option Text

structure LaunchTask where
  creds : Credentials
  capabilitiesSet : BitVec 64
  capabilitiesClear : BitVec 64
  cgroup : Option LaunchCgroup

def printId (id : Id) : List Char := printSigned id.toInt

def printMask (mask : BitVec 64) : List Char := Nat.toDigits 16 mask.toNat

def supText (supGroups : List Id) : List Char := supGroups.flatMap fun gid => ',' :: printId gid

def calculateVariableGroupParamLength (supGroups : List Id) : Nat :=
  if supGroups = [] then 0 else (supGroups.map fun gid => (',' :: printId gid).length).sum + 1

def supGroupsLoop : List Id → List Char → Nat → Nat → Option (List Char)
  | [], buf, _, _ => some buf
  | gid :: supGroups, buf, p, bytesLeft => do
    let buf ← print buf p bytesLeft (',' :: printId gid)
    supGroupsLoop supGroups buf (p + (',' :: printId gid).length)
      (bytesLeft - (',' :: printId gid).length)

def createSupGroupsParamString (supGroups : List Id) (expOutSize : Nat) : Option (List Char) := do
  let buf ← supGroupsLoop supGroups (zeros (expOutSize + 1)) 0 (expOutSize + 1)
  return textAt buf 0

structure ArgBuild where
  buf : List Char
  curr : Nat
  av : List ArgPtr

def ArgBuild.param (b : ArgBuild) (length : Nat) (text : List Char) : Option ArgBuild := do
  let buf ← print b.buf b.curr length text
  return ⟨buf, b.curr + length, b.av ++ [.buf b.curr]⟩

/-- The supplementary groups are written over the terminator of the parameter before. -/
def ArgBuild.extend (b : ArgBuild) (length : Nat) (text : List Char) : Option ArgBuild := do
  let buf ← print b.buf (b.curr - 1) length text
  return { b with buf := buf, curr := b.curr + length }

def cgroupPath (name : Text) (parentName : Option Text) : List Char :=
  match parentName with
  | some parent => parent.chars ++ '/' :: name.chars
  | none => name.chars

def cmdParam (cmd : TaskCmd) : List Char := "--cmd=".toList ++ cmd.name.chars
def userParam (t : LaunchTask) : List Char := "--user=".toList ++ printId t.creds.user
def groupParam (t : LaunchTask) : List Char := "--group=".toList ++ printId t.creds.group
def capParam (capEff : BitVec 64) : List Char := "--caps=".toList ++ printMask capEff
def cgroupParam (cgroup : LaunchCgroup) : List Char :=
  "--cgroup=".toList ++ (cgroup.name.map fun name => cgroupPath name cgroup.parentName).getD []

/-- `cgroupParamLength` stays 0 for a cgroup without a name. -/
def cgroupParamLength (cgroup : Option LaunchCgroup) : Nat :=
  match cgroup with
  | some cgroup => if cgroup.name.isSome then (cgroupParam cgroup).length + 1 else 0
  | none => 0

def effectiveCaps (t : LaunchTask) (defaultCapsMask : BitVec 64) : BitVec 64 :=
  (defaultCapsMask &&& ~~~t.capabilitiesClear) ||| t.capabilitiesSet

def targetParamTotalLength (cmd : TaskCmd) : Nat :=
  (cmd.args.map fun arg => arg.chars.length + 1).sum

def ArgBuild.groups (b : ArgBuild) (t : LaunchTask) : Option ArgBuild := do
  let b ← b.param ((groupParam t).length + 1) (groupParam t)
  let varPartLength := calculateVariableGroupParamLength t.creds.supGroups
  if varPartLength = 0 then return b
  else
    let variableGroupParam ← createSupGroupsParamString t.creds.supGroups varPartLength
    b.extend varPartLength variableGroupParam

def ArgBuild.cgroup (b : ArgBuild) (t : LaunchTask) : Option ArgBuild :=
  match t.cgroup with
  | some cgroup => b.param (cgroupParamLength t.cgroup) (cgroupParam cgroup)
  | none => some b

def writeParams (cmd : TaskCmd) (t : LaunchTask) (capEff : BitVec 64) (b : ArgBuild) :
    Option ArgBuild := do
  let b ← b.param ((cmdParam cmd).length + 1) (cmdParam cmd)
  let b ← b.param ((userParam t).length + 1) (userParam t)
  let b ← b.groups t
  let b ← b.param ((capParam capEff).length + 1) (capParam capEff)
  let b ← b.cgroup t
  b.param 3 "--".toList

def launcherParamLength (cmd : TaskCmd) (t : LaunchTask) (capEff : BitVec 64) : Nat :=
  ((cmdParam cmd).length + 1) + ((userParam t).length + 1) + ((groupParam t).length + 1) +
    calculateVariableGroupParamLength t.creds.supGroups + ((capParam capEff).length + 1) +
      cgroupParamLength t.cgroup + 3

/-- The last copy into the buffer takes its bytes from the array of pointers, and goes on behind it
if the arguments are long; `atArgv` is what it finds there. -/
def createLauncherParameters (capFromName : String → Option (Fin 64)) (defaultCaps : String)
    (atArgv : Nat → Char)
    (launcher : Text) (cmd : TaskCmd) (t : LaunchTask) : Option (List (List Char)) := do
  let defaultCapsMask ← capConvertToBitmask capFromName defaultCaps
  let capEff := effectiveCaps t defaultCapsMask
  let totalLength := launcherParamLength cmd t capEff + targetParamTotalLength cmd
  let b ← writeParams cmd t capEff ⟨zeros (totalLength + 1), 0, [.given launcher]⟩
  let buf ← write b.buf b.curr ((List.range (targetParamTotalLength cmd)).map atArgv)
  let av := b.av ++ cmd.args.map .given
  -- The array has eight elements more than the command, with the NULL at the end.
  if 8 + (cmd.args.length + 1) < av.length + 1 then none
  else return av.map (ArgPtr.text buf)

def longOptions : List LongOption :=
  [⟨"help".toList, .no, 'h'⟩,
   ⟨"version".toList, .no, 'V'⟩,
   ⟨"cmd".toList, .required, 'c'⟩,
   ⟨"user".toList, .required, 'u'⟩,
   ⟨"groups".toList, .required, 'g'⟩,
   ⟨"caps".toList, .required, 'p'⟩,
   ⟨"cgroup".toList, .optional, 'r'⟩]

/-- The string `hc:u:g:V:p:r`: the colons meant for the last two stand before them. -/
def shortOptions : Char → Option HasArg
  | 'h' => some .no
  | 'c' => some .required
  | 'u' => some .required
  | 'g' => some .required
  | 'V' => some .required
  | 'p' => some .required
  | 'r' => some .no
  | _ => none

def idOfText (cs : List Char) : Option Id :=
  let r := strtoUnsigned 64 10 cs
  if r.rest = cs ∨ r.rest ≠ [] ∨ r.erange = true then none else some (BitVec.ofInt 32 r.value)

def extractGroups (input : List Char) : Option (List Id) := do
  let tokens := (input.splitOn ',').filter fun token => token ≠ []
  let groups ← tokens.mapM idOfText
  if groups.length ≠ input.count ',' + 1 then none else return groups

structure LaunchState where
  cmd : Option (List Char) := none
  user : Option Id := none
  groups : Option (List Id) := none
  caps : BitVec 64 := 0#64
  targetCgroup : Option (List Char) := none
  deriving DecidableEq, Repr

inductive LaunchStop
  | version
  | failure
  | undefined
  deriving DecidableEq, Repr

/-- The switch; `strdup` of a missing argument is not defined. -/
def launchOption (s : LaunchState) (a : Answer) : Except LaunchStop LaunchState :=
  match a.opt, a.arg with
  | 'c', some arg => if s.cmd.isSome then .error .failure else .ok { s with cmd := some arg }
  | 'u', some arg =>
    match idOfText arg with
    | some user => .ok { s with user := some user }
    | none => .error .failure
  | 'g', some arg =>
    if s.groups.isSome then .error .failure
    else
      match extractGroups arg with
      | some groups => .ok { s with groups := some groups }
      | none => .error .failure
  | 'p', some arg => .ok { s with caps := BitVec.ofInt 64 (strtoUnsigned 64 16 arg).value }
  | 'r', some arg =>
    if s.targetCgroup.isSome then .error .failure else .ok { s with targetCgroup := some arg }
  | 'r', none => if s.targetCgroup.isSome then .error .failure else .error .undefined
  | 'V', _ => .error .version
  | _, _ => .error .failure

structure LaunchRequest where
  cmd : List Char
  args : List (List Char)
  user : Option Id
  groups : Option (List Id)
  caps : BitVec 64
  targetCgroup : Option (List Char)
  deriving DecidableEq, Repr

/-- `main` of `crinit-launch` up to the new `argv`; the program name comes first. -/
def launch (argv : List (List Char)) : Except LaunchStop LaunchRequest := do
  let parsed := getoptLong longOptions shortOptions argv.tail
  let s ← parsed.answers.foldlM launchOption {}
  match s.cmd with
  | none => .error .failure
  | some cmd => .ok ⟨cmd, parsed.operands, s.user, s.groups, s.caps, s.targetCgroup⟩

theorem digit_ne {base : Nat} {c d : Char} (small : base ≤ 16) (digit : isDigit base c = true)
    (other : isDigit 16 d = false) : c ≠ d := by
  rintro rfl
  have low : digitVal c < 16 := Nat.lt_of_lt_of_le (of_decide_eq_true digit) small
  exact absurd (decide_eq_true low)
    (by rw [show decide (digitVal c < 16) = false from other]; decide)

theorem not_mem_printId {d : Char} (id : Id) (other : isDigit 16 d = false) (unsigned : d ≠ '-') :
    d ∉ printId id := by
  have digits (n : Nat) : d ∉ Nat.toDigits 10 n := fun mem =>
    digit_ne (by decide) ((digits_toDigits (show 1 < 10 by decide) (by decide) n).1 d mem) other rfl
  unfold printId printSigned
  cases id.toInt with
  | ofNat n => exact digits n
  | negSucc n => exact not_mem_cons_of_ne_of_not_mem unsigned (digits (n + 1))

theorem printId_ne_nil (id : Id) : printId id ≠ [] := by
  unfold printId printSigned
  cases id.toInt with
  | ofNat n => exact Nat.toDigits_ne_nil
  | negSucc n => exact cons_ne_nil _ _

theorem nul_not_mem_printMask (mask : BitVec 64) : nul ∉ printMask mask := fun mem =>
  digit_ne (by decide) ((digits_toDigits (show 1 < 16 by decide) (by decide) mask.toNat).1 nul mem)
    (by decide : isDigit 16 nul = false) rfl

theorem nul_not_mem_supText (supGroups : List Id) : nul ∉ supText supGroups := by
  unfold supText
  rw [mem_flatMap]
  rintro ⟨gid, -, mem⟩
  exact not_mem_cons_of_ne_of_not_mem (by decide) (not_mem_printId gid (by decide) (by decide))
    mem

theorem supText_length (supGroups : List Id) :
    (supText supGroups).length = (supGroups.map fun gid => (',' :: printId gid).length).sum := by
  rw [supText, length_flatMap]

variable {room : Nat}

theorem supGroupsLoop_eq (supGroups : List Id) (pre : List Char)
    (space : (supText supGroups).length < room) :
    supGroupsLoop supGroups (pre ++ zeros room) pre.length room =
      some (pre ++ supText supGroups ++ zeros (room - (supText supGroups).length)) := by
  induction supGroups generalizing pre room with
  | nil => simp [supGroupsLoop, supText]
  | cons gid supGroups ih =>
    have split : supText (gid :: supGroups) = (',' :: printId gid) ++ supText supGroups :=
      flatMap_cons
    rw [split, length_append] at space
    have rest := ih (pre ++ ',' :: printId gid) (show (supText supGroups).length < room -
      (',' :: printId gid).length by omega)
    rw [length_append] at rest
    unfold supGroupsLoop
    rw [print_zeros pre (',' :: printId gid) (by omega) (by omega), Option.bind_eq_bind,
      Option.bind_some, rest, split,
      length_append, Nat.sub_sub]
    simp only [append_assoc]

theorem createSupGroups_eq (supGroups : List Id) {size : Nat}
    (fits : (supText supGroups).length ≤ size) :
    createSupGroupsParamString supGroups size = some (supText supGroups) := by
  have loop := supGroupsLoop_eq supGroups [] (show (supText supGroups).length < size + 1 by omega)
  rw [nil_append, nil_append, length_nil] at loop
  have ends : zeros (size + 1 - (supText supGroups).length) = nul ::
    zeros (size - (supText supGroups).length) := by
    rw [zeros_cons (by omega)]
    congr 2
    omega
  unfold createSupGroupsParamString
  rw [loop, Option.bind_eq_bind, Option.bind_some, ends]
  exact congrArg some (textAt_end [] (nul_not_mem_supText supGroups))

def Wrote (b : ArgBuild) (texts : List (List Char)) (room : Nat) : Prop :=
  ∃ pre, b.buf = pre ++ zeros room ∧ b.curr = pre.length ∧
    ∀ more, b.av.map (ArgPtr.text (pre ++ more)) = texts

variable {texts : List (List Char)}

theorem shows_append {pre text : List Char} {av : List ArgPtr} (plain : nul ∉ text)
    (shows : ∀ more, av.map (ArgPtr.text (pre ++ more)) = texts) (more : List Char) :
    (av ++ [ArgPtr.buf pre.length]).map (ArgPtr.text (pre ++ (text ++ nul :: more))) = texts ++
    [text] := by
  rw [map_append, shows, map_singleton, ArgPtr.text, textAt_end pre plain]

variable {b : ArgBuild}

theorem param_eq {pre text : List Char} (buf : b.buf = pre ++ zeros room)
    (curr : b.curr = pre.length) (space : text.length + 1 ≤ room) : b.param (text.length + 1) text =
      some ⟨pre ++ text ++ zeros (room - text.length), pre.length + (text.length + 1),
        b.av ++ [.buf pre.length]⟩ := by
  unfold ArgBuild.param
  rw [buf, curr, print_zeros pre text (by omega) (by omega)]
  rfl

theorem zeros_behind {n : Nat} (space : n + 1 ≤ room) :
    zeros (room - n) = nul :: zeros (room - (n + 1)) := by
  rw [zeros_cons (by omega), Nat.sub_sub]

theorem param_wrote {text : List Char} (wrote : Wrote b texts room) (plain : nul ∉ text)
    (space : text.length + 1 ≤ room) :
    ∃ b', b.param (text.length + 1) text = some b' ∧
      Wrote b' (texts ++ [text]) (room - (text.length + 1)) := by
  obtain ⟨pre, buf, curr, shows⟩ := wrote
  refine ⟨_, param_eq buf curr space, pre ++ text ++ [nul], ?_, ?_, fun more => ?_⟩
  · rw [zeros_behind space, append_assoc _ [nul], singleton_append]
  · rw [length_append, length_append, length_singleton]
    exact (Nat.add_assoc _ _ _).symm
  · rw [append_assoc, append_assoc, singleton_append]
    exact shows_append plain shows more

/-- A parameter whose terminator is overwritten by more of it: the string is the whole, and one
byte behind it is not used. -/
theorem extend_wrote {text more : List Char} (wrote : Wrote b texts room)
    (plain : nul ∉ text ++ more) (space : (text.length + 1) + (more.length + 1) ≤ room) :
    ∃ b', (b.param (text.length + 1) text).bind (fun b => b.extend (more.length + 1) more) =
      some b' ∧
      Wrote b' (texts ++ [text ++ more]) (room - ((text.length + 1) + (more.length + 1))) := by
  obtain ⟨pre, buf, curr, shows⟩ := wrote
  have start : pre.length + (text.length + 1) - 1 = (pre ++ text).length := by
    rw [length_append]
    omega
  have extended : (b.param (text.length + 1) text).bind (fun b => b.extend (more.length + 1) more) =
      some ⟨pre ++ text ++ more ++ zeros (room - text.length - more.length),
        pre.length + (text.length + 1) + (more.length + 1), b.av ++ [.buf pre.length]⟩ := by
    rw [param_eq buf curr (by omega), Option.bind_some]
    unfold ArgBuild.extend
    dsimp only
    rw [start, print_zeros (pre ++ text) more (by omega) (by omega)]
    rfl
  have behind : zeros (room - text.length - more.length) =
      nul :: nul :: zeros (room - ((text.length + 1) + (more.length + 1))) := by
    rw [Nat.sub_sub, zeros_behind (by omega), zeros_cons (by omega)]
    congr 3
    omega
  refine ⟨_, extended, pre ++ (text ++ more) ++ [nul, nul], ?_, ?_, fun rest => ?_⟩
  · rw [behind]
    simp
  · simp only [length_append, length_cons, length_nil]
    omega
  · rw [append_assoc, append_assoc]
    exact shows_append plain shows (nul :: rest)

theorem write_wrote {bytes : List Char} (wrote : Wrote b texts room) (space : bytes.length ≤ room) :
    ∃ buf, write b.buf b.curr bytes = some buf ∧ b.av.map (ArgPtr.text buf) = texts := by
  obtain ⟨pre, buf, curr, shows⟩ := wrote
  refine ⟨pre ++ (bytes ++ (zeros room).drop bytes.length), ?_, shows _⟩
  rw [buf, curr, write_at (by rw [zeros, length_replicate]; exact space)]

theorem groups_wrote (t : LaunchTask) (wrote : Wrote b texts room)
    (space : ((groupParam t).length + 1) + calculateVariableGroupParamLength t.creds.supGroups ≤
      room) :
    ∃ b', b.groups t = some b' ∧ Wrote b' (texts ++ [groupParam t ++ supText t.creds.supGroups])
      (room - (((groupParam t).length + 1) +
        calculateVariableGroupParamLength t.creds.supGroups)) := by
  have plain : nul ∉ groupParam t :=
    not_mem_append (by decide) (not_mem_printId _ (by decide) (by decide))
  unfold ArgBuild.groups
  by_cases none : t.creds.supGroups = []
  · have var : calculateVariableGroupParamLength t.creds.supGroups = 0 := if_pos none
    rw [var] at space
    obtain ⟨b', written, wrote'⟩ := param_wrote wrote plain space
    refine ⟨b', ?_, ?_⟩
    · rw [written, Option.bind_eq_bind, Option.bind_some, var]
      rfl
    · rw [var, none]
      exact (append_nil (groupParam t)).symm ▸ wrote'
  · have var : calculateVariableGroupParamLength t.creds.supGroups =
      (supText t.creds.supGroups).length + 1 := by
      rw [supText_length]
      exact if_neg none
    have string : createSupGroupsParamString t.creds.supGroups
      ((supText t.creds.supGroups).length + 1) =
        some (supText t.creds.supGroups) := createSupGroups_eq _ (by omega)
    rw [var] at space ⊢
    obtain ⟨b', written, wrote'⟩ :=
      extend_wrote wrote (not_mem_append plain (nul_not_mem_supText t.creds.supGroups)) space
    refine ⟨b', ?_, wrote'⟩
    rw [← written, Option.bind_eq_bind]
    congr 1
    funext b
    rw [if_neg (Nat.succ_ne_zero _), string]
    rfl

def cgroupTexts (t : LaunchTask) : List (List Char) :=
  match t.cgroup with
  | some cgroup => [cgroupParam cgroup]
  | none => []

variable {t : LaunchTask}

theorem cgroup_wrote (wrote : Wrote b texts room)
    (named : ∀ cgroup ∈ t.cgroup, cgroup.name.isSome = true)
    (space : cgroupParamLength t.cgroup ≤ room) :
    ∃ b', b.cgroup t = some b' ∧ Wrote b' (texts ++ cgroupTexts t)
      (room - cgroupParamLength t.cgroup) := by
  unfold ArgBuild.cgroup cgroupTexts
  cases found : t.cgroup with
  | none => exact ⟨b, rfl, by rwa [append_nil]⟩
  | some cgroup =>
    obtain ⟨name, parentName⟩ := cgroup
    cases name with
    | none => exact absurd (named _ found) Bool.false_ne_true
    | some name =>
      have plain : nul ∉ cgroupParam ⟨some name, parentName⟩ := by
        refine not_mem_append (by decide) ?_
        cases parentName with
        | none => exact name.noNul
        | some parent =>
          exact not_mem_append parent.noNul (not_mem_cons_of_ne_of_not_mem (by decide) name.noNul)
      rw [found] at space
      exact param_wrote wrote plain space

def paramTexts (cmd : TaskCmd) (t : LaunchTask) (capEff : BitVec 64) : List (List Char) :=
  [cmdParam cmd, userParam t, groupParam t ++ supText t.creds.supGroups, capParam capEff] ++
    cgroupTexts t ++ ["--".toList]

theorem writeParams_wrote {cmd : TaskCmd} {capEff : BitVec 64} (wrote : Wrote b texts room)
    (named : ∀ cgroup ∈ t.cgroup, cgroup.name.isSome = true)
    (space : launcherParamLength cmd t capEff ≤ room) :
    ∃ b', writeParams cmd t capEff b = some b' ∧
      Wrote b' (texts ++ paramTexts cmd t capEff) (room - launcherParamLength cmd t capEff) := by
  have plainCmd : nul ∉ cmdParam cmd := not_mem_append (by decide) cmd.name.noNul
  have plainUser : nul ∉ userParam t :=
    not_mem_append (by decide) (not_mem_printId _ (by decide) (by decide))
  have plainCaps : nul ∉ capParam capEff :=
    not_mem_append (by decide) (nul_not_mem_printMask capEff)
  unfold launcherParamLength at space ⊢
  obtain ⟨b₁, wrote₁, holds₁⟩ := param_wrote wrote plainCmd (by omega)
  obtain ⟨b₂, wrote₂, holds₂⟩ := param_wrote holds₁ plainUser (by omega)
  obtain ⟨b₃, wrote₃, holds₃⟩ := groups_wrote t holds₂ (by omega)
  obtain ⟨b₄, wrote₄, holds₄⟩ := param_wrote holds₃ plainCaps (by omega)
  obtain ⟨b₅, wrote₅, holds₅⟩ := cgroup_wrote holds₄ named (by omega)
  obtain ⟨b₆, wrote₆, holds₆⟩ :=
    param_wrote holds₅ (show nul ∉ "--".toList by decide) (show 2 + 1 ≤ _ by omega)
  refine ⟨b₆, ?_, ?_⟩
  · unfold writeParams
    simp only [wrote₁, wrote₂, wrote₃, wrote₄, wrote₅, Option.bind_eq_bind, Option.bind_some]
    exact wrote₆
  · have texts' : texts ++ paramTexts cmd t capEff = texts ++ [cmdParam cmd] ++ [userParam t] ++
        [groupParam t ++ supText t.creds.supGroups] ++ [capParam capEff] ++ cgroupTexts t ++
        ["--".toList] := by
      simp [paramTexts]
    rw [texts']
    convert holds₆ using 1
    change _ = _ - 3
    omega

theorem createLauncherParameters_eq {capFromName : String → Option (Fin 64)}
    {defaultCaps : String} {defaultCapsMask : BitVec 64} (atArgv : Nat → Char) (launcher : Text)
    (cmd : TaskCmd)
    (converted : capConvertToBitmask capFromName defaultCaps = some defaultCapsMask)
    (named : ∀ cgroup ∈ t.cgroup, cgroup.name.isSome = true) :
    createLauncherParameters capFromName defaultCaps atArgv launcher cmd t =
      some (launcher.chars :: (paramTexts cmd t (effectiveCaps t defaultCapsMask) ++
        cmd.args.map Text.chars)) := by
  have start (room : Nat) : Wrote ⟨zeros room, 0, [.given launcher]⟩ [launcher.chars] room :=
    ⟨[], rfl, rfl, fun _ => rfl⟩
  obtain ⟨b, written, holds⟩ := writeParams_wrote
    (start (launcherParamLength cmd t (effectiveCaps t defaultCapsMask) +
      targetParamTotalLength cmd + 1)) named
    (show launcherParamLength cmd t (effectiveCaps t defaultCapsMask) ≤ _ by omega)
  obtain ⟨buf, copied, shows⟩ := write_wrote holds
    (show ((List.range (targetParamTotalLength cmd)).map atArgv).length ≤ _ by
      rw [length_map, length_range]
      omega)
  have texts : (b.av ++ cmd.args.map ArgPtr.given).map (ArgPtr.text buf) =
      launcher.chars :: (paramTexts cmd t (effectiveCaps t defaultCapsMask) ++
        cmd.args.map Text.chars) := by
    rw [map_append, shows, map_map]
    rfl
  have room : ¬8 + (cmd.args.length + 1) < (b.av ++ cmd.args.map ArgPtr.given).length + 1 := by
    have count := congrArg List.length texts
    have cgroup : (cgroupTexts t).length ≤ 1 := by
      unfold cgroupTexts
      split <;> simp
    simp only [length_map, length_cons, length_append, paramTexts, length_nil] at count ⊢
    omega
  unfold createLauncherParameters
  simp only [converted, written, copied, Option.bind_eq_bind, Option.bind_some]
  rw [if_neg room, texts]
  rfl

/-- An identifier from 2^31 on is printed as a negative number, and read as the same 32 bits. -/
theorem idOfText_printId (id : Id) : idOfText (printId id) = some id := by
  obtain ⟨neg, mag, spells, value⟩ := spells_printSigned id.toInt
  obtain ⟨rest, range, read⟩ := strtoUnsigned_spells (by decide) spells
  have low := BitVec.le_toInt id
  have high := BitVec.toInt_lt (x := id)
  have takes : IntType.ullong.Takes neg mag := by
    change mag < 0x10000000000000000
    unfold signed at value
    split_ifs at value <;> omega
  have fine : ¬((strtoUnsigned 64 10 (printId id)).rest = printId id ∨
    (strtoUnsigned 64 10 (printId id)).rest ≠ [] ∨
      (strtoUnsigned 64 10 (printId id)).erange = true) := by
    rintro (same | left | erange)
    · exact printId_ne_nil id (same.symm.trans rest)
    · exact left rest
    · rw [show (strtoUnsigned 64 10 (printId id)).erange = false from range.2 takes] at erange
      cases erange
  unfold idOfText
  dsimp only
  rw [if_neg fine, show (strtoUnsigned 64 10 (printId id)).value = _ from read takes, value]
  have low32 : BitVec.ofInt 32 (id.toInt % 0x10000000000000000) = BitVec.ofInt 32 id.toInt := by
    apply BitVec.eq_of_toNat_eq
    rw [BitVec.toNat_ofInt, BitVec.toNat_ofInt, Int.emod_emod_of_dvd _ (by decide)]
  rw [low32, BitVec.ofInt_toInt]

theorem mask_printMask (mask : BitVec 64) :
    BitVec.ofInt 64 (strtoUnsigned 64 16 (printMask mask)).value = mask := by
  have spells := spells_toDigits (show 1 < 16 by decide) (by decide) mask.toNat
  obtain ⟨-, -, read⟩ := strtoUnsigned_spells (by decide) spells
  have takes : IntType.ullong.Takes false mask.toNat := mask.isLt
  have exact : signed false mask.toNat % 0x10000000000000000 = (mask.toNat : Int) := by
    have low := mask.isLt
    change (mask.toNat : Int) % 0x10000000000000000 = mask.toNat
    omega
  rw [show (strtoUnsigned 64 16 (printMask mask)).value = _ from read takes, exact,
    BitVec.ofInt_natCast,
    BitVec.ofNat_toNat, BitVec.setWidth_eq]

theorem groups_intercalate (gid : Id) (supGroups : List Id) :
    printId gid ++ supText supGroups = [','].intercalate ((gid :: supGroups).map printId) := by
  induction supGroups generalizing gid with
  | nil => simp [supText]
  | cons gid' supGroups ih =>
    rw [map_cons, map_cons, intercalate_cons_cons, ← map_cons, ← ih gid']
    simp [supText]

theorem groups_count (gid : Id) (supGroups : List Id) :
    (printId gid ++ supText supGroups).count ',' = supGroups.length := by
  have none (id : Id) : (printId id).count ',' = 0 :=
    List.count_eq_zero.2 (not_mem_printId id (by decide) (by decide))
  rw [count_append, none, Nat.zero_add, supText]
  induction supGroups with
  | nil => rfl
  | cons gid supGroups ih =>
    rw [flatMap_cons, count_append, count_cons_self, none, ih, length_cons]
    omega

theorem extractGroups_eq (gid : Id) (supGroups : List Id) :
    extractGroups (printId gid ++ supText supGroups) = some (gid :: supGroups) := by
  have pieces : (printId gid ++ supText supGroups).splitOn ',' =
    (gid :: supGroups).map printId := by
    rw [groups_intercalate]
    refine splitOn_intercalate _ ?_ (by simp)
    intro text mem
    obtain ⟨id, -, rfl⟩ := List.mem_map.1 mem
    exact not_mem_printId id (by decide) (by decide)
  have tokens : ((gid :: supGroups).map printId).filter (fun token => token ≠ []) =
    (gid :: supGroups).map printId := by
    refine List.filter_eq_self.2 fun text mem => ?_
    obtain ⟨id, -, rfl⟩ := List.mem_map.1 mem
    exact decide_eq_true (printId_ne_nil id)
  have read : ((gid :: supGroups).map printId).mapM idOfText = some (gid :: supGroups) := by
    rw [Collect.mapM_some_iff, List.forall₂_map_left_iff]
    exact List.forall₂_same.2 fun id _ => idOfText_printId id
  unfold extractGroups
  dsimp only
  rw [pieces, tokens, read, Option.bind_eq_bind, Option.bind_some, groups_count, if_neg (by simp)]
  rfl

def cgroupArg (t : LaunchTask) : Option (List Char) :=
  t.cgroup.map fun cgroup => (cgroup.name.map fun name => cgroupPath name cgroup.parentName).getD []

def launcherAnswers (cmd : List Char) (creds : Credentials) (capEff : BitVec 64)
    (path : Option (List Char)) : List Answer :=
  [⟨'c', some cmd⟩, ⟨'u', some (printId creds.user)⟩,
    ⟨'g', some (printId creds.group ++ supText creds.supGroups)⟩,
    ⟨'p', some (printMask capEff)⟩] ++ path.toList.map fun path => ⟨'r', some path⟩

/-- The options as the launcher gets to see them, and everything behind the double dash untouched.
`--group` is the start of `--groups` only. -/
theorem params_parsed (cmd : TaskCmd) (t : LaunchTask) (capEff : BitVec 64)
    (args : List (List Char)) :
    getoptLong longOptions shortOptions (paramTexts cmd t capEff ++ args) =
      ⟨launcherAnswers cmd.name.chars t.creds capEff (cgroupArg t), args⟩ := by
  have cmd' : findLong longOptions "cmd".toList = some ⟨"cmd".toList, .required, 'c'⟩ := by decide
  have user : findLong longOptions "user".toList = some ⟨"user".toList, .required, 'u'⟩ := by decide
  have groups : findLong longOptions "group".toList =
    some ⟨"groups".toList, .required, 'g'⟩ := by decide
  have caps : findLong longOptions "caps".toList = some ⟨"caps".toList, .required, 'p'⟩ := by decide
  have cgroup' : findLong longOptions "cgroup".toList =
    some ⟨"cgroup".toList, .optional, 'r'⟩ := by decide
  have last : getoptLong longOptions shortOptions (cgroupTexts t ++ ("--".toList :: args)) =
      ⟨(cgroupArg t).toList.map fun path => ⟨'r', some path⟩, args⟩ := by
    unfold cgroupTexts cgroupArg
    cases t.cgroup with
    | none => exact getoptLong_end args
    | some cgroup =>
      exact getoptLong_value _ (getoptLong_end args) cgroup' (by decide) (by decide)
  have list : paramTexts cmd t capEff ++ args = cmdParam cmd :: userParam t ::
      (groupParam t ++ supText t.creds.supGroups) :: capParam capEff ::
      (cgroupTexts t ++ ("--".toList :: args)) := by
    simp [paramTexts]
  have fourth := getoptLong_value (printMask capEff) last caps (by decide) (by decide)
  have third := getoptLong_value (printId t.creds.group ++ supText t.creds.supGroups) fourth groups
    (by decide) (by decide)
  have second := getoptLong_value (printId t.creds.user) third user (by decide) (by decide)
  rw [list]
  exact getoptLong_value cmd.name.chars second cmd' (by decide) (by decide)

theorem launchOption_user (s : LaunchState) (id : Id) :
    launchOption s ⟨'u', some (printId id)⟩ = .ok { s with user := some id } := by
  change (match idOfText (printId id) with
    | some user => Except.ok { s with user := some user }
    | none => .error LaunchStop.failure) = _
  rw [idOfText_printId]

theorem launchOption_groups {s : LaunchState} (first : s.groups = none) (gid : Id)
    (supGroups : List Id) :
    launchOption s ⟨'g', some (printId gid ++ supText supGroups)⟩ =
      .ok { s with groups := some (gid :: supGroups) } := by
  change (if s.groups.isSome then Except.error LaunchStop.failure
    else match extractGroups (printId gid ++ supText supGroups) with
      | some groups => .ok { s with groups := some groups }
      | none => .error .failure) = _
  rw [first, extractGroups_eq]
  rfl

theorem launchOption_caps (s : LaunchState) (mask : BitVec 64) :
    launchOption s ⟨'p', some (printMask mask)⟩ = .ok { s with caps := mask } := by
  change Except.ok { s with caps := BitVec.ofInt 64 (strtoUnsigned 64 16 (printMask mask)).value } =
    _
  rw [mask_printMask]

theorem foldlM_ok {S A E : Type} {f : S → A → Except E S} {s s' : S} {a : A} (as : List A)
    (ok : f s a = .ok s') :
    (a :: as).foldlM f s = as.foldlM f s' := by
  rw [foldlM_cons, ok]
  rfl

theorem options_taken (cmd : List Char) (creds : Credentials) (capEff : BitVec 64)
    (path : Option (List Char)) :
    (launcherAnswers cmd creds capEff path).foldlM launchOption {} =
      .ok { cmd := some cmd, user := some creds.user,
            groups := some (creds.group :: creds.supGroups), caps := capEff,
            targetCgroup := path } := by
  have first : launchOption {} ⟨'c', some cmd⟩ = .ok { cmd := some cmd } := rfl
  unfold launcherAnswers
  rw [cons_append, foldlM_ok _ first, cons_append, foldlM_ok _ (launchOption_user _ _),
    cons_append,
    foldlM_ok _ (launchOption_groups rfl _ _), cons_append,
      foldlM_ok _ (launchOption_caps _ _), nil_append]
  cases path <;> rfl

def namedCgroup (cgroup : Text × Option Text) : LaunchCgroup := ⟨some cgroup.1, cgroup.2⟩

/-- The launcher starts what crinit was told to start: the command and all its arguments, as the
user and the groups of the task, with its capabilities and in its cgroup. -/
theorem launcher_round_trip (capFromName : String → Option (Fin 64)) (defaultCaps : String)
    (defaultCapsMask : BitVec 64)
    (atArgv : Nat → Char) (launcher : Text) (cmd : TaskCmd) (creds : Credentials)
    (set clear : BitVec 64)
    (cgroup : Option (Text × Option Text))
    (converted : capConvertToBitmask capFromName defaultCaps = some defaultCapsMask) :
    ∃ argv, createLauncherParameters capFromName defaultCaps atArgv launcher cmd
      ⟨creds, set, clear, cgroup.map namedCgroup⟩ = some argv ∧
      launch argv = .ok {
        cmd := cmd.name.chars
        args := cmd.args.map Text.chars
        user := some creds.user
        groups := some (creds.group :: creds.supGroups)
        caps := (defaultCapsMask &&& ~~~clear) ||| set
        targetCgroup := cgroup.map fun c => cgroupPath c.1 c.2 } := by
  have named : ∀ c ∈ cgroup.map namedCgroup, c.name.isSome = true := fun c mem => by
    obtain ⟨_, -, rfl⟩ := Option.map_eq_some_iff.1 mem
    rfl
  refine ⟨_, createLauncherParameters_eq atArgv launcher cmd converted named, ?_⟩
  unfold launch
  dsimp only [tail_cons]
  rw [params_parsed]
  have path : cgroupArg ⟨creds, set, clear, cgroup.map namedCgroup⟩ = cgroup.map fun c =>
    cgroupPath c.1 c.2 := by
    cases cgroup <;> rfl
  dsimp only
  rw [path, options_taken]
  rfl

def shellCmd : TaskCmd where
  name := ⟨"/bin/sh".toList, by decide⟩
  args := [⟨"-c".toList, by decide⟩, ⟨"--cmd=ls".toList, by decide⟩, ⟨"--".toList, by decide⟩]

def shellCreds : Credentials where
  user := 0x80000001#32
  group := 100#32
  supGroups := [29#32, 0xFFFFFFFF#32]

theorem shell_launched :
    ∃ argv, createLauncherParameters capNumber "CAP_NET_RAW" (fun _ => 'x')
      ⟨"/usr/bin/crinit-launch".toList, by decide⟩ shellCmd
        ⟨shellCreds, 1#64, 0#64, some (namedCgroup (⟨"app".toList, by decide⟩,
          some ⟨"crinit.cg".toList, by decide⟩))⟩ =
        some argv ∧
      launch argv = .ok {
        cmd := "/bin/sh".toList
        args := ["-c".toList, "--cmd=ls".toList, "--".toList]
        user := some 0x80000001#32
        groups := some [100#32, 29#32, 0xFFFFFFFF#32]
        caps := 0x2001#64
        targetCgroup := some "crinit.cg/app".toList } :=
  launcher_round_trip capNumber "CAP_NET_RAW" 0x2000#64 (fun _ => 'x') _ shellCmd
    shellCreds 1#64 0#64
    (some (⟨"app".toList, by decide⟩, some ⟨"crinit.cg".toList, by decide⟩)) (by decide)

end Crinit
