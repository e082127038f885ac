import Crinit.EnvExpansion
import Crinit.EnvSetMap
import Crinit.TaskImage

/-! `crinitTaskCopy` on the memory of a task. It takes a dependency for one piece of memory, and a
command for one buffer. Its allocations succeed. -/
namespace Crinit

open CText List

variable {Cgroup : Type}

inductive CopyStop
  | failed
  | undefined
  deriving DecidableEq, Repr

def copyCommand (orig : CmdImage) : Except CopyStop CmdImage :=
  if orig.argc < 1 then .error .failed
  else
    match orig.argv[0]?.join, orig.argv[orig.argc - 1]?.join with
    | some first, some last =>
      match stringAt orig.mem last with
      | none => .error .undefined
      | some text =>
        let argvBackbufLen := last + text.length - first + 1
        .ok ⟨orig.argc, (orig.argv.take orig.argc).map (Option.map (· - first)) ++ [none],
          (orig.mem.drop first).take argvBackbufLen⟩
    | _, _ => .error .undefined

def copyDep (orig : DepImage) : Except CopyStop DepImage :=
  match stringAt orig.mem orig.name, stringAt orig.mem orig.event with
  | some name, some event =>
    let depNameLen := name.length + 1
    let depEventLen := event.length + 1
    if orig.name + depNameLen + depEventLen ≤ orig.mem.length then
      .ok ⟨(orig.mem.drop orig.name).take (depNameLen + depEventLen), 0, depNameLen⟩
    else .error .undefined
  | _, _ => .error .undefined

def envSetDup (orig : RawEnvSet) : Except CopyStop RawEnvSet :=
  match orig.dup {} with
  | none => .error .undefined
  | some none => .error .failed
  | some (some copy) => .ok copy

def dupName : Option String → Except CopyStop String
  | none => .error .undefined
  | some name => .ok name

/-- `crinitTaskCopy`. The strings and arrays of the other fields are duplicated one by one. -/
def taskCopy (orig : TaskImage RawEnvSet Cgroup) :
    Except CopyStop (TaskImage RawEnvSet Cgroup) := do
  let name ← dupName orig.name
  let cmds ← orig.cmds.mapM copyCommand
  let stopCmds ← orig.stopCmds.mapM copyCommand
  let taskEnv ← envSetDup orig.taskEnv
  let elosFilters ← envSetDup orig.elosFilters
  let deps ← orig.deps.mapM copyDep
  let trig ← orig.trig.mapM copyDep
  return { orig with
    name := some name, cmds := cmds, stopCmds := stopCmds, taskEnv := taskEnv,
    elosFilters := elosFilters, deps := deps, trig := trig }

/-! ### What is to be seen of a task -/

def CmdImage.read (cmd : CmdImage) : Option (Nat × List String) := do
  let argv ← Slots.elements cmd.argv
  let args ← argv.mapM (stringAt cmd.mem)
  return (cmd.argc, args.map String.ofList)

def DepImage.read (d : DepImage) : Option TaskDep := do
  let name ← stringAt d.mem d.name
  let event ← stringAt d.mem d.event
  return ⟨String.ofList name, String.ofList event⟩

structure TaskContent (Cgroup : Type) where
  name : Option String
  cmds : List (Nat × List String)
  stopCmds : List (Nat × List String)
  deps : List TaskDep
  trig : List TaskDep
  prv : List TaskPrv
  opts : TaskOpts
  maxRetries : Int
  taskEnv : List (List Char)
  elosFilters : List (List Char)
  redirs : List IoRedir
  creds : Credentials
  capabilitiesSet : BitVec 64
  capabilitiesClear : BitVec 64
  cgroup : Option Cgroup
  run : TaskRun

def TaskImage.content (im : TaskImage RawEnvSet Cgroup) : Option (TaskContent Cgroup) := do
  let cmds ← im.cmds.mapM CmdImage.read
  let stopCmds ← im.stopCmds.mapM CmdImage.read
  let deps ← im.deps.mapM DepImage.read
  let trig ← im.trig.mapM DepImage.read
  let taskEnv ← Slots.elements im.taskEnv.slots
  let elosFilters ← Slots.elements im.elosFilters.slots
  return ⟨im.name, cmds, stopCmds, deps, trig, im.prv, im.opts, im.maxRetries, taskEnv,
    elosFilters, im.redirs, im.creds, im.capabilitiesSet, im.capabilitiesClear, im.cgroup, im.run⟩

def CopiesFaithfully (im : TaskImage RawEnvSet Cgroup) : Prop :=
  ∃ copy content, taskCopy im = .ok copy ∧ im.content = some content ∧ copy.content = some content

def EnvSet.raw (es : EnvSet) : RawEnvSet :=
  ⟨Slots.ofList es.envp (es.allocSz - es.envp.length), es.allocSz, es.allocInc⟩

def TaskImage.atRun (im : TaskImage EnvSet Cgroup) (run : TaskRun) : TaskImage RawEnvSet Cgroup :=
  { im with taskEnv := im.taskEnv.raw, elosFilters := im.elosFilters.raw, run := run }

def DepImage.EventBehindName (d : DepImage) : Prop :=
  d.event = d.name + (textAt d.mem d.name).length + 1

instance (d : DepImage) : Decidable d.EventBehindName :=
  inferInstanceAs (Decidable (d.event = d.name + (textAt d.mem d.name).length + 1))

structure TaskImage.Copyable {Env : Type} (im : TaskImage Env Cgroup) : Prop where
  cmds : ∀ cmd ∈ im.cmds ++ im.stopCmds, cmd.argc ≠ 0
  deps : ∀ d ∈ im.deps ++ im.trig, d.EventBehindName

section Commands

variable {cmd : CmdImage} {offsets : List Nat}

theorem read_laid {argc : Nat} {mem : List Char} {texts : List (List Char)}
    (strings : offsets.mapM (stringAt mem) = some texts) :
    CmdImage.read ⟨argc, offsets.map some ++ [none], mem⟩ =
      some (argc, texts.map String.ofList) := by
  simp only [CmdImage.read, Slots.elements_append, Option.bind_eq_bind, Option.bind_some, strings]
  rfl

theorem laid_ends (laid : cmd.Laid offsets) {first last off : Nat}
    (head : offsets[0]? = some first) (tail : offsets[offsets.length - 1]? = some last)
    (mem : off ∈ offsets) : first ≤ off ∧ off ≤ last := by
  obtain ⟨i, here⟩ := mem_iff_getElem?.1 mem
  have order := List.pairwise_iff_getElem.1 laid.order
  obtain ⟨bound, rfl⟩ := List.getElem?_eq_some_iff.1 here
  obtain ⟨low, rfl⟩ := List.getElem?_eq_some_iff.1 head
  obtain ⟨high, rfl⟩ := List.getElem?_eq_some_iff.1 tail
  constructor
  · rcases Nat.eq_zero_or_pos i with rfl | later
    · exact Nat.le_refl _
    · exact Nat.le_of_lt (order 0 i low bound later)
  · rcases Nat.lt_or_ge i (offsets.length - 1) with earlier | there
    · exact Nat.le_of_lt (order i _ bound high earlier)
    · have same : i = offsets.length - 1 := by omega
      subst same
      exact Nat.le_refl _

theorem copyCommand_laid (laid : cmd.Laid offsets) (some' : cmd.argc ≠ 0) :
    ∃ copy content, copyCommand cmd = .ok copy ∧ cmd.read = some content ∧
      copy.read = some content := by
  obtain ⟨argc, argv, mem⟩ := cmd
  obtain ⟨rfl, rfl, order, strings⟩ := laid
  have laid : CmdImage.Laid ⟨offsets.length, offsets.map some ++ [none], mem⟩ offsets :=
    ⟨rfl, rfl, order, strings⟩
  dsimp only at some' strings
  obtain ⟨first, head⟩ : ∃ first, offsets[0]? = some first :=
    ⟨_, getElem?_eq_getElem (Nat.pos_of_ne_zero some')⟩
  obtain ⟨last, tail⟩ : ∃ last, offsets[offsets.length - 1]? = some last :=
    ⟨_, getElem?_eq_getElem (by omega)⟩
  obtain ⟨text, ends⟩ := strings last (mem_of_getElem? tail)
  obtain ⟨texts, found⟩ := Collect.mapM_all strings
  refine ⟨⟨offsets.length, (offsets.map (· - first)).map some ++ [none],
    (mem.drop first).take (last + text.length - first + 1)⟩, _, ?_, read_laid found, read_laid ?_⟩
  · have head' : (offsets.map some ++ [none])[0]?.join = some first := by
      rw [getElem?_append_left (by simpa using Nat.pos_of_ne_zero some'),
        getElem?_map, head]
      rfl
    have tail' : (offsets.map some ++ [none])[offsets.length - 1]?.join = some last := by
      rw [getElem?_append_left (by rw [length_map]; omega), getElem?_map, tail]
      rfl
    have argv : (offsets.map some ++ [none]).take offsets.length = offsets.map some :=
      take_left' (length_map some)
    simp only [copyCommand, if_neg (show ¬offsets.length < 1 by omega), head', tail', ends, argv,
      map_map]
    rfl
  · rw [mapM_map, ← found]
    refine Collect.mapM_congr fun off member => ?_
    obtain ⟨text', here⟩ := strings off member
    obtain ⟨low, high⟩ := laid_ends laid head tail member
    have inside := stringAt_ends here ends high
    have from_first := (laid_ends laid head tail (mem_of_getElem? tail)).1
    rw [Function.comp_apply, here]
    exact stringAt_slice here low (by omega)

theorem copyCommand_empty (none : cmd.argc = 0) : copyCommand cmd = .error .failed :=
  if_pos (by omega)

end Commands

section Dependencies

variable {d : DepImage} {nm blanks ev : List Char}

variable {ds cs : List DepImage}

section Laid

variable (laid : d.Laid nm blanks ev)
include laid

theorem read_dep :
    d.read = some ⟨String.ofList nm, String.ofList ev⟩ := by
  rw [DepImage.read, laid_name laid, laid_event laid]
  rfl

theorem behind_iff : d.EventBehindName ↔ blanks = [] := by
  obtain ⟨pre, post, -, name, event⟩ := laid.mem
  rw [DepImage.EventBehindName, stringAt_textAt (laid_name laid), name, event, ← length_eq_zero_iff]
  omega

/-- What is copied: the name with its terminator and as many bytes behind it as the event has. -/
theorem copyDep_laid : ∃ post,
    copyDep d = .ok ⟨nm ++ nul :: (blanks ++ (ev ++ nul :: post)).take (ev.length + 1), 0,
      nm.length + 1⟩ := by
  obtain ⟨pre, post, mem, name, -⟩ := laid.mem
  have room : d.name + (nm.length + 1) + (ev.length + 1) ≤ d.mem.length := by
    rw [mem, name]
    simp only [length_append, length_cons]
    omega
  refine ⟨post, ?_⟩
  simp only [copyDep, laid_name laid, laid_event laid, if_pos room]
  rw [mem, name, drop_left, take_append, take_of_length_le (by omega),
    show nm.length + 1 + (ev.length + 1) - nm.length = ev.length + 1 + 1 by omega,
    take_succ_cons]

theorem copyDep_behind (behind : d.EventBehindName) :
    ∃ copy, copyDep d = .ok copy ∧ copy.read = d.read := by
  obtain ⟨post, copied⟩ := copyDep_laid laid
  obtain rfl := (behind_iff laid).1 behind
  refine ⟨_, copied, ?_⟩
  have event : ([] ++ (ev ++ nul :: post)).take (ev.length + 1) = ev ++ nul :: [] := by
    rw [nil_append, take_append, take_of_length_le (Nat.le_succ _), Nat.add_sub_cancel_left]
    rfl
  have copy : DepImage.Laid ⟨nm ++ nul :: (ev ++ nul :: []), 0, nm.length + 1⟩ nm [] ev :=
    ⟨⟨[], [], rfl, rfl, by simp⟩, laid.name, laid.event, laid.blanks⟩
  rw [event, read_dep copy, read_dep laid]

/-- With blanks between them, the terminator of the event is not copied. -/
theorem copyDep_apart (apart : ¬d.EventBehindName) {copy : DepImage} (copied : copyDep d = .ok copy)
    : copy.read = none := by
  rw [behind_iff laid] at apart
  obtain ⟨post, copied'⟩ := copyDep_laid laid
  rw [copied] at copied'
  cases copied'
  have short : ev.length + 1 ≤ (blanks ++ ev).length := by
    have some := length_pos_of_ne_nil apart
    rw [length_append]
    omega
  have unterminated : nul ∉ (blanks ++ (ev ++ nul :: post)).take (ev.length + 1) := by
    intro mem
    rw [← append_assoc, take_append_of_le_length short] at mem
    rcases List.mem_append.1 (mem_of_mem_take mem) with mem | mem
    · exact absurd (laid.blanks nul mem) (by decide)
    · exact laid.event mem
  have event : stringAt (nm ++ nul :: (blanks ++ (ev ++ nul :: post)).take (ev.length + 1))
      (nm.length + 1) = none := by
    unfold stringAt
    rw [if_neg]
    rwa [append_cons, show nm.length + 1 = (nm ++ [nul]).length by simp, drop_left]
  simp only [DepImage.read, event]
  cases stringAt _ 0 <;> rfl

theorem copies_unread (apart : ¬d.EventBehindName) (mem : d ∈ ds) (made : ds.mapM copyDep = .ok cs)
    : cs.mapM DepImage.read = none := by
  obtain ⟨y, there, ok⟩ := Collect.mapM_copied_mem made mem
  exact Collect.mapM_none_iff.2 ⟨y, there, copyDep_apart laid apart ok⟩

end Laid

theorem copies_read_iff (laid : ∀ d ∈ ds, ∃ nm blanks ev, d.Laid nm blanks ev)
    (made : ds.mapM copyDep = .ok cs) {deps : List TaskDep} :
    cs.mapM DepImage.read = some deps ↔
      (∀ d ∈ ds, d.EventBehindName) ∧ ds.map DepImage.dep = deps := by
  have reads : ds.mapM DepImage.read = some (ds.map DepImage.dep) := by
    rw [Collect.mapM_some_iff, List.forall₂_map_right_iff, List.forall₂_same]
    intro d mem
    obtain ⟨nm, blanks, ev, here⟩ := laid d mem
    rw [read_dep here, laid_dep here]
  by_cases behind : ∀ d ∈ ds, d.EventBehindName
  · obtain ⟨cs', made', same⟩ := Collect.mapM_faithful fun d mem => by
      obtain ⟨nm, blanks, ev, here⟩ := laid d mem
      exact copyDep_behind here (behind d mem)
    cases made.symm.trans made'
    rw [same, reads, Option.some.injEq, and_iff_right behind]
  · rw [not_forall₂] at behind
    obtain ⟨d, mem, apart⟩ := behind
    obtain ⟨nm, blanks, ev, here⟩ := laid d mem
    rw [copies_unread here apart mem made]
    exact ⟨nofun, fun all => absurd (all.1 d mem) apart⟩

end Dependencies

theorem raw_elements (es : EnvSet) : Slots.elements es.raw.slots = some es.envp := by
  have room := es.room
  obtain ⟨free, spare⟩ : ∃ free, es.allocSz - es.envp.length = free + 1 :=
    ⟨es.allocSz - es.envp.length - 1, by omega⟩
  rw [EnvSet.raw, spare, Slots.elements_ofList]

theorem envSetDup_raw (es : EnvSet) : envSetDup es.raw = .ok es.raw := by
  have room := es.room
  have copied := @Slots.copy_ofList _ es.envp (es.allocSz - es.envp.length) (fun _ => true) []
    (by omega) es.allocSz (by omega)
  rw [if_pos fun _ _ => rfl, length_nil, nil_append] at copied
  have empty : List.replicate es.allocSz none =
      Slots.ofList ([] : List (List Char)) es.allocSz := rfl
  simp only [envSetDup, RawEnvSet.dup, envSetInit, EnvSet.raw, if_true, empty, copied,
    Option.map_some]

section Copies

variable {im : TaskImage EnvSet Cgroup} {run : TaskRun}

theorem bind_ok_iff {A B E : Type} {x : Except E A} {f : A → Except E B} {b : B} :
    x >>= f = .ok b ↔ ∃ a, x = .ok a ∧ f a = .ok b := by
  cases x with
  | error e =>
    constructor
    · intro failed
      cases failed
    · rintro ⟨a, failed, -⟩
      cases failed
  | ok a =>
    constructor
    · exact fun rest => ⟨a, rfl, rest⟩
    · rintro ⟨_, ⟨⟩, rest⟩
      exact rest

theorem taskCopy_iff {orig copy : TaskImage RawEnvSet Cgroup} : taskCopy orig = .ok copy ↔
    ∃ name cmds stopCmds taskEnv elosFilters deps trig, orig.name = some name ∧
      orig.cmds.mapM copyCommand = .ok cmds ∧ orig.stopCmds.mapM copyCommand = .ok stopCmds ∧
      envSetDup orig.taskEnv = .ok taskEnv ∧ envSetDup orig.elosFilters = .ok elosFilters ∧
      orig.deps.mapM copyDep = .ok deps ∧ orig.trig.mapM copyDep = .ok trig ∧
      { orig with
        name := some name, cmds := cmds, stopCmds := stopCmds, taskEnv := taskEnv,
        elosFilters := elosFilters, deps := deps, trig := trig } = copy := by
  have named : ∀ name, dupName orig.name = .ok name ↔ orig.name = some name := by
    intro name
    cases orig.name <;> simp [dupName]
  simp only [taskCopy, bind_ok_iff, named]
  constructor
  · rintro ⟨name, h1, cmds, h2, stopCmds, h3, taskEnv, h4, elosFilters, h5, deps, h6, trig, h7, ok⟩
    exact ⟨name, cmds, stopCmds, taskEnv, elosFilters, deps, trig, h1, h2, h3, h4, h5, h6, h7,
      Except.ok.inj ok⟩
  · rintro ⟨name, cmds, stopCmds, taskEnv, elosFilters, deps, trig, h1, h2, h3, h4, h5, h6, h7, rfl⟩
    exact ⟨name, h1, cmds, h2, stopCmds, h3, taskEnv, h4, elosFilters, h5, deps, h6, trig, h7, rfl⟩

theorem content_laid (laid : im.WellLaid) (run : TaskRun) :
    ∃ content, (im.atRun run).content = some content := by
  have cmd : ∀ cmd ∈ im.cmds ++ im.stopCmds, ∃ content, cmd.read = some content := by
    intro cmd mem
    obtain ⟨offsets, here⟩ := laid.cmds cmd mem
    obtain ⟨texts, found⟩ := Collect.mapM_all here.strings
    obtain ⟨argc, argv, bytes⟩ := cmd
    obtain rfl := here.argv
    exact ⟨_, read_laid found⟩
  have dep : ∀ d ∈ im.deps ++ im.trig, ∃ content, d.read = some content := by
    intro d mem
    obtain ⟨nm, blanks, ev, here⟩ := laid.deps d mem
    exact ⟨_, read_dep here⟩
  obtain ⟨cmds, readCmds⟩ := Collect.mapM_all fun c mem => cmd c (mem_append_left _ mem)
  obtain ⟨stopCmds, readStop⟩ := Collect.mapM_all fun c mem => cmd c (mem_append_right _ mem)
  obtain ⟨deps, readDeps⟩ := Collect.mapM_all fun d mem => dep d (mem_append_left _ mem)
  obtain ⟨trig, readTrig⟩ := Collect.mapM_all fun d mem => dep d (mem_append_right _ mem)
  simp only [TaskImage.content, TaskImage.atRun, readCmds, readStop, readDeps, readTrig,
    raw_elements, Option.bind_eq_bind, Option.bind_some]
  exact ⟨_, rfl⟩

theorem copy_of_copyable (laid : im.WellLaid) (copyable : im.Copyable) (run : TaskRun)
    {name : String} (named : im.name = some name) :
    ∃ copy, taskCopy (im.atRun run) = .ok copy ∧ copy.content = (im.atRun run).content := by
  have cmd : ∀ cmd ∈ im.cmds ++ im.stopCmds, ∃ copy, copyCommand cmd = .ok copy ∧
      copy.read = cmd.read := by
    intro cmd mem
    obtain ⟨offsets, here⟩ := laid.cmds cmd mem
    obtain ⟨copy, content, copied, reads, reads'⟩ := copyCommand_laid here (copyable.cmds cmd mem)
    exact ⟨copy, copied, reads'.trans reads.symm⟩
  have dep : ∀ d ∈ im.deps ++ im.trig, ∃ copy, copyDep d = .ok copy ∧ copy.read = d.read := by
    intro d mem
    obtain ⟨nm, blanks, ev, here⟩ := laid.deps d mem
    exact copyDep_behind here (copyable.deps d mem)
  obtain ⟨cmds, copyCmds, readCmds⟩ :=
    Collect.mapM_faithful fun c mem => cmd c (mem_append_left _ mem)
  obtain ⟨stopCmds, copyStop, readStop⟩ :=
    Collect.mapM_faithful fun c mem => cmd c (mem_append_right _ mem)
  obtain ⟨deps, copyDeps, readDeps⟩ :=
    Collect.mapM_faithful fun d mem => dep d (mem_append_left _ mem)
  obtain ⟨trig, copyTrig, readTrig⟩ :=
    Collect.mapM_faithful fun d mem => dep d (mem_append_right _ mem)
  refine ⟨_, taskCopy_iff.2 ⟨name, cmds, stopCmds, im.taskEnv.raw, im.elosFilters.raw, deps, trig,
    named, copyCmds, copyStop, envSetDup_raw _, envSetDup_raw _, copyDeps, copyTrig, rfl⟩, ?_⟩
  simp only [TaskImage.content, TaskImage.atRun, readCmds, readStop, readDeps, readTrig, named]

/-- A command without arguments stops the copy, and an event apart from its name is not to be read
in it. -/
theorem copyable_of_faithful (laid : im.WellLaid) (faithful : CopiesFaithfully (im.atRun run)) :
    im.Copyable := by
  obtain ⟨copy, content, copied, -, reads⟩ := faithful
  obtain ⟨name, cmds, stopCmds, taskEnv, elosFilters, deps, trig, -, copyCmds, copyStop, -, -,
    copyDeps, copyTrig, rfl⟩ := taskCopy_iff.1 copied
  constructor
  · intro cmd mem none
    have failed := copyCommand_empty none
    rcases List.mem_append.1 mem with mem | mem
    · obtain ⟨y, -, ok⟩ := Collect.mapM_copied_mem copyCmds mem
      cases ok.symm.trans failed
    · obtain ⟨y, -, ok⟩ := Collect.mapM_copied_mem copyStop mem
      cases ok.symm.trans failed
  · have read : (∃ bs, deps.mapM DepImage.read = some bs) ∧
        ∃ bs, trig.mapM DepImage.read = some bs := by
      simp only [TaskImage.content, Option.bind_eq_bind, Option.bind_eq_some_iff] at reads
      obtain ⟨-, -, -, -, ds, readDeps, ts, readTrig, -⟩ := reads
      exact ⟨⟨ds, readDeps⟩, ts, readTrig⟩
    intro d mem
    by_contra apart
    obtain ⟨nm, blanks, ev, here⟩ := laid.deps d mem
    rcases List.mem_append.1 mem with mem | mem
    · obtain ⟨bs, found⟩ := read.1
      cases found.symm.trans (copies_unread here apart mem copyDeps)
    · obtain ⟨bs, found⟩ := read.2
      cases found.symm.trans (copies_unread here apart mem copyTrig)

theorem faithful_iff {name : String} (laid : im.WellLaid) (named : im.name = some name) :
    CopiesFaithfully (im.atRun run) ↔ im.Copyable := by
  constructor
  · exact copyable_of_faithful laid
  · intro copyable
    obtain ⟨content, reads⟩ := content_laid laid run
    obtain ⟨copy, copied, same⟩ := copy_of_copyable laid copyable run named
    exact ⟨copy, content, copied, reads, same.trans reads⟩

end Copies

/-! ### The copy in the TaskDB -/

section Stored

variable {im : TaskImage EnvSet Cgroup}

def TaskImage.insertion (im : TaskImage EnvSet Cgroup) (env : InsertEnv) : InsertEnv :=
  { env with eventsBehind := decide (∀ d ∈ im.deps ++ im.trig, d.EventBehindName) }

theorem args_isEmpty {cmd : CmdImage} {offsets : List Nat} (laid : cmd.Laid offsets) :
    cmd.args.isEmpty = decide (cmd.argc = 0) := by
  rw [CmdImage.args, laid.argv, laid.argc, filterMap_append]
  cases offsets <;> rfl

theorem hasArguments_iff (laid : im.WellLaid) (now : Timespec) :
    (im.draft.newTask now).task.hasArguments = true ↔
      ∀ cmd ∈ im.cmds ++ im.stopCmds, cmd.argc ≠ 0 := by
  change ((im.cmds.map CmdImage.args ++ im.stopCmds.map CmdImage.args).all _) = true ↔ _
  rw [← map_append, all_map, List.all_eq_true]
  refine forall₂_congr fun cmd mem => ?_
  obtain ⟨offsets, here⟩ := laid.cmds cmd mem
  simp [args_isEmpty here]

/-- The TaskDB is intact behind the copy exactly if the task copied in memory reads like the
original. -/
theorem copied_faithful_iff {db : TaskDB} {insert : InsertEnv} {run : TaskRun} {now : Timespec}
    {name : String} (laid : im.WellLaid) (named : im.name = some name)
    (intact : db.corrupt = false) (memory : insert.copyOk = true) :
    (db.copied (im.draft.newTask now).task (im.insertion insert)).db.corrupt = false ↔
      CopiesFaithfully (im.atRun run) := by
  have memory' : (im.insertion insert).copyOk = true := memory
  rw [faithful_iff laid named, copied_corrupt, intact, Bool.false_or, Bool.not_eq_false',
    InsertEnv.copies, memory', Bool.true_and, Bool.and_eq_true, hasArguments_iff laid,
    TaskImage.insertion, decide_eq_true_iff]
  exact ⟨fun both => ⟨both.1, both.2⟩, fun both => ⟨both.cmds, both.deps⟩⟩

end Stored

theorem createImage_laid {env : ConfEnv EnvSet IoRedir Cgroup} {c : ConfList} {pool : TimerDB}
    {b : ImageBuild EnvSet Cgroup} (created : createImage env c pool = .ok b) :
    b.image.WellLaid ∧ ∃ name, b.image.name = some name := by
  constructor
  · have stands := createImage_stands env c pool
    rw [created] at stands
    generalize taskCreateFromConfKvList env c pool = v at stands
    cases stands with
    | ok stands => exact stands.2
  · unfold createImage at created
    split at created
    · cases created
    · split_ifs at created with unnamed
      cases created
      exact Option.ne_none_iff_exists'.1 unnamed

/-- A task that the handlers build, at any time of its life, is copied and reads like its copy if
and only if no command is empty and every event stands right behind its name. -/
theorem task_copy_faithful_iff (env : ConfEnv EnvSet IoRedir Cgroup) (c : ConfList)
    (pool : TimerDB) {b : ImageBuild EnvSet Cgroup} (created : createImage env c pool = .ok b)
    (run : TaskRun) : CopiesFaithfully (b.image.atRun run) ↔ b.image.Copyable := by
  obtain ⟨laid, name, named⟩ := createImage_laid created
  exact faithful_iff laid named

def imageConf : ConfEnv EnvSet IoRedir String where
  users := userFile
  groups := groupFile
  capFromName := capNumber
  envSetMember := fun es val => match confConvToEnvSetMember {} es val.toList with
    | some (0, es) => some es
    | _ => none
  ioRedir := confConvToIoRedir 0
  cgroupName := fun _ name => some name
  cgroupParams := fun cgroup _ => cgroup
  inclDir := "/etc/crinit"
  inclSuffix := ".crincl"
  parse := fun _ => none
  globEnv := .empty
  globFilters := .empty

def sshdTask : List ConfKv :=
  [⟨"NAME", "sshd"⟩, ⟨"COMMAND", "/usr/sbin/sshd \"-o a\\ b\""⟩, ⟨"DEPENDS", "net:wait keys:wait"⟩,
   ⟨"GROUP", "users audio"⟩, ⟨"IO_REDIRECT", "STDOUT /var/log/sshd APPEND"⟩]

theorem sshd_copied : ∃ b, createImage imageConf (.entries sshdTask) {} = .ok b ∧
    b.image.Copyable ∧ CopiesFaithfully (b.image.atRun b.image.run) := by
  obtain ⟨b, created, copyable⟩ : ∃ b, createImage imageConf (.entries sshdTask) {} = .ok b ∧
      b.image.Copyable := ⟨_, rfl, by decide, by decide⟩
  exact ⟨b, created, copyable,
    (task_copy_faithful_iff imageConf (.entries sshdTask) {} created b.image.run).2 copyable⟩

def blankEvent : List ConfKv :=
  [⟨"NAME", "sshd"⟩, ⟨"COMMAND", "/usr/sbin/sshd"⟩, ⟨"DEPENDS", "net:\\ wait"⟩]

def emptyCommand : List ConfKv := [⟨"NAME", "sshd"⟩, ⟨"COMMAND", ""⟩]

/-- The event of a copied dependency has no end, and a task with an empty COMMAND is not copied. -/
theorem copy_unfaithful :
    (∃ b, createImage imageConf (.entries blankEvent) {} = .ok b ∧
      ¬CopiesFaithfully (b.image.atRun b.image.run)) ∧
    ∃ b, createImage imageConf (.entries emptyCommand) {} = .ok b ∧
      ¬CopiesFaithfully (b.image.atRun b.image.run) := by
  refine ⟨⟨_, rfl, ?_⟩, _, rfl, ?_⟩
  · rintro ⟨copy, content, copied, -, reads⟩
    cases copied
    cases reads
  · rintro ⟨copy, content, copied, -⟩
    cases copied

end Crinit
