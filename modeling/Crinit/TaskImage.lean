import Crinit.ArgvBuffer
import Crinit.EnvSet
import Crinit.IoRedirect
import Crinit.TaskLoop

/-! A task in memory: a command is one buffer for all its arguments and pointers into it, a
dependency is a copy of its text that `strtok_r` has cut. -/
namespace Crinit

open CText List

/-! ### Commands and dependencies -/

/-- `crinitTaskCmd_t`: the pointers as offsets in the buffer they point into. -/
structure CmdImage where
  argc : Nat
  argv : List (Option Nat)
  mem : List Char
  deriving DecidableEq, Repr

def CmdImage.ofStrArr (r : StrArr) : CmdImage := ⟨r.numElements, r.outArr, r.buf.mem⟩

def CmdImage.args (cmd : CmdImage) : List String :=
  (cmd.argv.filterMap id).map fun off => terminated (cmd.mem.drop off)

/-- `crinitTaskDep_t`, with the memory that both pointers point into. -/
structure DepImage where
  mem : List Char
  name : Nat
  event : Nat
  deriving DecidableEq, Repr

def DepImage.dep (d : DepImage) : TaskDep :=
  ⟨String.ofList (textAt d.mem d.name), String.ofList (textAt d.mem d.event)⟩

def depImage (text : String) : Option DepImage := do
  let (name, mem, save) ← CText.strtok ':' (text.toList ++ [nul]) 0
  let (event, mem, _) ← CText.strtok ' ' mem save
  return ⟨mem, name, event⟩

structure TaskRun where
  triggered : Bool := false
  state : TaskState := stateLoaded
  pid : Int := -1
  failCount : Int := 0
  inhibitRespawn : Bool := false
  createTime : Timespec := {}
  startTime : Timespec := {}
  endTime : Timespec := {}
  deriving DecidableEq, Repr

structure TaskImage (Env Cgroup : Type) where
  name : Option String := none
  cmds : List CmdImage := []
  stopCmds : List CmdImage := []
  deps : List DepImage := []
  trig : List DepImage := []
  prv : List TaskPrv := []
  opts : TaskOpts := 0#64
  maxRetries : Int := -1
  taskEnv : Env
  elosFilters : Env
  redirs : List IoRedir := []
  creds : Credentials := {}
  capabilitiesSet : BitVec 64 := 0#64
  capabilitiesClear : BitVec 64 := 0#64
  cgroup : Option Cgroup := none
  run : TaskRun := {}

variable {Env Cgroup : Type}

def TaskImage.draft (im : TaskImage Env Cgroup) : TaskDraft Env IoRedir Cgroup where
  name := im.name
  cmds := im.cmds.map CmdImage.args
  stopCmds := im.stopCmds.map CmdImage.args
  deps := im.deps.map DepImage.dep
  trig := im.trig.map DepImage.dep
  prv := im.prv
  opts := im.opts
  maxRetries := im.maxRetries
  taskEnv := im.taskEnv
  elosFilters := im.elosFilters
  redirs := im.redirs
  creds := im.creds
  capabilitiesSet := im.capabilitiesSet
  capabilitiesClear := im.capabilitiesClear
  cgroup := im.cgroup

def TaskImage.update (im : TaskImage Env Cgroup) (d : TaskDraft Env IoRedir Cgroup) :
    TaskImage Env Cgroup :=
  { im with
    name := d.name, prv := d.prv, opts := d.opts, maxRetries := d.maxRetries,
    taskEnv := d.taskEnv, elosFilters := d.elosFilters, redirs := d.redirs, creds := d.creds,
    capabilitiesSet := d.capabilitiesSet, capabilitiesClear := d.capabilitiesClear,
    cgroup := d.cgroup }

structure ImageBuild (Env Cgroup : Type) where
  image : TaskImage Env Cgroup
  pool : TimerDB

def ImageBuild.value (b : ImageBuild Env Cgroup) : Build Env IoRedir Cgroup :=
  ⟨b.image.draft, b.pool⟩

section Handlers

variable (env : ConfEnv Env IoRedir Cgroup)

def cmdImage (val : String) : Option CmdImage :=
  (confConvToStrArrBuf val.toList true).map CmdImage.ofStrArr

structure DepImages where
  ret : Int
  list : List DepImage
  pool : TimerDB

def depImageLoop (enableElos : Bool) : List DepEntry → List DepImage → TimerDB → DepImages
  | [], list, p => ⟨0, list, p⟩
  | d :: ds, list, p =>
    if !d.strdupOk then ⟨-1, list, p⟩
    else match depImage d.text with
      | none => ⟨-1, list, p⟩
      | some im =>
        let p := if im.dep.name = timerDepName then addTimer d.sys im.dep.event p else p
        if !enableElos && im.dep.name = elosDepName then ⟨-1, list, p⟩
        else depImageLoop enableElos ds (list ++ [im]) p

def depImages (val : String) (list : List DepImage) (p : TimerDB) : DepImages :=
  match depEntries env.toHandlerEnv val with
  | none => ⟨-1, list, p⟩
  | some ds => depImageLoop env.enableElos ds list p

def imageHandle (key : TaskKey) (val : String) (b : ImageBuild Env Cgroup) :
    Except BuildStop (ImageBuild Env Cgroup) :=
  match key with
  | .command =>
    match cmdImage val with
    | none => .error (.failed b.pool)
    | some cmd => .ok { b with image := { b.image with cmds := b.image.cmds ++ [cmd] } }
  | .stopCommand =>
    match cmdImage val with
    | none => .error (.failed b.pool)
    | some cmd => .ok { b with image := { b.image with stopCmds := b.image.stopCmds ++ [cmd] } }
  | .depends =>
    let r := depImages env val b.image.deps b.pool
    if r.ret = -1 then .error (.failed r.pool) else .ok ⟨{ b.image with deps := r.list }, r.pool⟩
  | .trigger =>
    let r := depImages env val b.image.trig b.pool
    if r.ret = -1 then .error (.failed r.pool) else .ok ⟨{ b.image with trig := r.list }, r.pool⟩
  | key => (handlePlain env key val b.value).map fun v => ⟨b.image.update v.draft, v.pool⟩

def imageTask : Representation (ImageBuild Env Cgroup) BuildStop where
  handle := imageHandle env
  failed := fun b => .failed b.pool
  undefined := fun _ => .undefined

def createImage (c : ConfList) (pool : TimerDB) : Except BuildStop (ImageBuild Env Cgroup) :=
  match (imageTask env).fill env.inclFiles c
      ⟨{ taskEnv := env.globEnv, elosFilters := env.globFilters }, pool⟩ with
  | .error stop => .error stop
  | .ok b =>
    if b.image.name = none then .error (.failed b.pool)
    else if b.image.cmds = [] ∧ b.image.deps = [] then .error (.failed b.pool)
    else .ok { b with image := { b.image with
      run := { triggered := b.image.trig.isEmpty, createTime := env.now } } }

end Handlers

/-! ### How a command is laid out -/

structure CmdImage.Laid (cmd : CmdImage) (offsets : List Nat) : Prop where
  argv : cmd.argv = offsets.map some ++ [none]
  argc : cmd.argc = offsets.length
  order : offsets.Pairwise (· < ·)
  strings : ∀ off ∈ offsets, ∃ text, stringAt cmd.mem off = some text

section Command

variable {turns : Nat} {dq : Bool} {b : Logged}

theorem copyEscapedLoop_runner {runner s : Nat} {r : Logged × Nat}
    (copied : copyEscapedLoop turns b runner s = some r) : runner ≤ r.2 := by
  induction turns generalizing b runner s with
  | zero => cases copied
  | succ turns ih =>
    rw [copyEscapedLoop] at copied
    split at copied
    · cases copied
    · cases copied
      exact Nat.le_refl _
    · exact Nat.le_of_succ_le (ih copied)
    · exact Nat.le_of_succ_le (ih copied)
    · exact Nat.le_of_succ_le (ih copied)

def CopyState.Ascending (st : CopyState) : Prop :=
  ∃ offsets : List Nat, st.outArr.take st.argc = offsets.map some ∧ offsets.Pairwise (· < ·) ∧
    ∀ off ∈ offsets, off < st.runner

theorem store_ascending {st st' : CopyState} {text : List Char}
    (stored : st.store text = some st') (ascending : st.Ascending) : st'.Ascending := by
  obtain ⟨r, copied, rfl⟩ := Option.map_eq_some_iff.1 stored
  obtain ⟨offsets, taken, order, below⟩ := ascending
  have further : st.runner ≤ r.2 := copyEscapedLoop_runner copied
  by_cases room : st.argc < st.outArr.length
  · refine ⟨offsets ++ [st.runner], ?_, ?_, ?_⟩
    · rw [take_add_one, take_set_of_le (Nat.le_refl _), taken,
        getElem?_set_self room]
      simp
    · rw [pairwise_append]
      exact ⟨order, pairwise_singleton _ _, fun off mem other last =>
        List.mem_singleton.1 last ▸ below off mem⟩
    · intro off mem
      rcases List.mem_append.1 mem with mem | mem
      · exact Nat.lt_succ_of_le (Nat.le_trans (Nat.le_of_lt (below off mem)) further)
      · rw [List.mem_singleton.1 mem]
        exact Nat.lt_succ_of_le further
  · refine ⟨offsets, ?_, order, fun off mem =>
      Nat.lt_succ_of_le (Nat.le_trans (Nat.le_of_lt (below off mem)) further)⟩
    have whole : st.outArr.take st.argc = st.outArr :=
      take_of_length_le (Nat.le_of_not_lt room)
    dsimp only
    rw [set_eq_of_length_le (Nat.le_of_not_lt room),
      take_of_length_le (Nat.le_succ_of_le (Nat.le_of_not_lt room)), ← whole, taken]

theorem copyPass_ascending {s : List Char} {st : CopyState} {r : List ArgvToken × CopyState}
    (copied : copyPass dq turns s st = some r) (ascending : st.Ascending) : r.2.Ascending := by
  induction turns generalizing s st r with
  | zero => cases copied
  | succ turns ih =>
    rw [copyPass] at copied
    split at copied
    · cases copied
    · cases copied
      exact ascending
    · obtain ⟨r', later, rfl⟩ := Option.map_eq_some_iff.1 copied
      have done := ih later ascending
      exact done
    -- quoted or not, a string is stored behind those before it
    all_goals
      obtain ⟨st', stored, rest⟩ := Option.bind_eq_some_iff.1 copied
      obtain ⟨r', later, rfl⟩ := Option.map_eq_some_iff.1 rest
      have done := ih later (store_ascending stored ascending)
      exact done

theorem offsets_ascend {confVal : List Char} {r : StrArr}
    (converted : confConvToStrArrBuf confVal dq = some r) :
    ∃ offsets : List Nat, r.outArr.take r.numElements = offsets.map some ∧
      offsets.Pairwise (· < ·) := by
  unfold confConvToStrArrBuf at converted
  cases counted : countPass dq (confVal.length + 1) confVal with
  | none =>
    rw [counted] at converted
    cases converted
  | some toks =>
    rw [counted] at converted
    dsimp only at converted
    split_ifs at converted with empty
    · cases converted
      exact ⟨[], by rw [empty]; rfl, .nil⟩
    · split at converted
      · cases converted
      · rename_i copied st pass
        split_ifs at converted with count
        cases converted
        obtain ⟨offsets, taken, order, -⟩ :=
          copyPass_ascending pass ⟨[], rfl, .nil, fun _ mem => absurd mem not_mem_nil⟩
        rw [not_not] at count
        exact ⟨offsets, count ▸ taken, order⟩

theorem stored_stringAt {mem out : List Char} {off : Nat} (stored : Stored mem off out) :
    ∃ text, stringAt mem off = some text := by
  obtain ⟨before, after, rfl, rfl⟩ := stored
  unfold stringAt
  rw [drop_left, if_pos (by simp)]
  exact ⟨_, rfl⟩

theorem cmdImage_laid {val : String} {cmd : CmdImage} (made : cmdImage val = some cmd) :
    ∃ offsets, cmd.Laid offsets := by
  obtain ⟨r, converted, rfl⟩ := Option.map_eq_some_iff.1 made
  obtain ⟨-, -, ⟨offsets, outs, outArr, count, stored, -⟩, -⟩ := converted_fits converted
  obtain ⟨offsets', taken, order⟩ := offsets_ascend converted
  have same : offsets' = offsets := by
    have all : (offsets.map some ++ [none]).take offsets.length = offsets.map some :=
      take_left' (length_map some)
    rw [outArr, ← count, all] at taken
    exact ((List.map_inj_right fun _ _ => Option.some.inj).1 taken).symm
  refine ⟨offsets, outArr, count.symm, same ▸ order, fun off mem => ?_⟩
  obtain ⟨out, -, here⟩ := Collect.forall₂_left stored mem
  exact stored_stringAt here

theorem cmdImage_args (val : String) :
    (cmdImage val).map CmdImage.args = confConvToStrArr val true := by
  rw [← confConvToStrArrBuf_strings, cmdImage, Option.map_map]
  rfl

end Command

/-! ### How a dependency is laid out -/

structure DepImage.Laid (d : DepImage) (nm blanks ev : List Char) : Prop where
  mem : ∃ pre post, d.mem = pre ++ (nm ++ nul :: (blanks ++ (ev ++ nul :: post))) ∧
    d.name = pre.length ∧ d.event = pre.length + nm.length + 1 + blanks.length
  name : nul ∉ nm
  event : nul ∉ ev
  blanks : ∀ c ∈ blanks, c = ' '

section Dependency

variable {d : DepImage} {nm blanks ev : List Char}

theorem laid_name (laid : d.Laid nm blanks ev) : stringAt d.mem d.name = some nm := by
  obtain ⟨pre, post, mem, name, -⟩ := laid.mem
  rw [mem, name]
  exact stringAt_stored pre _ laid.name

theorem laid_event (laid : d.Laid nm blanks ev) : stringAt d.mem d.event = some ev := by
  obtain ⟨pre, post, mem, -, event⟩ := laid.mem
  have stored := stringAt_stored (pre ++ (nm ++ nul :: blanks)) post laid.event
  have place : (pre ++ (nm ++ nul :: blanks)).length = d.event := by
    rw [event]
    simp only [length_append, length_cons]
    omega
  rw [place] at stored
  rw [mem, ← stored]
  simp

theorem stringAt_textAt {mem text : List Char} {off : Nat} (found : stringAt mem off = some text) :
    textAt mem off = text := by
  unfold stringAt at found
  split_ifs at found
  exact Option.some.inj found

theorem laid_dep (laid : d.Laid nm blanks ev) : d.dep = ⟨String.ofList nm, String.ofList ev⟩ := by
  rw [DepImage.dep, stringAt_textAt (laid_name laid), stringAt_textAt (laid_event laid)]

/-- The memory of an entry holds what `parseDep` reads in it. -/
theorem depImage_parses {text : String} (plain : nul ∉ text.toList) :
    (parseDep text = none ∧ depImage text = none) ∨
    ∃ d nm blanks ev rest, depImage text = some d ∧ d.Laid nm blanks ev ∧
      parseDep text = some ⟨String.ofList nm, String.ofList ev⟩ ∧
      strtokR ':' text.toList = some (nm, rest) ∧ (rest.head? = some ' ' ↔ blanks ≠ []) := by
  unfold parseDep depImage
  rcases strtok_cuts ':' (by decide) plain [] [] with
    ⟨none, stop⟩ | ⟨lead, nm, rest, pre, first⟩
  · rw [none]
    rw [nil_append, length_nil] at stop
    rw [stop]
    exact .inl ⟨rfl, rfl⟩
  · have call := first.call
    rw [nil_append, length_nil] at call
    rw [first.text, call]
    simp only [Option.bind_eq_bind, Option.bind_some]
    rcases strtok_cuts ' ' (by decide) first.plain pre [] with
      ⟨none, stop⟩ | ⟨blanks, ev, rest', pre', second⟩
    · rw [none, stop]
      exact .inl ⟨rfl, rfl⟩
    · have more : rest ≠ [] := by
        rintro rfl
        have text := second.text
        rw [strtokR_nil] at text
        cases text
      obtain ⟨post, mem⟩ := second.behind
      rw [second.text, second.call, mem, first.more more]
      refine .inr ⟨_, nm, blanks, ev, rest, rfl, ⟨⟨lead, post, ?_, ?_, ?_⟩, ?_, ?_, ?_⟩, rfl, rfl,
        second.head⟩
      · simp
      · simp
      · simp [Nat.add_assoc]
      · exact fun mem => (first.token.inside nul mem).2 rfl
      · exact fun mem => (second.token.inside nul mem).2 rfl
      · exact second.token.skipped

structure DepImages.Shows (r : DepImages) (v : DepList) : Prop where
  ret : r.ret = v.ret
  list : r.list.map DepImage.dep = v.list
  pool : r.pool = v.pool
  laid : ∀ d ∈ r.list, ∃ nm blanks ev, d.Laid nm blanks ev

theorem depImageLoop_shows (enableElos : Bool) {ds : List DepEntry}
    (plain : ∀ d ∈ ds, nul ∉ d.text.toList) {list : List DepImage}
    (laid : ∀ d ∈ list, ∃ nm blanks ev, d.Laid nm blanks ev) (p : TimerDB) :
    (depImageLoop enableElos ds list p).Shows
      (depListLoop enableElos ds (list.map DepImage.dep) p) := by
  induction ds generalizing list p with
  | nil => exact ⟨rfl, rfl, rfl, laid⟩
  | cons d ds ih =>
    unfold depImageLoop depListLoop
    split_ifs
    · exact ⟨rfl, rfl, rfl, laid⟩
    · rcases depImage_parses (plain d mem_cons_self) with
        ⟨parsed, made⟩ | ⟨im, nm, blanks, ev, -, made, here, parsed, -⟩
      · rw [made, parsed]
        exact ⟨rfl, rfl, rfl, laid⟩
      · rw [made, parsed, ← laid_dep here]
        have further : ∀ d ∈ list ++ [im], ∃ nm blanks ev, d.Laid nm blanks ev := by
          intro d mem
          rcases List.mem_append.1 mem with mem | mem
          · exact laid d mem
          · rw [List.mem_singleton.1 mem]
            exact ⟨nm, blanks, ev, here⟩
        have rest := fun p => ih (fun d mem => plain d (mem_cons_of_mem _ mem)) further p
        simp only [map_append, map_cons, map_nil] at rest
        dsimp only
        generalize (if im.dep.name = timerDepName then addTimer d.sys im.dep.event p else p) = p'
        split_ifs
        · exact ⟨rfl, rfl, rfl, laid⟩
        · exact rest p'

end Dependency

theorem terminated_plain (cs : List Char) : nul ∉ (terminated cs).toList := by
  intro mem
  rw [terminated, String.toList_ofList] at mem
  exact absurd (mem_takeWhile_imp mem) (by decide)

theorem tokens_plain {val : String} {dq : Bool} {toks : List String}
    (split : confConvToStrArr val dq = some toks) : ∀ tok ∈ toks, nul ∉ tok.toList := by
  intro tok mem
  obtain ⟨texts, -, unescaped⟩ := Option.bind_eq_some_iff.1 split
  obtain ⟨text, -, made⟩ := Collect.forall₂_right (Collect.mapM_some_iff.1 unescaped) mem
  obtain ⟨out, -, rfl⟩ := Option.map_eq_some_iff.1 made
  exact terminated_plain out

/-! ### The handlers on memory and on values -/

structure TaskImage.WellLaid (im : TaskImage Env Cgroup) : Prop where
  cmds : ∀ cmd ∈ im.cmds ++ im.stopCmds, ∃ offsets, cmd.Laid offsets
  deps : ∀ d ∈ im.deps ++ im.trig, ∃ nm blanks ev, d.Laid nm blanks ev

def ImageBuild.Stands (b : ImageBuild Env Cgroup) (v : Build Env IoRedir Cgroup) : Prop :=
  b.value = v ∧ b.image.WellLaid

section Refinement

variable {env : ConfEnv Env IoRedir Cgroup}

theorem depImages_shows (val : String) {list : List DepImage}
    (laid : ∀ d ∈ list, ∃ nm blanks ev, d.Laid nm blanks ev) (p : TimerDB) :
    (depImages env val list p).Shows (depListHandler env.enableElos
      (depEntries env.toHandlerEnv val) true (list.map DepImage.dep) p) := by
  unfold depImages depListHandler
  cases entries : depEntries env.toHandlerEnv val with
  | none => exact ⟨rfl, rfl, rfl, laid⟩
  | some ds =>
    have plain : ∀ d ∈ ds, nul ∉ d.text.toList := by
      intro d mem
      obtain ⟨toks, split, rfl⟩ := Option.map_eq_some_iff.1 entries
      obtain ⟨tok, inside, rfl⟩ := List.mem_map.1 mem
      exact tokens_plain split tok inside
    cases ds with
    | nil => exact ⟨rfl, rfl, rfl, laid⟩
    | cons d ds => exact depImageLoop_shows env.enableElos plain laid p

theorem update_draft {im : TaskImage Env Cgroup} {d : TaskDraft Env IoRedir Cgroup}
    (same : SameBlocks im.draft d) : (im.update d).draft = d := by
  obtain ⟨cmds, stopCmds, deps, trig⟩ := same
  cases d
  simp only [TaskImage.draft, TaskImage.update] at cmds stopCmds deps trig ⊢
  rw [cmds, stopCmds, deps, trig]

theorem stands_update {b : ImageBuild Env Cgroup} (laid : b.image.WellLaid)
    {v : Build Env IoRedir Cgroup} (same : SameBlocks b.image.draft v.draft) :
    ImageBuild.Stands ⟨b.image.update v.draft, v.pool⟩ v := by
  refine ⟨?_, laid.cmds, laid.deps⟩
  rw [ImageBuild.value, update_draft same]

section Blocks

variable {b : ImageBuild Env Cgroup}

theorem command_related (laid : b.image.WellLaid) (val : String) {key : TaskKey}
    (command : key = .command ∨ key = .stopCommand) :
    Related ImageBuild.Stands Eq (imageHandle env key val b) (handlePlain env key val b.value) := by
  have args := cmdImage_args val
  rcases command with rfl | rfl
  all_goals
    simp only [imageHandle, handlePlain, cfgCmdHandler, cfgStopCmdHandler, ← args]
    cases made : cmdImage val with
    | none => exact .error rfl
    | some cmd =>
      refine .ok ⟨by simp [ImageBuild.value, TaskImage.draft], ⟨fun cmd' mem => ?_, laid.deps⟩⟩
      have before := laid.cmds cmd'
      have new := cmdImage_laid made
      simp only [mem_append, mem_singleton] at mem before
      grind

theorem depends_related (laid : b.image.WellLaid) (val : String) :
    Related ImageBuild.Stands Eq (imageHandle env .depends val b)
      (handlePlain env .depends val b.value) := by
  have shows : (depImages env val b.image.deps b.pool).Shows (depListHandler env.enableElos
      (depEntries env.toHandlerEnv val) true b.value.draft.deps b.value.pool) :=
    depImages_shows val (fun d mem => laid.deps d (mem_append_left _ mem)) b.pool
  refine .check (by rw [shows.ret]) (congrArg _ shows.pool) (.ok ⟨?_, laid.cmds, fun d mem => ?_⟩)
  · rw [← shows.pool, ← shows.list]
    rfl
  · rcases List.mem_append.1 mem with mem | mem
    · exact shows.laid d mem
    · exact laid.deps d (mem_append_right _ mem)

theorem trigger_related (laid : b.image.WellLaid) (val : String) :
    Related ImageBuild.Stands Eq (imageHandle env .trigger val b)
      (handlePlain env .trigger val b.value) := by
  have shows : (depImages env val b.image.trig b.pool).Shows (depListHandler env.enableElos
      (depEntries env.toHandlerEnv val) true b.value.draft.trig b.value.pool) :=
    depImages_shows val (fun d mem => laid.deps d (mem_append_right _ mem)) b.pool
  refine .check (by rw [shows.ret]) (congrArg _ shows.pool) (.ok ⟨?_, laid.cmds, fun d mem => ?_⟩)
  · rw [← shows.pool, ← shows.list]
    rfl
  · rcases List.mem_append.1 mem with mem | mem
    · exact laid.deps d (mem_append_left _ mem)
    · exact shows.laid d mem

end Blocks

/-- Every handler does the same to the memory and to the strings and lists. -/
theorem imageTask_simulates (env : ConfEnv Env IoRedir Cgroup) :
    Simulates ImageBuild.Stands Eq (imageTask env) (valueTask env) where
  failed := by
    rintro b _ ⟨rfl, -⟩
    rfl
  undefined := fun _ _ _ => rfl
  handle := by
    rintro key val b _ ⟨rfl, laid⟩
    change Related _ _ (imageHandle env key val b) (handlePlain env key val b.value)
    by_cases block : key.makesBlock = false
    · have plain : imageHandle env key val b = (handlePlain env key val b.value).map
          fun v => ⟨b.image.update v.draft, v.pool⟩ := by
        cases key <;> first | rfl | cases block
      rw [plain]
      cases ok : handlePlain env key val b.value with
      | error stop => exact .error rfl
      | ok v => exact .ok (stands_update laid ((handlePlain_frame ok).blocks block))
    · cases key with
      | command => exact command_related laid val (.inl rfl)
      | stopCommand => exact command_related laid val (.inr rfl)
      | depends => exact depends_related laid val
      | trigger => exact trigger_related laid val
      | _ => exact absurd rfl block

/-- The task in memory is the task as strings and lists. -/
theorem createImage_stands (env : ConfEnv Env IoRedir Cgroup) (c : ConfList) (pool : TimerDB) :
    Related ImageBuild.Stands Eq (createImage env c pool)
      (taskCreateFromConfKvList env c pool) := by
  have start : ImageBuild.Stands (⟨{ taskEnv := env.globEnv, elosFilters := env.globFilters },
      pool⟩ : ImageBuild Env Cgroup)
      ⟨{ taskEnv := env.globEnv, elosFilters := env.globFilters }, pool⟩ :=
    ⟨rfl, fun cmd mem => absurd mem not_mem_nil, fun d mem => absurd mem not_mem_nil⟩
  have filled := fill_related (imageTask_simulates env) env.inclFiles c start
  rw [valueTask_fill] at filled
  unfold createImage taskCreateFromConfKvList
  revert filled
  generalize (imageTask env).fill env.inclFiles c _ = r
  generalize taskSetFromConfKvList (cfgHandler env) c .standard none _ = r'
  intro filled
  cases filled with
  | error same => exact .error same
  | @ok b _ stands =>
    obtain ⟨rfl, laid⟩ := stands
    have empty : b.value.draft.cmds = [] ∧ b.value.draft.deps = [] ↔
        b.image.cmds = [] ∧ b.image.deps = [] := by
      simp [ImageBuild.value, TaskImage.draft]
    exact .check Iff.rfl rfl (.check empty.symm rfl (.ok ⟨rfl, laid.cmds, laid.deps⟩))

end Refinement

end Crinit
