import Crinit.DeepCopy
import Crinit.Includes

/-! The dependencies of a task that ADDTASK creates with dependencies of its own, as they are in the
copy that the TaskDB stores. -/
namespace Crinit

open CText List

/-! ### Where dependencies come from -/

def depTexts (val : String) : List String := (confConvToStrArr val false).getD []

def depsOf (val : String) : List DepImage := (depTexts val).filterMap depImage

theorem depImageLoop_list {enableElos : Bool} {ds : List DepEntry} {list : List DepImage}
    {p : TimerDB} (ok : (depImageLoop enableElos ds list p).ret ≠ -1) :
    (depImageLoop enableElos ds list p).list = list ++
    (ds.map DepEntry.text).filterMap depImage := by
  induction ds generalizing list p with
  | nil => simp [depImageLoop]
  | cons d ds ih =>
    unfold depImageLoop at ok ⊢
    cases made : depImage d.text with
    | none => simp [made] at ok
    | some im =>
      simp only [made] at ok ⊢
      split_ifs at ok ⊢
      all_goals first
        | exact absurd rfl ok
        | rw [ih ok, map_cons, filterMap_cons_some made, append_assoc, singleton_append]

variable {Env Cgroup : Type} {env : ConfEnv Env IoRedir Cgroup} {val : String}

theorem depImages_list {list : List DepImage} {p : TimerDB}
    (ok : (depImages env val list p).ret ≠ -1) :
    (depImages env val list p).list = list ++ depsOf val := by
  unfold depImages depEntries at ok ⊢
  unfold depsOf depTexts
  cases toks : confConvToStrArr val false with
  | none =>
    rw [toks] at ok
    exact absurd rfl ok
  | some toks' =>
    rw [toks] at ok
    dsimp only [Option.map_some] at ok ⊢
    rw [depImageLoop_list ok, Option.getD_some, map_map, Function.comp_def, map_id']

def plainDeps (key : TaskKey) (val : String) : List DepImage :=
  if key = .depends then depsOf val else []

theorem imageHandle_deps {key : TaskKey} {b b' : ImageBuild Env Cgroup}
    (ok : imageHandle env key val b = .ok b') :
    b'.image.deps = b.image.deps ++ plainDeps key val := by
  have other : ∀ v, (handlePlain env key val b.value).map
      (fun v => (⟨b.image.update v.draft, v.pool⟩ : ImageBuild Env Cgroup)) = .ok v →
        v.image.deps = b.image.deps := by
    intro v made
    cases handled : handlePlain env key val b.value with
    | error stop =>
      rw [handled] at made
      cases made
    | ok built =>
      rw [handled] at made
      cases made
      rfl
  unfold plainDeps
  cases key with
  | depends =>
    simp only [imageHandle] at ok
    split_ifs at ok with failed
    cases ok
    exact depImages_list failed
  | command | stopCommand =>
    simp only [imageHandle] at ok
    split at ok
    · cases ok
    · cases ok
      exact (append_nil _).symm
  | trigger =>
    simp only [imageHandle] at ok
    split_ifs at ok
    cases ok
    exact (append_nil _).symm
  | _ => exact (other b' ok).trans (append_nil _).symm

section Lines

variable {B E D : Type} {rep : Representation B E} {deps : B → List D} {files : InclFiles}
  {brings : TaskKey → String → List D} {kvs : List ConfKv} {kv : ConfKv} {b b' : B}

def lineDeps (imported : TaskKey → Bool) (brings : TaskKey → String → List D) (kv : ConfKv) :
    List D :=
  match findConfigMapping kv.key with
  | none => []
  | some m => if imported m.config then brings m.config kv.val else []

/-- What each handler appends, the loop appends line by line. -/
theorem fillLoop_deps {handle : TaskKey → String → B → Except E B} {type : TaskType}
    {imported : TaskKey → Bool} {dupl : List TaskKey}
    (effect : ∀ key val b b', handle key val b = .ok b' → deps b' = deps b ++ brings key val)
    (ok : rep.fillLoop handle type imported dupl kvs b = .ok b') :
    deps b' = deps b ++ kvs.flatMap (lineDeps imported brings) := by
  induction kvs generalizing dupl b with
  | nil =>
    cases ok
    simp
  | cons kv kvs ih =>
    rw [flatMap_cons, lineDeps]
    unfold Representation.fillLoop at ok
    cases found : findConfigMapping kv.key with
    | none =>
      rw [found] at ok
      exact ih ok
    | some m =>
      rw [found] at ok
      dsimp only at ok ⊢
      cases taken : imported m.config with
      | false =>
        simp only [taken, Bool.false_eq_true, if_false] at ok
        split_ifs at ok
        all_goals first
          | cases ok
          | exact ih ok
      | true =>
        simp only [taken, if_true] at ok
        split_ifs at ok
        cases handled : handle m.config kv.val b with
        | error stop =>
          rw [handled] at ok
          cases ok
        | ok b₁ =>
          rw [handled] at ok
          rw [ih ok, effect _ _ _ _ handled, append_assoc, if_pos rfl]

def inclWords (val : String) : Option (String × Option String) :=
  match confConvToStrArr val true with
  | some [src] => some (src, none)
  | some [src, importList] => some (src, some importList)
  | _ => none

def includedDeps (files : InclFiles) (val : String) : List DepImage :=
  match inclWords val with
  | none => []
  | some (src, imports) =>
    match files.parse (files.inclDir ++ "/" ++ src ++ files.inclSuffix) with
    | some (.entries kvs) =>
      kvs.flatMap fun kv => if isImported imports kv && kv.isDepends then depsOf kv.val else []
    | _ => []

def ownDeps (kv : ConfKv) : List DepImage := if kv.isDepends then depsOf kv.val else []

def broughtDeps (files : InclFiles) (kv : ConfKv) : List DepImage :=
  if kv.key = keyInclude then includedDeps files kv.val else []

theorem config_depends : ∀ m ∈ taskCfgMap, m.config = .depends ↔
      m.configKey = keyDepends := by decide

theorem config_incl : ∀ m ∈ taskCfgMap, m.config = .incl ↔ m.configKey = keyInclude := by decide

theorem unknown_key (unknown : findConfigMapping kv.key = none) :
    ∀ m ∈ taskCfgMap, kv.key ≠ m.configKey := by
  intro m mem same
  have missed := List.find?_eq_none.1 unknown m mem
  simp [same] at missed

theorem unknown_isDepends (unknown : findConfigMapping kv.key = none) : kv.isDepends = false :=
  decide_eq_false (unknown_key unknown ⟨.depends, keyDepends, true, true⟩ (by decide))

theorem known_isDepends {m : ConfigMapping} (found : findConfigMapping kv.key = some m) :
    kv.isDepends = decide (m.config = .depends) := by
  obtain ⟨mem, key⟩ := mapping_mem found
  rw [ConfKv.isDepends, ← key, decide_eq_decide]
  exact (config_depends m mem).symm

theorem includeHandler_eq (val : String) (b : B) :
    rep.includeHandler files val b = (inclWords val).elim (.error (rep.failed b))
      fun words => rep.mergeInclude files words.1 words.2 b := by
  unfold Representation.includeHandler inclWords
  rcases confConvToStrArr val true with _ | _ | ⟨src, _ | ⟨importList, _ | _⟩⟩ <;> rfl

theorem merge_ok {src : String} {imports : Option String}
    (ok : rep.mergeInclude files src imports b = .ok b') :
    ∃ kvs imported, files.parse (files.inclDir ++ "/" ++ src ++ files.inclSuffix) =
        some (.entries kvs) ∧
      importArr .incl imports = some imported ∧
      rep.fillLoop rep.handle .incl imported [] kvs b = .ok b' := by
  unfold Representation.mergeInclude Representation.fillFrom at ok
  cases file : files.parse (files.inclDir ++ "/" ++ src ++ files.inclSuffix) with
  | none => rw [file] at ok; cases ok
  | some c =>
    rw [file] at ok
    cases list : importArr .incl imports with
    | none => rw [list] at ok; cases ok
    | some imported =>
      rw [list] at ok
      cases c with
      | unset => cases ok
      | entries kvs => exact ⟨kvs, imported, rfl, rfl, ok⟩

theorem known_of_importArr {imports : Option String} {imported : TaskKey → Bool}
    (list : importArr .incl imports = some imported) : KnownImports imports := by
  rintro importList rfl token mem
  cases unknown : findConfigMapping token with
  | some m => rfl
  | none =>
    rw [importArr, Collect.mapM_none_iff.2 ⟨token, mem, unknown⟩] at list
    cases list

end Lines

section Creation

variable {b b' : ImageBuild Env Cgroup} {kvs : List ConfKv}

theorem includeHandler_deps
    (ok : (imageTask env).includeHandler env.inclFiles val b = .ok b') :
    b'.image.deps = b.image.deps ++ includedDeps env.inclFiles val := by
  rw [includeHandler_eq] at ok
  unfold includedDeps
  cases words : inclWords val with
  | none => rw [words] at ok; cases ok
  | some words' =>
    obtain ⟨src, imports⟩ := words'
    rw [words] at ok
    obtain ⟨kvs, imported, file, list, ran⟩ := merge_ok ok
    obtain ⟨imported', list', takes⟩ := token_imported (known_of_importArr list)
    cases list.symm.trans list'
    have all := @fillLoop_deps _ _ _ (imageTask env) (fun b : ImageBuild Env Cgroup => b.image.deps)
      plainDeps _ _ _ _ _ _ _ (fun _ _ _ _ => imageHandle_deps) ran
    dsimp only at all ⊢
    rw [file, all]
    congr 2
    funext kv
    rw [lineDeps]
    cases found : findConfigMapping kv.key with
    | none => simp [unknown_isDepends found]
    | some m =>
      rw [known_isDepends found, ← takes kv m found]
      dsimp only
      cases imported m.config with
      | false => rfl
      | true => simp [plainDeps]

theorem handleKey_deps {key : TaskKey}
    (ok : (imageTask env).handleKey env.inclFiles key val b = .ok b') :
    b'.image.deps = b.image.deps ++ if key = .incl then includedDeps env.inclFiles val
    else plainDeps key val := by
  unfold Representation.handleKey at ok
  split_ifs at ok ⊢
  · exact includeHandler_deps ok
  · exact imageHandle_deps ok

/-- A task has the dependencies of its own lines and of the files these include, and no others. -/
theorem create_deps {pool : TimerDB} (ok : createImage env (.entries kvs) pool = .ok b) :
    b.image.deps = kvs.flatMap fun kv => ownDeps kv ++ broughtDeps env.inclFiles kv := by
  unfold createImage at ok
  split at ok
  · cases ok
  · rename_i b₁ ran
    have same : b₁.image.deps = b.image.deps := by
      split_ifs at ok
      cases ok
      rfl
    unfold Representation.fill Representation.fillFrom at ran
    have all := @fillLoop_deps _ _ _ (imageTask env) (fun b : ImageBuild Env Cgroup => b.image.deps)
      (fun key val => if key = .incl then includedDeps env.inclFiles val else plainDeps key val)
      _ _ _ _ _ _ _ (fun _ _ _ _ => handleKey_deps) ran
    dsimp only at all
    rw [← same, all, nil_append]
    congr 1
    funext kv
    rw [lineDeps]
    cases found : findConfigMapping kv.key with
    | none =>
      have other : kv.key ≠ keyInclude :=
        unknown_key found ⟨.incl, keyInclude, true, false⟩ (by decide)
      simp [ownDeps, broughtDeps, unknown_isDepends found, other]
    | some m =>
      obtain ⟨mem, key⟩ := mapping_mem found
      have incl : kv.key = keyInclude ↔ m.config = .incl := by rw [← key, config_incl m mem]
      simp only [ownDeps, broughtDeps, known_isDepends found, incl, decide_eq_true_eq]
      by_cases includes : m.config = .incl
      · simp [includes]
      · simp [includes, plainDeps]

end Creation

/-! ### The list with other dependencies -/

section Override

variable {files : InclFiles} {kv : ConfKv} {kvs : List ConfKv}

theorem broughtDeps_depends (depends : kv.isDepends = true) : broughtDeps files kv = [] :=
  if_neg fun includes => absurd ((of_decide_eq_true depends).symm.trans includes) (by decide)

theorem ownDeps_other (other : kv.isDepends = false) : ownDeps kv = [] := by
  rw [ownDeps, other, if_neg Bool.false_ne_true]

theorem depsOf_empty : depsOf "" = [] := by decide

theorem clearDepends_own (kv : ConfKv) : ownDeps kv.clearDepends = [] := by
  unfold ConfKv.clearDepends
  split_ifs with depends
  · exact (if_pos depends).trans depsOf_empty
  · exact ownDeps_other (Bool.eq_false_iff.2 depends)

theorem clearDepends_brought (kv : ConfKv) :
    broughtDeps files kv.clearDepends = broughtDeps files kv := by
  unfold ConfKv.clearDepends
  split_ifs with depends
  · rw [broughtDeps_depends depends]
    exact broughtDeps_depends depends
  · rfl

theorem cleared_own (kvs : List ConfKv) : (kvs.map ConfKv.clearDepends).flatMap ownDeps = [] := by
  simp [flatMap_map, clearDepends_own]

theorem cleared_brought (kvs : List ConfKv) :
    (kvs.map ConfKv.clearDepends).flatMap (broughtDeps files) =
      kvs.flatMap (broughtDeps files) := by
  simp [flatMap_map, clearDepends_brought]

theorem setDepends_own (deps : String) (any : kvs.any ConfKv.isDepends = true) :
    (setDepends deps kvs).flatMap ownDeps = depsOf deps := by
  induction kvs with
  | nil => cases any
  | cons kv kvs ih =>
    unfold setDepends
    split_ifs with depends
    · rw [flatMap_cons, cleared_own, append_nil]
      exact if_pos depends
    · rw [flatMap_cons, ownDeps_other (Bool.eq_false_iff.2 depends), nil_append]
      rw [any_cons, Bool.eq_false_iff.2 depends, Bool.false_or] at any
      exact ih any

theorem setDepends_brought (deps : String) (kvs : List ConfKv) :
    (setDepends deps kvs).flatMap (broughtDeps files) = kvs.flatMap (broughtDeps files) := by
  induction kvs with
  | nil => rfl
  | cons kv kvs ih =>
    unfold setDepends
    split_ifs with depends
    · have still : ConfKv.isDepends { kv with val := deps } = true := depends
      rw [flatMap_cons, flatMap_cons, cleared_brought, broughtDeps_depends still,
        broughtDeps_depends depends]
    · rw [flatMap_cons, flatMap_cons, ih]

def overrideTexts (deps : String) : List String := if deps = "@empty" then [] else depTexts deps

def overrideImages (deps : String) : List DepImage := (overrideTexts deps).filterMap depImage

theorem overrideImages_eq (deps : String) :
    overrideImages deps = if deps = "@empty" then [] else depsOf deps := by
  unfold overrideImages overrideTexts
  split_ifs <;> rfl

theorem overrideDeps_own {allocOk : Bool} {deps : String} {kvs' : List ConfKv}
    (other : deps ≠ "@unchanged") (done : overrideDeps allocOk deps kvs = some kvs') :
    kvs'.flatMap ownDeps = overrideImages deps := by
  unfold overrideDeps at done
  rw [overrideImages_eq]
  split_ifs at done ⊢ with empty _ any
  · cases done
    exact cleared_own kvs
  · cases done
    exact setDepends_own deps any
  · cases done
    have none : kvs.flatMap ownDeps = [] := List.flatMap_eq_nil_iff.2 fun kv mem =>
      ownDeps_other (Bool.eq_false_iff.2 fun depends => any (List.any_eq_true.2 ⟨kv, mem, depends⟩))
    rw [flatMap_append, none, nil_append, flatMap_singleton]
    exact if_pos (decide_eq_true rfl)

theorem overrideDeps_brought {allocOk : Bool} {deps : String} {kvs' : List ConfKv}
    (done : overrideDeps allocOk deps kvs = some kvs') :
    kvs'.flatMap (broughtDeps files) = kvs.flatMap (broughtDeps files) := by
  unfold overrideDeps at done
  split_ifs at done
  · cases done
    rfl
  · cases done
    exact cleared_brought kvs
  · cases done
    exact setDepends_brought deps kvs
  · cases done
    have none : broughtDeps files ⟨keyDepends, deps⟩ = [] :=
      broughtDeps_depends (decide_eq_true rfl)
    rw [flatMap_append, flatMap_singleton, none, append_nil]

theorem flatMap_length_iff {A B : Type} {f g : A → List B} {xs : List A} :
    (xs.flatMap fun x => f x ++ g x).length = (xs.flatMap f).length ↔ xs.flatMap g = [] := by
  rw [← (flatMap_append_perm xs f g).length_eq, length_append, ← length_eq_zero_iff]
  omega

theorem flatMap_of_none {A B : Type} {f g : A → List B} {xs : List A} (none : xs.flatMap g = []) :
    (xs.flatMap fun x => f x ++ g x) = xs.flatMap f := by
  refine flatMap_congr fun x mem => ?_
  rw [List.flatMap_eq_nil_iff.1 none x mem, append_nil]

end Override

/-! ### The entries of the override -/

def overrideList (deps : String) : List TaskDep := (overrideTexts deps).filterMap parseDep

/-- A blank stands between the colon and the event. -/
def blankBeforeEvent (text : String) : Bool :=
  (parseDep text).isSome && match strtokR ':' text.toList with
    | some (_, rest) => rest.head? = some ' '
    | none => false

theorem overrideTexts_plain {deps text : String} (mem : text ∈ overrideTexts deps) :
    nul ∉ text.toList := by
  unfold overrideTexts depTexts at mem
  split_ifs at mem
  · cases mem
  · cases split : confConvToStrArr deps false with
    | none =>
      rw [split] at mem
      cases mem
    | some toks =>
      rw [split] at mem
      exact tokens_plain split text mem

theorem overrideImages_deps (deps : String) :
    (overrideImages deps).map DepImage.dep = overrideList deps := by
  rw [overrideImages, overrideList, map_filterMap]
  refine filterMap_congr fun text mem => ?_
  rcases depImage_parses (overrideTexts_plain mem) with
    ⟨parsed, made⟩ | ⟨d, nm, blanks, ev, rest, made, laid, parsed, -⟩
  · rw [made, parsed]
    rfl
  · rw [made, parsed, Option.map_some, laid_dep laid]

theorem blank_iff {text : String} (plain : nul ∉ text.toList) :
    blankBeforeEvent text = false ↔ ∀ d, depImage text = some d → d.EventBehindName := by
  unfold blankBeforeEvent
  rcases depImage_parses plain with
    ⟨parsed, made⟩ | ⟨d, nm, blanks, ev, rest, made, laid, parsed, name, head⟩
  · simp [parsed, made]
  · rw [parsed, name, made]
    simp only [Option.isSome_some, Bool.true_and, decide_eq_false_iff_not, head, not_not,
      Option.some.injEq, forall_eq', behind_iff laid]

theorem overrideImages_behind (deps : String) :
    (∀ d ∈ overrideImages deps, d.EventBehindName) ↔
      ∀ text ∈ overrideTexts deps, blankBeforeEvent text = false := by
  rw [overrideImages]
  constructor
  · intro behind text mem
    exact (blank_iff (overrideTexts_plain mem)).2 fun d made =>
      behind d (mem_filterMap.2 ⟨text, mem, made⟩)
  · intro plain d mem
    obtain ⟨text, inside, made⟩ := List.mem_filterMap.1 mem
    exact (blank_iff (overrideTexts_plain inside)).1 (plain text inside) d made

section AddTask

variable (conf : ConfEnv EnvSet IoRedir Cgroup)

def addTaskEnv (kvs : List ConfKv) (pool : TimerDB) (allocOk : Bool) (insert : InsertEnv) :
    AddTaskEnv where
  conf := some kvs
  allocOk := allocOk
  create := fun kvs => (createImage conf (.entries kvs) pool).toOption.map fun b =>
    (b.image.draft.newTask conf.now, b.image.insertion insert)

/-- The task that ADDTASK makes of a list with the override `deps`. -/
def addedImage (kvs : List ConfKv) (pool : TimerDB) (allocOk : Bool) (deps : String) :
    Option (TaskImage EnvSet Cgroup) :=
  (overrideDeps allocOk deps kvs).bind fun kvs' =>
    (createImage conf (.entries kvs') pool).toOption.map ImageBuild.image

variable {conf}

theorem toOption_some {A E : Type} {r : Except E A} {a : A} (some : r.toOption = Option.some a) :
    r = .ok a := by
  cases r with
  | error => cases some
  | ok => cases some; rfl

/-- ADDTASK answers with success only after the task it made is in the TaskDB. -/
theorem addTask_done {e : AddTaskEnv} {path overwrite deps : String} {w w' : World}
    (done : (execRtimCmdAddTask e ⟨.c .addTask, [path, overwrite, deps]⟩).run machine w =
      (okAnswer .addTask, w')) :
    ∃ kvs t insert, (e.conf.bind (overrideDeps e.allocOk deps)) = some kvs ∧
      e.create kvs = some (t, insert) ∧
      (w.db.insert t.task (overwrite = "true") insert).ret = 0 ∧
      w'.db = (w.db.insert t.task (overwrite = "true") insert).db := by
  have refused : ∀ msg, errAnswer .addTask msg ≠ okAnswer .addTask := fun msg same =>
    absurd (congrArg (fun answer => answer.args.length) same) (show 2 ≠ 1 by decide)
  unfold execRtimCmdAddTask at done
  dsimp only at done
  cases parsed : e.conf with
  | none =>
    rw [parsed] at done
    exact absurd (congrArg Prod.fst done) (refused _)
  | some kvs =>
    rw [parsed] at done
    dsimp only at done
    cases overridden : overrideDeps e.allocOk deps kvs with
    | none =>
      rw [overridden] at done
      exact absurd (congrArg Prod.fst done) (refused _)
    | some kvs' =>
      rw [overridden] at done
      dsimp only at done
      cases created : e.create kvs' with
      | none =>
        rw [created] at done
        exact absurd (congrArg Prod.fst done) (refused _)
      | some made =>
        obtain ⟨t, insert⟩ := made
        rw [created] at done
        dsimp only at done
        rw [run_dbCall] at done
        split_ifs at done with failed
        · exact absurd (congrArg Prod.fst done) (refused _)
        · have world : w.after (.db (.insert t (overwrite = "true") insert)) = w' :=
            congrArg Prod.snd done
          exact ⟨kvs', t, insert, overridden, created, (insert_ret _ _ _ _).resolve_right failed,
            by rw [← world]; rfl⟩

theorem inserted_copies {db : TaskDB} {t : Task} {overwrite : Bool} {insert : InsertEnv}
    (ok : (db.insert t overwrite insert).ret = 0) :
    insert.copyOk = true ∧ t.hasArguments = true := by
  obtain ⟨db₁, -, result⟩ := insert_slotted ok
  have accepted : ¬(db₁.copied t insert).ret = -1 := by
    rw [← result, ok]
    decide
  rw [copied_refused, Bool.not_eq_false, Bool.and_eq_true, InsertEnv.copies,
    Bool.and_eq_true] at accepted
  exact accepted.1

theorem inserted_faithful_iff {db : TaskDB} {im : TaskImage EnvSet Cgroup} {overwrite : Bool}
    {insert : InsertEnv} {run : TaskRun} {now : Timespec} {name : String} (laid : im.WellLaid)
    (named : im.name = some name) (intact : db.corrupt = false)
    (ok : (db.insert (im.draft.newTask now).task overwrite (im.insertion insert)).ret = 0) :
    (db.insert (im.draft.newTask now).task overwrite (im.insertion insert)).db.corrupt = false ↔
      CopiesFaithfully (im.atRun run) := by
  have memory : insert.copyOk = true := (inserted_copies ok).1
  obtain ⟨db₁, slotted, result⟩ := insert_slotted ok
  have before : db₁.corrupt = false := by cases slotted <;> exact intact
  rw [result]
  exact copied_faithful_iff laid named before memory

theorem copy_exists {im : TaskImage EnvSet Cgroup} {name : String} (laid : im.WellLaid)
    (named : im.name = some name) (arguments : ∀ cmd ∈ im.cmds ++ im.stopCmds, cmd.argc ≠ 0)
    (run : TaskRun) : ∃ copy, taskCopy (im.atRun run) = .ok copy ∧
      im.deps.mapM copyDep = .ok copy.deps := by
  have cmd : ∀ cmd ∈ im.cmds ++ im.stopCmds, ∃ copy, copyCommand cmd = .ok copy := by
    intro cmd mem
    obtain ⟨offsets, here⟩ := laid.cmds cmd mem
    obtain ⟨copy, -, copied, -⟩ := copyCommand_laid here (arguments cmd mem)
    exact ⟨copy, copied⟩
  have dep : ∀ d ∈ im.deps ++ im.trig, ∃ copy, copyDep d = .ok copy := by
    intro d mem
    obtain ⟨nm, blanks, ev, here⟩ := laid.deps d mem
    obtain ⟨post, copied⟩ := copyDep_laid here
    exact ⟨_, copied⟩
  obtain ⟨cmds, copyCmds⟩ := Collect.mapM_ok fun c mem => cmd c (mem_append_left _ mem)
  obtain ⟨stopCmds, copyStop⟩ := Collect.mapM_ok fun c mem => cmd c (mem_append_right _ mem)
  obtain ⟨deps, copyDeps⟩ := Collect.mapM_ok fun d mem => dep d (mem_append_left _ mem)
  obtain ⟨trig, copyTrig⟩ := Collect.mapM_ok fun d mem => dep d (mem_append_right _ mem)
  exact ⟨_, taskCopy_iff.2 ⟨name, cmds, stopCmds, im.taskEnv.raw, im.elosFilters.raw, deps, trig,
    named, copyCmds, copyStop, envSetDup_raw _, envSetDup_raw _, copyDeps, copyTrig, rfl⟩, copyDeps⟩

/-- In the TaskDB the dependencies of the new task are those of the command, unless a file that the
task file includes brings others or a blank stands before an event of the command. -/
theorem addTask_override_iff {kvs : List ConfKv} {pool : TimerDB} {allocOk : Bool}
    {insert : InsertEnv} {path overwrite deps : String} {w w' : World} (other : deps ≠ "@unchanged")
    (done : (execRtimCmdAddTask (addTaskEnv conf kvs pool allocOk insert)
      ⟨.c .addTask, [path, overwrite, deps]⟩).run machine w = (okAnswer .addTask, w')) :
    ∃ im copy, addedImage conf kvs pool allocOk deps = some im ∧
      taskCopy (im.atRun im.run) = .ok copy ∧
      w'.db.findTask (im.name.getD "") = some (im.draft.newTask conf.now).task ∧
      (w.db.corrupt = false → (w'.db.corrupt = false ↔ CopiesFaithfully (im.atRun im.run))) ∧
      (copy.deps.mapM DepImage.read = some (overrideList deps) ↔
        (∀ kv ∈ kvs, kv.key = keyInclude → includedDeps conf.inclFiles kv.val = []) ∧
          ∀ text ∈ overrideTexts deps, blankBeforeEvent text = false) := by
  obtain ⟨kvs', t, insert', overridden, created, ok, world⟩ := addTask_done done
  obtain ⟨b, built, same⟩ := Option.map_eq_some_iff.1 created
  cases same
  have image := toOption_some built
  obtain ⟨laid, name, named⟩ := createImage_laid image
  obtain ⟨copy, copied, copyDeps⟩ := copy_exists laid named
    ((hasArguments_iff laid conf.now).1 (inserted_copies ok).2) b.image.run
  have own : kvs'.flatMap ownDeps = overrideImages deps := overrideDeps_own other overridden
  have brought : kvs'.flatMap (broughtDeps conf.inclFiles) =
    kvs.flatMap (broughtDeps conf.inclFiles) := overrideDeps_brought overridden
  have all := create_deps image
  refine ⟨b.image, copy, ?_, copied, ?_, ?_, ?_⟩
  · change (overrideDeps allocOk deps kvs).bind _ = _
    rw [show overrideDeps allocOk deps kvs = some kvs' from overridden, Option.bind_some, built,
      Option.map_some]
  · rw [world]
    exact insert_found ok
  · intro intact
    rw [world]
    exact inserted_faithful_iff laid named intact ok
  · rw [copies_read_iff (fun d mem => laid.deps d (mem_append_left _ mem)) copyDeps,
      ← overrideImages_behind, ← overrideImages_deps]
    have none_iff : (∀ kv ∈ kvs, kv.key = keyInclude → includedDeps conf.inclFiles kv.val = []) ↔
        kvs'.flatMap (broughtDeps conf.inclFiles) = [] := by
      rw [brought, flatMap_eq_nil_iff]
      refine forall₂_congr fun kv _ => ?_
      rw [broughtDeps]
      exact ite_eq_right_iff.symm
    rw [none_iff]
    constructor
    · rintro ⟨behind, entries⟩
      have lengths := congrArg List.length entries
      rw [length_map, length_map, all, ← own, flatMap_length_iff] at lengths
      rw [all, flatMap_of_none lengths, own] at behind
      exact ⟨lengths, behind⟩
    · rintro ⟨none, behind⟩
      rw [all, flatMap_of_none none, own]
      exact ⟨behind, rfl⟩

end AddTask

def addSample (kvs : List ConfKv) (deps : String) : RtimCmd × World :=
  (execRtimCmdAddTask (addTaskEnv { imageConf with parse := sampleIncludes } kvs {} true {})
    ⟨.c .addTask, ["/etc/crinit/plain.crinit", "false", deps]⟩).run
    machine {}

def dependentTask : List ConfKv :=
  plainTask ++ [⟨keyDepends, "earlysetup:wait"⟩, ⟨keyDepends, "mounts:wait"⟩]

theorem addTask_override_sample :
    ∃ im copy, addedImage { imageConf with parse := sampleIncludes } dependentTask {} true
        "@ctl:enable net:wait" = some im ∧
      taskCopy (im.atRun im.run) = .ok copy ∧
      copy.deps.mapM DepImage.read = some [⟨"@ctl", "enable"⟩, ⟨"net", "wait"⟩] := by
  have done : addSample dependentTask "@ctl:enable net:wait" =
    (okAnswer .addTask, (addSample dependentTask "@ctl:enable net:wait").2) := rfl
  obtain ⟨im, copy, added, copied, -, -, exactly⟩ := addTask_override_iff (by decide) done
  exact ⟨im, copy, added, copied, exactly.2 ⟨by decide, by decide⟩⟩

/-- The dependency that the included file brings stays, though the command says that there are
none, and the event behind a blank has no end in the TaskDB. -/
theorem override_not_stored :
    ((addSample (dependentTask ++ [⟨keyInclude, "net DEPENDS"⟩]) "@empty").1 = okAnswer .addTask ∧
      ((addSample (dependentTask ++ [⟨keyInclude, "net DEPENDS"⟩]) "@empty").2.db.findTask
        "plain").map Task.deps = some [⟨"network", "wait"⟩] ∧
      overrideList "@empty" = []) ∧
    (addSample dependentTask "net:\\ wait").1 = okAnswer .addTask ∧
      overrideList "net:\\ wait" = [⟨"net", "wait"⟩] ∧
      ∃ im copy, addedImage { imageConf with parse := sampleIncludes } dependentTask {} true
          "net:\\ wait" = some im ∧
        taskCopy (im.atRun im.run) = .ok copy ∧ copy.deps.mapM DepImage.read = none := by
  refine ⟨⟨rfl, by decide, rfl⟩, rfl, by decide, _, _, rfl, rfl, by decide⟩

end Crinit
