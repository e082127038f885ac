import Crinit.TaskConf

/-! INCLUDE against the text of the file in its place. -/
namespace Crinit

open List

variable {Env Redir Cgroup : Type}

/-! ### What an INCLUDE line stands for -/

def keyInclude : String := "INCLUDE"

def isImported (imports : Option String) (kv : ConfKv) : Bool :=
  match imports with
  | none => true
  | some importList => kv.key ∈ importTokens importList

def KnownImports (imports : Option String) : Prop :=
  ∀ importList ∈ imports, ∀ token ∈ importTokens importList, (findConfigMapping token).isSome

def IncludeSafe (kvs : List ConfKv) : Prop :=
  ∀ kv ∈ kvs, ∀ m, findConfigMapping kv.key = some m → m.includeSafe = true

instance (imports : Option String) : Decidable (KnownImports imports) :=
  inferInstanceAs (Decidable (∀ importList ∈ imports, ∀ token ∈ importTokens importList,
    (findConfigMapping token).isSome))

instance (kvs : List ConfKv) : Decidable (IncludeSafe kvs) :=
  inferInstanceAs (Decidable (∀ kv ∈ kvs, ∀ m ∈ findConfigMapping kv.key, m.includeSafe = true))

/-- A file whose keys and values are `kvs`: one that has none is an error if it has no text either,
and else a list whose only element nobody has set. -/
def FileHolds (env : ConfEnv Env Redir Cgroup) (src : String) (kvs : List ConfKv) : Prop :=
  env.parse (inclPath env src) = some (.ofEntries kvs) ∨ kvs = [] ∧
    env.parse (inclPath env src) = none

variable {src : String} {kvs : List ConfKv}

/-- Two runs that both get to memory nobody has set differ in nothing that is said here. -/
def SameResult : Building Env Redir Cgroup → Building Env Redir Cgroup → Prop
  | .ok b, .ok b' => b = b'
  | .error (.failed _), .error (.failed _) => True
  | .error .undefined, .error .undefined => True
  | _, _ => False

theorem SameResult.refl (r : Building Env Redir Cgroup) : SameResult r r := by
  match r with
  | .ok b => rfl
  | .error (.failed _) => trivial
  | .error .undefined => trivial

/-! ### The lines of the file in place of the INCLUDE -/

variable {imports : Option String}

theorem token_imported (known : KnownImports imports) :
    ∃ imported, importArr .incl imports = some imported ∧
      ∀ kv m, findConfigMapping kv.key = some m → imported m.config = isImported imports kv := by
  cases imports with
  | none => exact ⟨_, rfl, fun _ _ _ => rfl⟩
  | some importList =>
    cases found : (importTokens importList).mapM findConfigMapping with
    | none =>
      obtain ⟨token, mem, unknown⟩ := Collect.mapM_none_iff.1 found
      have isSome := known importList rfl token mem
      rw [unknown] at isSome
      cases isSome
    | some ms =>
      refine ⟨fun key => ms.any fun m => m.config = key, by rw [importArr, found, Option.map_some],
        ?_⟩
      intro kv m mapped
      have maps := Collect.mapM_some_iff.1 found
      rw [Bool.eq_iff_iff, isImported]
      simp only [any_eq_true, decide_eq_true_eq]
      constructor
      · rintro ⟨m', mem, same⟩
        obtain ⟨token, named, found'⟩ := Collect.forall₂_right maps mem
        obtain ⟨known', key'⟩ := mapping_mem found'
        obtain ⟨known, key⟩ := mapping_mem mapped
        rw [← key, ← config_injective m' known' m known same, key']
        exact named
      · intro named
        obtain ⟨m', mem, found'⟩ := Collect.forall₂_left maps named
        cases mapped.symm.trans found'
        exact ⟨m, mem, rfl⟩

section Splice

variable {env : ConfEnv Env Redir Cgroup}

/-- `crinitTaskSetFromConfKvList` for a task file, from any of its lines on. -/
def taskLoop (env : ConfEnv Env Redir Cgroup) (dupl : List TaskKey) (kvs : List ConfKv)
    (b : Build Env Redir Cgroup) :
    Building Env Redir Cgroup :=
  setLoop (cfgHandler env) .standard (fun _ => true) dupl kvs b

variable {dupl : List TaskKey}

/-- A line that may be repeated and is no INCLUDE leaves no trace but what its handler does. -/
theorem taskLoop_cons {kv : ConfKv} {m : ConfigMapping} {b : Build Env Redir Cgroup}
    (found : findConfigMapping kv.key = some m) (array : m.arrayLike = true)
    (plain : m.config ≠ .incl) :
    taskLoop env dupl (kv :: kvs) b =
      (handlePlain env m.config kv.val b).bind (taskLoop env (m.config :: dupl) kvs) := by
  unfold taskLoop
  rw [setLoop, found]
  simp only [array, cfgHandler, if_neg plain, Bool.not_true, Bool.false_and, Bool.false_eq_true,
    if_false, if_true,
    reduceCtorEq, decide_false, Bool.and_false]
  cases handlePlain env m.config kv.val b <;> rfl

theorem taskLoop_unknown {kv : ConfKv} {b : Build Env Redir Cgroup}
    (unknown : findConfigMapping kv.key = none) :
    taskLoop env dupl (kv :: kvs) b = taskLoop env dupl kvs b := by
  unfold taskLoop
  rw [setLoop, unknown]

/-- The loop over the include file, then over the rest of the task file, against one over both. -/
theorem taskLoop_splice {imported : TaskKey → Bool}
    (takes : ∀ kv m, findConfigMapping kv.key = some m → imported m.config = isImported imports kv)
    (safe : IncludeSafe kvs) (post : List ConfKv) {dupl' : List TaskKey}
    (agree : Agree dupl dupl') (seen : List TaskKey) (b : Build Env Redir Cgroup) :
    (setLoop (handlePlain env) .incl imported seen kvs b).bind (taskLoop env dupl post) =
      taskLoop env dupl' (kvs.filter (isImported imports) ++ post) b := by
  induction kvs generalizing dupl' seen b with
  | nil => exact setLoop_agree agree post b
  | cons kv kvs ih =>
    have rest : IncludeSafe kvs := fun kv' mem => safe kv' (mem_cons_of_mem _ mem)
    cases found : findConfigMapping kv.key with
    | none =>
      rw [setLoop, found]
      dsimp only
      rw [ih rest agree, filter_cons]
      split_ifs with named
      · rw [cons_append, taskLoop_unknown found]
      · rfl
    | some m =>
      obtain ⟨known, -⟩ := mapping_mem found
      have safeKey := safe kv mem_cons_self m found
      obtain ⟨array, plain⟩ := includeSafe_arrayLike m known safeKey
      rw [setLoop, found]
      simp only [safeKey, array, takes kv m found, Bool.not_true, Bool.false_and,
        Bool.false_eq_true, if_false]
      rw [filter_cons]
      split_ifs with named
      · rw [cons_append, taskLoop_cons found array plain]
        cases handlePlain env m.config kv.val b with
        | error stop => rfl
        | ok b' => exact ih rest (agree.skip known array) (m.config :: seen) b'
      · exact ih rest agree (m.config :: seen) b

theorem taskLoop_congr {xs ys : List ConfKv}
    (same : ∀ dupl b, taskLoop env dupl xs b = taskLoop env dupl ys b)
    (pre : List ConfKv) (dupl : List TaskKey) (b : Build Env Redir Cgroup) :
    taskLoop env dupl (pre ++ xs) b = taskLoop env dupl (pre ++ ys) b := by
  induction pre generalizing dupl b with
  | nil => exact same dupl b
  | cons kv pre ih =>
    unfold taskLoop at ih ⊢
    rw [cons_append, cons_append, setLoop, setLoop]
    simp only [ih]

theorem find_include : findConfigMapping keyInclude =
      some ⟨.incl, keyInclude, true, false⟩ := by decide

theorem taskLoop_incl (val : String) (post : List ConfKv) (dupl : List TaskKey)
    (b : Build Env Redir Cgroup) :
    taskLoop env dupl (⟨keyInclude, val⟩ :: post) b =
      (taskIncludeHandler env val b).bind (taskLoop env (.incl :: dupl) post) := by
  unfold taskLoop
  rw [setLoop, find_include]
  simp only [cfgHandler, Bool.not_false, Bool.true_and, Bool.not_true, Bool.false_and,
    Bool.false_eq_true, if_false,
    if_true, reduceCtorEq, decide_false]
  cases taskIncludeHandler env val b <;> rfl

theorem includeHandler_words {val : String}
    (words : confConvToStrArr val true = some (src :: imports.toList))
    (b : Build Env Redir Cgroup) :
    taskIncludeHandler env val b = taskMergeInclude env src imports b := by
  unfold taskIncludeHandler
  rw [words]
  cases imports <;> rfl

theorem taskLoop_include {val : String}
    (words : confConvToStrArr val true = some (src :: imports.toList))
    (known : KnownImports imports) (safe : IncludeSafe kvs)
    (file : env.parse (inclPath env src) = some (.entries kvs)) (pre post : List ConfKv)
    (dupl : List TaskKey) (b : Build Env Redir Cgroup) :
    taskLoop env dupl (pre ++ ⟨keyInclude, val⟩ :: post) b =
      taskLoop env dupl (pre ++ (kvs.filter (isImported imports) ++ post)) b := by
  obtain ⟨imported, list, takes⟩ := token_imported known
  refine taskLoop_congr (fun dupl b => ?_) pre dupl b
  have merged : taskIncludeHandler env val b = setLoop (handlePlain env) .incl imported
    [] kvs b := by
    rw [includeHandler_words words, taskMergeInclude, file]
    dsimp only
    rw [taskSetFromConfKvList, list]
  rw [taskLoop_incl, merged]
  exact taskLoop_splice takes safe post
    ((Agree.refl dupl).skip (mapping_mem find_include).1 rfl).symm [] b

end Splice

section Inclusion

variable (env : ConfEnv Env Redir Cgroup)

def Textual (val : String) (imports : Option String) (kvs : List ConfKv) : Prop :=
  ∀ pre post pool,
    SameResult (taskCreateFromConfKvList env (.entries (pre ++ ⟨keyInclude, val⟩ :: post)) pool)
      (taskCreateFromConfKvList env (.entries (pre ++ kvs.filter (isImported imports) ++ post))
        pool)

variable {env}

theorem create_congr {xs ys : List ConfKv} (same : ∀ b, taskLoop env [] xs b = taskLoop env [] ys b)
    (pool : TimerDB) :
    taskCreateFromConfKvList env (.entries xs) pool =
      taskCreateFromConfKvList env (.entries ys) pool := by
  have loops := same ⟨{ taskEnv := env.globEnv, elosFilters := env.globFilters }, pool⟩
  unfold taskLoop at loops
  unfold taskCreateFromConfKvList taskSetFromConfKvList
  dsimp only [importArr]
  rw [loops]

def plainTask : List ConfKv := [⟨"NAME", "plain"⟩, ⟨"COMMAND", "/bin/true"⟩]

theorem plainTask_created (env : ConfEnv Env Redir Cgroup) (pool : TimerDB) :
    ∃ b, taskCreateFromConfKvList env (.entries plainTask) pool = .ok b :=
  ⟨_, rfl⟩

theorem plainTask_reaches (kvs : List ConfKv) (b : Build Env Redir Cgroup) :
    ∃ b', taskLoop env [] (plainTask ++ kvs) b = taskLoop env [.command, .name] kvs b' := ⟨_, rfl⟩

theorem create_error (stops : ∀ b, ∃ stop, taskLoop env [] kvs b = .error stop) (pool : TimerDB) :
    ∃ stop, taskCreateFromConfKvList env (.entries kvs) pool = .error stop := by
  obtain ⟨stop, stopped⟩ := stops ⟨{ taskEnv := env.globEnv, elosFilters := env.globFilters }, pool⟩
  unfold taskLoop at stopped
  refine ⟨stop, ?_⟩
  unfold taskCreateFromConfKvList taskSetFromConfKvList
  dsimp only [importArr]
  rw [stopped]

theorem keyless_stops {val : String}
    (words : confConvToStrArr val true = some (src :: imports.toList))
    (known : KnownImports imports) (file : FileHolds env src []) (b : Build Env Redir Cgroup) :
    ∃ stop, taskIncludeHandler env val b = .error stop := by
  obtain ⟨imported, list, -⟩ := token_imported known
  rw [includeHandler_words words, taskMergeInclude]
  rcases file with unset | ⟨-, empty⟩
  · rw [unset]
    dsimp only [ConfList.ofEntries]
    rw [if_pos rfl, taskSetFromConfKvList, list]
    exact ⟨.undefined, rfl⟩
  · rw [empty]
    exact ⟨.failed b.pool, rfl⟩

/-- INCLUDE is textual inclusion of every file that has a key. -/
theorem include_textual_iff {val src : String} {imports : Option String} {kvs : List ConfKv}
    (words : confConvToStrArr val true = some (src :: imports.toList))
    (known : KnownImports imports)
    (safe : IncludeSafe kvs) (file : FileHolds env src kvs) :
    Textual env val imports kvs ↔ kvs ≠ [] := by
  constructor
  · rintro textual rfl
    have same := textual plainTask [] {}
    have stops : ∀ b, ∃ stop, taskLoop env [] (plainTask ++ [⟨keyInclude, val⟩]) b = .error stop :=
      fun b => by
      obtain ⟨b', reached⟩ := plainTask_reaches [⟨keyInclude, val⟩] b
      obtain ⟨stop, stopped⟩ := keyless_stops words known file b'
      exact ⟨stop, by rw [reached, taskLoop_incl, stopped]; rfl⟩
    obtain ⟨stop, stopped⟩ := create_error stops {}
    obtain ⟨b, created⟩ := plainTask_created env {}
    rw [stopped, filter_nil, append_nil, append_nil, created] at same
    cases stop <;> exact same
  · intro keys pre post pool
    have parsed : env.parse (inclPath env src) = some (.entries kvs) := by
      rcases file with parsed | ⟨none, -⟩
      · rwa [ConfList.ofEntries, if_neg keys] at parsed
      · exact absurd none keys
    rw [append_assoc, create_congr (taskLoop_include words known safe parsed pre post []) pool]
    exact SameResult.refl _

end Inclusion

def sampleIncludes : String → Option ConfList
  | "/etc/crinit/net.crincl" =>
    some (.ofEntries [⟨"DEPENDS", "network:wait"⟩, ⟨"COLOUR", "red"⟩,
      ⟨"TRIGGER", "earlysetup:wait"⟩])
  | "/etc/crinit/comment.crincl" => some (.ofEntries [])
  | _ => none

def sampleConf : ConfEnv (List String) String String where
  users := userFile
  groups := groupFile
  capFromName := fun _ => none
  envSetMember := fun env val => some (env ++ [val])
  ioRedir := some
  cgroupName := fun _ name => some name
  cgroupParams := fun cgroup _ => cgroup
  inclDir := "/etc/crinit"
  inclSuffix := ".crincl"
  parse := sampleIncludes
  globEnv := []
  globFilters := []

theorem include_net_textual : Textual sampleConf "net DEPENDS,TRIGGER" (some "DEPENDS,TRIGGER")
    [⟨"DEPENDS", "network:wait"⟩, ⟨"COLOUR", "red"⟩, ⟨"TRIGGER", "earlysetup:wait"⟩] := by
  have file : FileHolds sampleConf "net"
    [⟨"DEPENDS", "network:wait"⟩, ⟨"COLOUR", "red"⟩, ⟨"TRIGGER", "earlysetup:wait"⟩] := .inl rfl
  exact (include_textual_iff (by decide) (by decide) (by decide) file).2 (by decide)

/-- Of two files without a key, the one with a comment sends the code into memory nobody has set,
and the task with the empty one is refused. -/
theorem keyless_include_not_textual :
    taskCreateFromConfKvList sampleConf (.entries (plainTask ++ [⟨keyInclude, "comment"⟩])) {} =
      .error .undefined ∧
    taskCreateFromConfKvList sampleConf (.entries (plainTask ++ [⟨keyInclude, "empty"⟩])) {} =
      .error (.failed {}) ∧
    (∃ b, taskCreateFromConfKvList sampleConf (.entries plainTask) {} = .ok b) ∧
    ¬Textual sampleConf "comment" none [] ∧ ¬Textual sampleConf "empty" none [] := by
  have comment : taskCreateFromConfKvList sampleConf
    (.entries (plainTask ++ [⟨keyInclude, "comment"⟩])) {} = .error .undefined := rfl
  have empty : taskCreateFromConfKvList sampleConf (.entries (plainTask ++ [⟨keyInclude, "empty"⟩]))
    {} = .error (.failed {}) := rfl
  exact ⟨comment, empty, ⟨_, rfl⟩, fun textual => textual plainTask [] {}, fun textual =>
    textual plainTask [] {}⟩

end Crinit
