import Crinit.Launcher
import Crinit.Lib.Privilege

/-! `main` of `crinit-launch` behind the new `argv`, with `capabilities.c`: how it takes the user,
the groups and the capabilities of the task before it becomes the program. -/
namespace Crinit

open List Privilege

def capLastCap : Nat := 40

/-- The calls, `CAP_IS_SUPPORTED`, and the file that `execvp` comes to. -/
structure LaunchEnv where
  calls : Calls := linux
  supported : Nat → Bool
  assignPid : Bool := true
  file : File := {}

/-- A turn of the loops of `crinitSetCapStateInheritable` and of `crinitCapSetAmbient`. -/
def capTurn {S : Type} (env : LaunchEnv) (act : Nat → S → Option S) (capMask : BitVec 64) (s : S)
    (capIdx : Nat) : Option S :=
  if !capMask.getLsbD capIdx then some s
  else if !env.supported capIdx then none
  else act capIdx s

def eachCap {S : Type} (env : LaunchEnv) (act : Nat → S → Option S) (capMask : BitVec 64)
    (s : S) : Option S :=
  if capMask >>> (capLastCap + 1) ≠ 0#64 then none
  else (range (capLastCap + 1)).foldlM (capTurn env act capMask) s

def setCapStateInheritable (env : LaunchEnv) (capMask : BitVec 64) (capState : CapState) :
    Option CapState :=
  eachCap env (fun capIdx capState => env.calls.capSetInheritable capState capIdx) capMask capState

def capSetInheritable (env : LaunchEnv) (capMask : BitVec 64) (c : Cred) : Option Cred := do
  let capState ← env.calls.capGetProc c
  let capState ← env.calls.capClearInheritable capState
  let capState ← setCapStateInheritable env capMask capState
  env.calls.capSetProc c capState

def capSetAmbient (env : LaunchEnv) (capMask : BitVec 64) (c : Cred) : Option Cred :=
  eachCap env (fun capIdx c => env.calls.raiseAmbient c capIdx) capMask c

def capRetainPermitted (env : LaunchEnv) (c : Cred) : Option Cred := do
  let ret ← env.calls.getSecurebits c
  env.calls.setSecurebits c (ret ||| 1#32 <<< secureKeepCaps)

def setLaunchGroups (env : LaunchEnv) (groups : List Id) (c : Cred) : Option Cred :=
  match groups with
  | [] => some c
  | gid :: supGroups => do
    let c ← env.calls.setgroups c []
    let c ← env.calls.setgid c gid
    if supGroups = [] then some c else env.calls.setgroups c supGroups

def setLaunchUser (env : LaunchEnv) (user : Option Id) (c : Cred) : Option Cred :=
  match user with
  | none => some c
  | some user => env.calls.setuid c user

inductive LaunchBlock
  | targetCgroup
  | groups
  | cmd
  | argvNewBuffer
  | argvNew
  deriving DecidableEq, Repr

inductive LaunchEnd
  | execs (c : Cred)
  | exits (frees : List LaunchBlock)
  deriving DecidableEq

def failureExit (req : LaunchRequest) : List LaunchBlock :=
  (if req.targetCgroup.isSome then [.targetCgroup] else []) ++
    (if req.groups.isSome then [.groups] else []) ++ [.cmd, .argvNewBuffer, .argvNew]

def takePrivileges (env : LaunchEnv) (req : LaunchRequest) (c : Cred) : Option Cred := do
  let c ← setLaunchGroups env (req.groups.getD []) c
  let c ← setLaunchUser env req.user c
  let c ← capSetInheritable env req.caps c
  capSetAmbient env req.caps c

def launchProgram (env : LaunchEnv) (req : LaunchRequest) (c : Cred) : LaunchEnd :=
  match capRetainPermitted env c with
  | none => .exits (failureExit req)
  | some c =>
    if req.targetCgroup.isSome && !env.assignPid then .exits (failureExit req)
    else
      let freed := if req.targetCgroup.isSome then [.targetCgroup] else []
      match (takePrivileges env req c).bind fun c => env.calls.execve c env.file with
      | none => .exits (freed ++ failureExit req)
      | some c => .execs c

section Loop

variable {S : Type} {env : LaunchEnv} {put : BitVec 64 → S} {act : Nat → S → Option S}
  {capMask w : BitVec 64} {s : S}

theorem getLsbD_added (w : BitVec 64) (n i : Nat) :
    (w ||| 1#64 <<< n).getLsbD i = (w.getLsbD i || (decide (i < 64) && decide (i = n))) := by
  rw [BitVec.getLsbD_or, ← BitVec.twoPow_eq, BitVec.getLsbD_twoPow]
  by_cases same : i = n
  · simp [same]
  · simp [same, Ne.symm same]

/-- The loop adds the capabilities of the mask to a set. -/
theorem capLoop_eq (acts : ∀ cap w s, act cap (put w) = some s → s = put (w ||| 1#64 <<< cap))
    (n : Nat) (loop : (range n).foldlM (capTurn env act capMask) (put w) = some s) :
    ∃ w', s = put w' ∧
      ∀ i, w'.getLsbD i = (w.getLsbD i || (decide (i < n) && capMask.getLsbD i)) := by
  induction n generalizing s with
  | zero => exact ⟨w, (Option.some.inj loop).symm, by simp⟩
  | succ n ih =>
    rw [range_succ, foldlM_append] at loop
    obtain ⟨_, before, turn⟩ := Option.bind_eq_some_iff.mp loop
    obtain ⟨w', rfl, bits⟩ := ih before
    simp only [foldlM_cons, foldlM_nil, bind_pure, capTurn] at turn
    have next : ∀ i, i < n + 1 ↔ i < n ∨ i = n := fun i => by omega
    split_ifs at turn with clear unknown
    · refine ⟨w', (Option.some.inj turn).symm, fun i => ?_⟩
      by_cases same : i = n
      · simp_all
      · simp [bits, next, same]
    · refine ⟨_, acts n w' s turn, fun i => ?_⟩
      have set : capMask.getLsbD n = true := by simpa using clear
      rw [getLsbD_added, bits]
      by_cases same : i = n
      · simp [same, set, BitVec.lt_of_getLsbD set]
      · simp [next, same]

theorem eachCap_eq (put : BitVec 64 → S)
    (acts : ∀ cap w s, act cap (put w) = some s → s = put (w ||| 1#64 <<< cap))
    (each : eachCap env act capMask (put w) = some s) : s = put (w ||| capMask) := by
  unfold eachCap at each
  split_ifs at each with range
  obtain ⟨w', rfl, bits⟩ := capLoop_eq acts _ each
  refine congrArg put (BitVec.eq_of_getLsbD_eq fun i _ => ?_)
  rw [bits, BitVec.getLsbD_or]
  by_cases inside : i < capLastCap + 1
  · simp [inside]
  · have clear := congrArg (·.getLsbD (i - (capLastCap + 1))) (not_not.mp range)
    simp [Nat.add_sub_cancel' (Nat.not_lt.mp inside)] at clear
    simp [clear]

end Loop

section Calls

variable {env : LaunchEnv} (lawful : env.calls.Lawful) {capMask : BitVec 64} {c c' : Cred}
include lawful

theorem capSetAmbient_eq (raises : capSetAmbient env capMask c = some c') :
    c' = { c with ambient := c.ambient ||| capMask } := by
  unfold capSetAmbient at raises
  exact eachCap_eq (w := c.ambient) (fun w => { c with ambient := w })
    (fun cap w s done => lawful.raiseAmbient done) raises

theorem capSetInheritable_eq (inherits : capSetInheritable env capMask c = some c') :
    c' = { c with inheritable := capMask, ambient := c.ambient &&& (c.permitted &&& capMask) } := by
  obtain ⟨_, gets, rest⟩ := Option.bind_eq_some_iff.mp inherits
  obtain rfl := lawful.capGetProc gets
  obtain ⟨_, clears, rest⟩ := Option.bind_eq_some_iff.mp rest
  obtain rfl := lawful.capClearInheritable clears
  obtain ⟨_, state, sets⟩ := Option.bind_eq_some_iff.mp rest
  obtain rfl := eachCap_eq (w := 0#64) (fun w => CapState.mk c.permitted c.effective w)
    (fun cap w s done => lawful.capSetInheritable done) state
  rw [lawful.capSetProc sets, BitVec.zero_or]

theorem capsTaken_eq {c₁ c₂ : Cred} (inherits : capSetInheritable env capMask c = some c₁)
    (raises : capSetAmbient env capMask c₁ = some c₂) :
    c₂ = { c with inheritable := capMask, ambient := capMask } := by
  obtain rfl := capSetInheritable_eq lawful inherits
  -- what was ambient before and is not in the mask has gone with `capset`
  have absorbed : c.ambient &&& (c.permitted &&& capMask) ||| capMask = capMask := by
    refine BitVec.eq_of_getLsbD_eq fun i _ => ?_
    simp only [BitVec.getLsbD_or, BitVec.getLsbD_and]
    cases capMask.getLsbD i <;> simp
  rw [capSetAmbient_eq lawful raises, absorbed]

theorem setLaunchGroups_eq {gid : Id} {supGroups : List Id}
    (set : setLaunchGroups env (gid :: supGroups) c = some c') :
    c' = { c with gid := .all gid, groups := supGroups } := by
  obtain ⟨_, drops, set⟩ := Option.bind_eq_some_iff.mp set
  obtain ⟨capable, rfl⟩ := lawful.setgroups drops
  obtain ⟨_, sets, set⟩ := Option.bind_eq_some_iff.mp set
  obtain rfl := lawful.setgid sets capable
  split_ifs at set with none
  · rw [none]
    exact (Option.some.inj set).symm
  · exact (lawful.setgroups set).2

theorem takePrivileges_eq {req : LaunchRequest} {user gid : Id} {supGroups : List Id}
    (takes : takePrivileges env req c = some c') (root : c.uid = .all 0#32)
    (hasUser : req.user = some user) (hasGroups : req.groups = some (gid :: supGroups)) :
    ∃ permitted effective, c' = { c with
      uid := .all user, gid := .all gid, groups := supGroups, permitted := permitted,
      effective := effective, inheritable := req.caps, ambient := req.caps } := by
  unfold takePrivileges at takes
  rw [hasGroups, hasUser] at takes
  obtain ⟨_, groups, takes⟩ := Option.bind_eq_some_iff.mp takes
  obtain rfl := setLaunchGroups_eq lawful groups
  obtain ⟨_, sets, takes⟩ := Option.bind_eq_some_iff.mp takes
  obtain ⟨permitted, effective, _, rfl⟩ := lawful.setuid sets root
  obtain ⟨_, inherits, raises⟩ := Option.bind_eq_some_iff.mp takes
  exact ⟨permitted, effective, capsTaken_eq lawful inherits raises⟩

theorem capRetainPermitted_eq (retains : capRetainPermitted env c = some c') :
    c' = { c with securebits := c.securebits ||| 1#32 <<< secureKeepCaps } := by
  obtain ⟨_, gets, sets⟩ := Option.bind_eq_some_iff.mp retains
  rw [lawful.setSecurebits sets, lawful.getSecurebits gets]

end Calls

/-- The program is started, or the name of a cgroup that the launcher is in is freed twice. -/
theorem launchProgram_cases (env : LaunchEnv) (req : LaunchRequest) (c : Cred) :
    (∃ retained taken c', capRetainPermitted env c = some retained ∧
      takePrivileges env req retained = some taken ∧ env.calls.execve taken env.file = some c' ∧
      launchProgram env req c = .execs c') ∨
    launchProgram env req c = .exits ((if req.targetCgroup.isSome && env.assignPid &&
      (capRetainPermitted env c).isSome then [.targetCgroup] else []) ++ failureExit req) := by
  unfold launchProgram
  cases capRetainPermitted env c with
  | none => simp
  | some retained =>
    cases takes : takePrivileges env req retained with
    | none => cases req.targetCgroup.isSome <;> cases env.assignPid <;> simp [takes]
    | some taken =>
      cases execs : env.calls.execve taken env.file <;> cases req.targetCgroup.isSome <;>
        cases env.assignPid <;> simp [takes, execs]

/-- The program of a launcher that root starts has the user, the groups and the capabilities that
were asked for, and no others, unless it is for root: then it has all that root may have. -/
theorem launched_as_requested (env : LaunchEnv) (lawful : env.calls.Lawful)
    (plain : env.file.Plain) (req : LaunchRequest) (c c' : Cred) (user gid : Id)
    (supGroups : List Id) (root : c.uid = .all 0#32) (hasUser : req.user = some user)
    (hasGroups : req.groups = some (gid :: supGroups))
    (execs : launchProgram env req c = .execs c') :
    c'.uid = .all user ∧ c'.gid = .all gid ∧ c'.groups = supGroups ∧ c'.inheritable = req.caps ∧
      c'.ambient = req.caps ∧ c'.effective = c'.permitted ∧
      c'.permitted = if user = 0#32 ∧ c.securebits.getLsbD secureNoroot = false then
        c.bounding ||| req.caps else req.caps := by
  rcases launchProgram_cases env req c with ⟨_, _, _, retains, takes, starts, ends⟩ | ends
  swap
  · cases ends.symm.trans execs
  obtain rfl := LaunchEnd.execs.inj (ends.symm.trans execs)
  obtain rfl := capRetainPermitted_eq lawful retains
  obtain ⟨permitted, effective, rfl⟩ := takePrivileges_eq lawful takes root hasUser hasGroups
  obtain ⟨securebits, rfl⟩ := lawful.execve starts plain rfl rfl
  have noroot : (c.securebits ||| 1#32 <<< secureKeepCaps).getLsbD secureNoroot =
      c.securebits.getLsbD secureNoroot := by
    simp [secureNoroot, secureKeepCaps]
  refine ⟨rfl, rfl, rfl, rfl, rfl, rfl, ?_⟩
  simp only [Cred.rooted, noroot]
  by_cases isRoot : user = 0#32 <;> cases c.securebits.getLsbD secureNoroot <;>
    simp [isRoot, BitVec.or_assoc]

def allCaps : BitVec 64 := 0x1FFFFFFFFFF#64

def rootCred : Cred := ⟨.all 0#32, .all 0#32, [], allCaps, allCaps, 0#64, allCaps, 0#64, 0#32⟩

def pingReq : LaunchRequest where
  cmd := "/bin/ping".toList
  args := []
  user := some 1000#32
  groups := some [100#32, 29#32]
  caps := 0x2000#64
  targetCgroup := some "net".toList

theorem ping_as_requested :
    ∃ c, launchProgram { supported := allCaps.getLsbD } pingReq rootCred = .execs c ∧
      c.ambient = 0x2000#64 := by
  have execs : launchProgram { supported := allCaps.getLsbD } pingReq rootCred = .execs
      ⟨.all 1000#32, .all 100#32, [29#32], 0x2000#64, 0x2000#64, 0x2000#64, allCaps, 0x2000#64,
        0#32⟩ := by
    decide +kernel
  have asked := launched_as_requested _ linux_lawful ⟨rfl, rfl, rfl⟩ pingReq _ _ 1000#32 100#32
    [29#32] rfl rfl rfl execs
  exact ⟨_, execs, asked.2.2.2.2.1⟩

/-- A launcher that fails behind the assignment to a cgroup frees the name of the cgroup twice. -/
theorem frees_twice_iff (env : LaunchEnv) (req : LaunchRequest) (c : Cred)
    (frees : List LaunchBlock) (exits : launchProgram env req c = .exits frees) :
    ¬ frees.Nodup ↔ req.targetCgroup.isSome = true ∧ env.assignPid = true ∧
      (capRetainPermitted env c).isSome = true := by
  rcases launchProgram_cases env req c with ⟨_, _, _, -, -, -, ends⟩ | ends
  · cases ends.symm.trans exits
  obtain rfl := LaunchEnd.exits.inj (ends.symm.trans exits)
  unfold failureExit
  cases req.targetCgroup.isSome <;> cases req.groups.isSome <;> cases env.assignPid <;>
    cases (capRetainPermitted env c).isSome <;> decide

/-- The calls of a system on which the program is not to be found. -/
def noProgram : LaunchEnv :=
  { calls := { linux with execve := fun _ _ => none }, supported := allCaps.getLsbD }

theorem ping_freed_twice : ∃ frees,
    launchProgram noProgram pingReq rootCred = .exits frees ∧ ¬ frees.Nodup := by
  have exits : launchProgram noProgram pingReq rootCred =
      .exits (.targetCgroup :: failureExit pingReq) := by decide +kernel
  exact ⟨_, exits, (frees_twice_iff _ _ _ _ exits).mpr (by decide +kernel)⟩

end Crinit
