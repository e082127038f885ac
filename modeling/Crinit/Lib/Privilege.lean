import Mathlib.Data.List.Basic

/-! The credentials of a process, what the calls of the kernel and of libcap do to them where they
succeed, and the calls of Linux as in `capabilities(7)`. A call that fails is `none`. -/
namespace Privilege

structure Ids where
  real : BitVec 32
  effective : BitVec 32
  saved : BitVec 32
  deriving DecidableEq, Repr

def Ids.all (id : BitVec 32) : Ids := ⟨id, id, id⟩

structure Cred where
  uid : Ids
  gid : Ids
  groups : List (BitVec 32)
  permitted : BitVec 64
  effective : BitVec 64
  inheritable : BitVec 64
  bounding : BitVec 64
  ambient : BitVec 64
  securebits : BitVec 32
  deriving DecidableEq, Repr

/-- The sets of a `cap_t`. -/
structure CapState where
  permitted : BitVec 64
  effective : BitVec 64
  inheritable : BitVec 64

structure FileCaps where
  permitted : BitVec 64
  inheritable : BitVec 64
  effective : Bool

/-- A file to execute, with its owner and its group as far as they come with a set-id bit. -/
structure File where
  setuid : Option (BitVec 32) := none
  setgid : Option (BitVec 32) := none
  caps : Option FileCaps := none

structure File.Plain (f : File) : Prop where
  setuid : f.setuid = none
  setgid : f.setgid = none
  caps : f.caps = none

structure Calls where
  setgroups : Cred → List (BitVec 32) → Option Cred
  setgid : Cred → BitVec 32 → Option Cred
  setuid : Cred → BitVec 32 → Option Cred
  getSecurebits : Cred → Option (BitVec 32)
  setSecurebits : Cred → BitVec 32 → Option Cred
  capGetProc : Cred → Option CapState
  capClearInheritable : CapState → Option CapState
  capSetInheritable : CapState → Nat → Option CapState
  capSetProc : Cred → CapState → Option Cred
  raiseAmbient : Cred → Nat → Option Cred
  execve : Cred → File → Option Cred

def capSetgid : Nat := 6
def capSetuid : Nat := 7
def capSetpcap : Nat := 8

def secureNoroot : Nat := 0
def secureNoSetuidFixup : Nat := 2
def secureKeepCaps : Nat := 4
def secureNoCapAmbientRaise : Nat := 6

/-- Every second bit locks the one before it. -/
def secureAllLocks : BitVec 32 := 0xAA#32
def secureAll : BitVec 32 := 0xFF#32

def ngroupsMax : Nat := 65536

def invalidId : BitVec 32 := BitVec.allOnes 32

def within (a b : BitVec 64) : Bool := a &&& ~~~b = 0#64

/-- Whether a program of the user is given the capabilities of root. -/
def Cred.rooted (c : Cred) (user : BitVec 32) : Bool :=
  user = 0#32 && !c.securebits.getLsbD secureNoroot

/-- What the manual pages say about the calls that succeed. -/
structure Calls.Lawful (k : Calls) : Prop where
  setgroups : ∀ {c c' groups}, k.setgroups c groups = some c' →
    c.effective.getLsbD capSetgid = true ∧ c' = { c with groups := groups }
  setgid : ∀ {c c' gid}, k.setgid c gid = some c' → c.effective.getLsbD capSetgid = true →
    c' = { c with gid := .all gid }
  setuid : ∀ {c c' uid}, k.setuid c uid = some c' → c.uid = .all 0#32 →
    ∃ permitted effective ambient, c' = { c with
      uid := .all uid, permitted := permitted, effective := effective, ambient := ambient }
  getSecurebits : ∀ {c bits}, k.getSecurebits c = some bits → bits = c.securebits
  setSecurebits : ∀ {c c' bits}, k.setSecurebits c bits = some c' →
    c' = { c with securebits := bits }
  capGetProc : ∀ {c state}, k.capGetProc c = some state →
    state = ⟨c.permitted, c.effective, c.inheritable⟩
  capClearInheritable : ∀ {state state'}, k.capClearInheritable state = some state' →
    state' = { state with inheritable := 0#64 }
  capSetInheritable : ∀ {state state' cap}, k.capSetInheritable state cap = some state' →
    state' = { state with inheritable := state.inheritable ||| 1#64 <<< cap }
  capSetProc : ∀ {c c' state}, k.capSetProc c state = some c' → c' = { c with
    permitted := state.permitted
    effective := state.effective
    inheritable := state.inheritable
    ambient := c.ambient &&& (state.permitted &&& state.inheritable) }
  raiseAmbient : ∀ {c c' cap}, k.raiseAmbient c cap = some c' →
    c' = { c with ambient := c.ambient ||| 1#64 <<< cap }
  /-- For one user and one group, and a file that changes neither. -/
  execve : ∀ {c c' file user gid}, k.execve c file = some c' → file.Plain → c.uid = .all user →
    c.gid = .all gid → ∃ securebits, c' = { c with
      permitted := (if c.rooted user then c.bounding ||| c.inheritable else 0#64) ||| c.ambient
      effective := (if c.rooted user then c.bounding ||| c.inheritable else 0#64) ||| c.ambient
      securebits := securebits }

/-! ### Linux -/

variable (c : Cred)

def setgroups (groups : List (BitVec 32)) : Option Cred :=
  if !c.effective.getLsbD capSetgid then none
  else if ngroupsMax < groups.length ∨ invalidId ∈ groups then none
  else some { c with groups := groups }

def setId (capable : Bool) (id : BitVec 32) (old : Ids) : Option Ids :=
  if id = invalidId then none
  else if capable then some (.all id)
  else if id = old.real ∨ id = old.saved then some { old with effective := id }
  else none

def setgid (gid : BitVec 32) : Option Cred :=
  (setId (c.effective.getLsbD capSetgid) gid c.gid).map fun ids => { c with gid := ids }

def Ids.someRoot (ids : Ids) : Bool := ids.real = 0#32 || ids.effective = 0#32 || ids.saved = 0#32

def fixup (uid : Ids) : Cred :=
  if c.securebits.getLsbD secureNoSetuidFixup then { c with uid := uid }
  else
    let leaves := c.uid.someRoot && !uid.someRoot
    let clears := leaves && !c.securebits.getLsbD secureKeepCaps
    let permitted := if clears then 0#64 else c.permitted
    let effective :=
      if c.uid.effective = 0#32 ∧ uid.effective ≠ 0#32 then 0#64
      else if c.uid.effective ≠ 0#32 ∧ uid.effective = 0#32 then permitted
      else if clears then 0#64 else c.effective
    { c with
      uid := uid
      permitted := permitted
      effective := effective
      ambient := if leaves then 0#64 else c.ambient }

def setuid (uid : BitVec 32) : Option Cred :=
  (setId (c.effective.getLsbD capSetuid) uid c.uid).map (fixup c)

def setSecurebits (bits : BitVec 32) : Option Cred :=
  if ((c.securebits &&& secureAllLocks) >>> 1) &&& (c.securebits ^^^ bits) ≠ 0#32 then none
  else if c.securebits &&& secureAllLocks &&& ~~~bits ≠ 0#32 then none
  else if bits &&& ~~~secureAll ≠ 0#32 then none
  else if !c.effective.getLsbD capSetpcap then none
  else some { c with securebits := bits }

def capset (s : CapState) : Option Cred :=
  if !c.effective.getLsbD capSetpcap && !within s.inheritable (c.inheritable ||| c.permitted) then
    none
  else if !within s.inheritable (c.inheritable ||| c.bounding) then none
  else if !within s.permitted c.permitted then none
  else if !within s.effective s.permitted then none
  else some { c with
    permitted := s.permitted
    effective := s.effective
    inheritable := s.inheritable
    ambient := c.ambient &&& (s.permitted &&& s.inheritable) }

def raiseAmbient (cap : Nat) : Option Cred :=
  if !(c.permitted.getLsbD cap && c.inheritable.getLsbD cap) then none
  else if c.securebits.getLsbD secureNoCapAmbientRaise then none
  else some { c with ambient := c.ambient ||| 1#64 <<< cap }

/-- The capabilities of root come with the real user, and with the set-user-ID bit of a file that
has none of its own. -/
def execve (f : File) : Cred :=
  let uid := f.setuid.getD c.uid.effective
  let gid := f.setgid.getD c.gid.effective
  let root := !c.securebits.getLsbD secureNoroot &&
    (c.uid.real = 0#32 || uid = 0#32 && f.caps.isNone)
  let setid := uid ≠ c.uid.real || gid ≠ c.gid.real
  let ambient := if setid || f.caps.isSome then 0#64 else c.ambient
  let own := f.caps.elim 0#64 fun caps =>
    caps.inheritable &&& c.inheritable ||| caps.permitted &&& c.bounding
  let permitted := (if root then c.bounding ||| c.inheritable else own) ||| ambient
  { c with
    uid := ⟨c.uid.real, uid, uid⟩
    gid := ⟨c.gid.real, gid, gid⟩
    permitted := permitted
    effective := if root && uid = 0#32 || f.caps.any (·.effective) then permitted else ambient
    ambient := ambient
    securebits := c.securebits &&& ~~~(1#32 <<< secureKeepCaps) }

def linux : Calls where
  setgroups := setgroups
  setgid := setgid
  setuid := setuid
  getSecurebits c := some c.securebits
  setSecurebits := setSecurebits
  capGetProc c := some ⟨c.permitted, c.effective, c.inheritable⟩
  capClearInheritable s := some { s with inheritable := 0#64 }
  capSetInheritable s cap := some { s with inheritable := s.inheritable ||| 1#64 <<< cap }
  capSetProc := capset
  raiseAmbient := raiseAmbient
  execve c f := some (execve c f)

variable {c} {c' : Cred}

theorem setgroups_eq {groups : List (BitVec 32)} (set : setgroups c groups = some c') :
    c.effective.getLsbD capSetgid = true ∧ c' = { c with groups := groups } := by
  unfold setgroups at set
  split_ifs at set with refused
  exact ⟨by simpa using refused, (Option.some.inj set).symm⟩

theorem setgid_eq {gid : BitVec 32} (set : setgid c gid = some c')
    (capable : c.effective.getLsbD capSetgid = true) : c' = { c with gid := .all gid } := by
  obtain ⟨ids, allowed, rfl⟩ := Option.map_eq_some_iff.mp set
  rw [capable, setId] at allowed
  split_ifs at allowed with _ no
  · rw [Option.some.inj allowed]
  · exact absurd rfl no

/-- Without the capability, root only becomes root. -/
theorem setId_root {capable : Bool} {id : BitVec 32} {ids : Ids}
    (set : setId capable id (.all 0#32) = some ids) : ids = .all id := by
  unfold setId at set
  split_ifs at set with _ _ root
  · exact (Option.some.inj set).symm
  · obtain rfl : id = 0#32 := or_self_iff.mp root
    exact (Option.some.inj set).symm

theorem fixup_same (uid : Ids) : ∃ permitted effective ambient, fixup c uid =
    { c with uid := uid, permitted := permitted, effective := effective, ambient := ambient } := by
  unfold fixup
  split
  · exact ⟨_, _, _, rfl⟩
  · exact ⟨_, _, _, rfl⟩

theorem setuid_eq {uid : BitVec 32} (set : setuid c uid = some c') (root : c.uid = .all 0#32) :
    ∃ permitted effective ambient, c' = { c with
      uid := .all uid, permitted := permitted, effective := effective, ambient := ambient } := by
  obtain ⟨ids, allowed, rfl⟩ := Option.map_eq_some_iff.mp set
  obtain rfl := setId_root (root ▸ allowed)
  exact fixup_same _

theorem setSecurebits_eq {bits : BitVec 32} (set : setSecurebits c bits = some c') :
    c' = { c with securebits := bits } := by
  unfold setSecurebits at set
  split_ifs at set
  exact (Option.some.inj set).symm

theorem capset_eq {s : CapState} (set : capset c s = some c') : c' = { c with
      permitted := s.permitted
      effective := s.effective
      inheritable := s.inheritable
      ambient := c.ambient &&& (s.permitted &&& s.inheritable) } := by
  unfold capset at set
  split_ifs at set
  exact (Option.some.inj set).symm

theorem raiseAmbient_eq {cap : Nat} (raised : raiseAmbient c cap = some c') :
    c' = { c with ambient := c.ambient ||| 1#64 <<< cap } := by
  unfold raiseAmbient at raised
  split_ifs at raised
  exact (Option.some.inj raised).symm

theorem execve_plain {f : File} {user gid : BitVec 32} (plain : f.Plain) (uid : c.uid = .all user)
    (hasGid : c.gid = .all gid) : ∃ securebits, execve c f = { c with
      permitted := (if c.rooted user then c.bounding ||| c.inheritable else 0#64) ||| c.ambient
      effective := (if c.rooted user then c.bounding ||| c.inheritable else 0#64) ||| c.ambient
      securebits := securebits } := by
  refine ⟨c.securebits &&& ~~~(1#32 <<< secureKeepCaps), ?_⟩
  by_cases root : user = 0#32 <;> by_cases noroot : c.securebits.getLsbD secureNoroot = true <;>
    simp [execve, plain.setuid, plain.setgid, plain.caps, uid, hasGid, Ids.all, Cred.rooted, root,
      noroot]

theorem linux_lawful : linux.Lawful where
  setgroups := setgroups_eq
  setgid := setgid_eq
  setuid := setuid_eq
  getSecurebits get := (Option.some.inj get).symm
  setSecurebits := setSecurebits_eq
  capGetProc get := (Option.some.inj get).symm
  capClearInheritable clear := (Option.some.inj clear).symm
  capSetInheritable set := (Option.some.inj set).symm
  capSetProc := capset_eq
  raiseAmbient := raiseAmbient_eq
  execve execs plain uid gid := Option.some.inj execs ▸ execve_plain plain uid gid

end Privilege
