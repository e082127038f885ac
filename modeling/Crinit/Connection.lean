import Crinit.RtimMsg

/-! One connection of `notiserv.c`: the length packet and the data packet of a peer, their
credentials, and the command that is executed, on a 64 bit little endian machine. -/
namespace Crinit

open List

abbrev Byte := BitVec 8

structure Ucred where
  pid : Int
  uid : Nat
  gid : Nat
  deriving DecidableEq, Repr

structure Cmsg where
  cmsgLen : Nat
  cmsgLevel : Int
  cmsgType : Int
  creds : Ucred
  deriving DecidableEq, Repr

def cmsgLenUcred : Nat := 28
def solSocket : Int := 1
def scmCredentials : Int := 2

structure Packet where
  bytes : List Byte
  control : Option Cmsg
  deriving DecidableEq, Repr

def Packet.recv (p : Packet) (size : Nat) : List Byte := p.bytes.take size

def cmsgHdrCheck (cmh : Option Cmsg) : Bool :=
  match cmh with
  | none => false
  | some cm =>
    if cm.cmsgLen ≠ cmsgLenUcred then false
    else if cm.cmsgLevel ≠ solSocket then false
    else if cm.cmsgType ≠ scmCredentials then false
    else true

def Packet.scmCreds (p : Packet) : Option Ucred :=
  if cmsgHdrCheck p.control then p.control.map Cmsg.creds else none

def ucredCheckEqual (a b : Ucred) : Bool := a.pid = b.pid && a.uid = b.uid && a.gid = b.gid

def sizeOfSizeT : Nat := 8

def sizeT (bytes : List Byte) : Nat := bytes.foldr (fun b n => b.toNat + 256 * n) 0

/-- Outcomes of system calls, and what the allocator leaves in the memory of the buffer. -/
structure ConnEnv where
  lengthOk : Bool := true
  dataOk : Bool := true
  bufferOk : Bool := true
  argsOk : Bool := true
  stale : List Byte := []
  deriving DecidableEq, Repr

/-- The store behind the reception: index `dataLen - 1`, which for an announced
length of 0 is in front of the buffer. -/
def terminate (dataLen : Nat) (memory : List Byte) : List Byte :=
  if dataLen = 0 then memory else memory.set (dataLen - 1) 0#8

def cString (memory : List Byte) : List Char :=
  (memory.takeWhile fun b => b ≠ 0#8).map fun b => Char.ofNat b.toNat

def recvStr (env : ConnEnv) (length data : Packet) : Option (List Char × Ucred) := do
  if !env.lengthOk then none
  else if (length.recv sizeOfSizeT).length ≠ sizeOfSizeT then none
  else
    let dataLen := sizeT (length.recv sizeOfSizeT)
    let first ← length.scmCreds
    if !env.bufferOk then none
    else if !env.dataOk then none
    else if (data.recv dataLen).length ≠ dataLen then none
    else
      let memory := terminate dataLen (data.recv dataLen ++ env.stale.drop dataLen)
      let second ← data.scmCreds
      if ucredCheckEqual first second then some (cString memory, first) else none

/-- The effective words of `struct __user_cap_data_struct[2]`. -/
abbrev CapData := Nat → BitVec 32

def capSysBoot : Nat := 22
def capToIndex (x : Nat) : Nat := x / 32
def capToMask (x : Nat) : BitVec 32 := 1#32 <<< (x % 32)

def hasSysBoot (capdata : CapData) : Bool :=
  capdata (capToIndex capSysBoot) &&& capToMask capSysBoot != 0#32

/-- The processes that the daemon can see. No process has the number 0: the kernel
gives it for a sender without a number in the namespace of the daemon. -/
structure Kernel where
  euid : Nat
  own : CapData
  processes : Int → Option CapData
  noZero : processes 0 = none

/-- `capget`: the number 0 stands for the calling thread. -/
def procCapget (k : Kernel) (pid : Int) : Option CapData :=
  if pid = 0 then some k.own else k.processes pid

def checkPerm (k : Kernel) (op : RtimOp) (passedCreds : Ucred) : Bool :=
  match op with
  | .c .addTask | .c .addSeries | .c .enable | .c .disable | .c .stop | .c .kill | .c .restart
  | .c .notify => passedCreds.uid = k.euid
  | .c .status | .c .taskList | .c .getVer => true
  | .c .shutdown =>
    match procCapget k passedCreds.pid with
    | none => false
    | some capdata => hasSysBoot capdata
  | .r _ => false

inductive Served where
  | closed
  | denied (op : RtimOp)
  | executed (cmd : RtimCmd)
  deriving DecidableEq, Repr

def connThread (k : Kernel) (env : ConnEnv) (length data : Packet) : Served :=
  match recvStr env length data with
  | none => .closed
  | some (clientMsg, msgCreds) =>
    match parseRtimCmd env.argsOk clientMsg with
    | none => .closed
    | some cmd => if checkPerm k cmd.op msgCreds then .executed cmd else .denied cmd.op

def Packet.Carries (p : Packet) (u : Ucred) : Prop :=
  p.control = some ⟨cmsgLenUcred, solSocket, scmCredentials, u⟩

def announcedLength (length : Packet) : Nat := sizeT (length.bytes.take sizeOfSizeT)

def Packet.text (p : Packet) (length : Nat) : List Char := cString (p.bytes.take (length - 1))

theorem scmCreds_iff (p : Packet) (u : Ucred) : p.scmCreds = some u ↔ p.Carries u := by
  unfold Packet.scmCreds Packet.Carries cmsgHdrCheck
  cases p.control with
  | none => simp
  | some cm =>
    obtain ⟨len, level, type, creds⟩ := cm
    by_cases hlen : len = cmsgLenUcred <;> by_cases hlevel : level = solSocket <;>
      by_cases htype : type = scmCredentials <;> simp [hlen, hlevel, htype]

theorem ucredCheckEqual_iff (a b : Ucred) : ucredCheckEqual a b = true ↔ a = b := by
  obtain ⟨pid, uid, gid⟩ := a
  obtain ⟨pid', uid', gid'⟩ := b
  simp [ucredCheckEqual, and_assoc]

theorem cString_stop (xs ys : List Byte) : cString (xs ++ 0#8 :: ys) = cString xs := by
  unfold cString
  congr 1
  induction xs with
  | nil => simp
  | cons x xs ih =>
    by_cases zero : x = 0#8
    · simp [zero]
    · simpa [zero] using ih

theorem received_text {n : Nat} {data stale : List Byte} (some : n ≠ 0) (all : n ≤ data.length) :
    cString (terminate n (data.take n ++ stale)) = cString (data.take (n - 1)) := by
  have split : (data.take n ++ stale).set (n - 1) 0#8 = data.take (n - 1) ++ 0#8 :: stale := by
    obtain ⟨m, rfl⟩ := Nat.exists_eq_succ_of_ne_zero some
    rw [Nat.succ_eq_add_one, take_add_one, Nat.add_sub_cancel, append_assoc]
    rw [set_append_right _ _ (Nat.le_of_eq (length_take_of_le (by omega)))]
    rw [getElem?_eq_getElem (by omega)]
    simp [Nat.min_eq_left (show m ≤ data.length by omega)]
  rw [terminate, if_neg some, split, cString_stop]

theorem recvStr_iff (env : ConnEnv) (length data : Packet) (msg : List Char) (u : Ucred) :
    recvStr env length data = some (msg, u) ↔
      (env.lengthOk = true ∧ env.bufferOk = true ∧ env.dataOk = true) ∧
      sizeOfSizeT ≤ length.bytes.length ∧ announcedLength length ≤ data.bytes.length ∧
      length.Carries u ∧ data.Carries u ∧
      msg = if announcedLength length = 0 then cString env.stale
      else data.text (announcedLength length) := by
  have long (p : Packet) (n : Nat) : (p.recv n).length = n ↔ n ≤ p.bytes.length := by
    rw [Packet.recv, length_take]
    omega
  have text (all : announcedLength length ≤ data.bytes.length) :
      cString (terminate (announcedLength length) (data.recv (announcedLength length) ++
        env.stale.drop (announcedLength length))) =
      if announcedLength length = 0 then cString env.stale
      else data.text (announcedLength length) := by
    split_ifs with zero
    · simp [zero, terminate, Packet.recv]
    · exact received_text zero all
  simp only [recvStr, Option.bind_eq_bind, Option.ite_none_left_eq_some, Option.bind_eq_some_iff,
    Option.ite_none_right_eq_some, scmCreds_iff, ucredCheckEqual_iff, Bool.not_eq_true,
      not_not, long,
    Bool.not_eq_false', Option.some.injEq, Prod.mk.injEq]
  constructor
  · rintro ⟨lengthOk, eight, first, carries, bufferOk, dataOk, all, second, carries', rfl, rfl, rfl⟩
    exact ⟨⟨lengthOk, bufferOk, dataOk⟩, eight, all, carries, carries', text all⟩
  · rintro ⟨⟨lengthOk, bufferOk, dataOk⟩, eight, all, carries, carries', rfl⟩
    exact ⟨lengthOk, eight, u, carries, bufferOk, dataOk, all, u, carries', rfl, text all, rfl⟩

def Command.privileged : Command → Bool
  | .addTask | .addSeries | .enable | .disable | .stop | .kill | .restart | .notify => true
  | .status | .taskList | .getVer | .shutdown => false

structure Authorised (k : Kernel) (length data : Packet) (cmd : RtimCmd) : Prop where
  creds : ∃ u, length.Carries u ∧ data.Carries u ∧
    (∀ x, cmd.op = .c x → x.privileged = true → u.uid = k.euid) ∧
    (cmd.op = .c .shutdown → ∃ capdata, k.processes u.pid = some capdata ∧
      hasSysBoot capdata = true)
  parsed : parseRtimCmd true (data.text (announcedLength length)) = some cmd

theorem checkPerm_privileged {k : Kernel} {x : Command} {u : Ucred}
    (privileged : x.privileged = true) :
    checkPerm k (.c x) u = true ↔ u.uid = k.euid := by
  cases x with
  | addTask | addSeries | enable | disable | stop | kill | restart | notify => simp [checkPerm]
  | status | taskList | getVer | shutdown => cases privileged

theorem checkPerm_shutdown {k : Kernel} {u : Ucred} :
    checkPerm k (.c .shutdown) u = true ↔
      (u.pid = 0 ∧ hasSysBoot k.own = true) ∨
        ∃ capdata, k.processes u.pid = some capdata ∧ hasSysBoot capdata = true := by
  simp only [checkPerm, procCapget]
  by_cases zero : u.pid = 0
  · simp [zero, k.noZero]
  · simp only [zero, if_false, false_and, false_or]
    cases k.processes u.pid <;> simp

theorem parse_allocated {ok : Bool} {msg : List Char} {cmd : RtimCmd}
    (parsed : parseRtimCmd ok msg = some cmd) : parseRtimCmd true msg = some cmd := by
  cases ok with
  | true => exact parsed
  | false => simp [parseRtimCmd] at parsed

/-- A peer with credentials announces a string, and a sender without a process
number asks for no SHUTDOWN from a daemon that may shut down. -/
def Trustworthy (k : Kernel) (length data : Packet) : Prop :=
  ∀ u, length.Carries u → data.Carries u → sizeOfSizeT ≤ length.bytes.length →
    announcedLength length ≠ 0 ∧ (u.pid = 0 → hasSysBoot k.own = true →
      announcedLength length ≤ data.bytes.length →
      ∀ cmd, parseRtimCmd true (data.text (announcedLength length)) = some cmd →
        cmd.op ≠ .c .shutdown)

theorem connThread_iff (k : Kernel) (env : ConnEnv) (length data : Packet) (cmd : RtimCmd) :
    connThread k env length data = .executed cmd ↔
      ∃ msg u, recvStr env length data = some (msg, u) ∧ parseRtimCmd env.argsOk msg = some cmd ∧
        checkPerm k cmd.op u = true := by
  unfold connThread
  constructor
  · intro served
    split at served
    · cases served
    · rename_i msg u received
      split at served
      · cases served
      · rename_i parsedCmd parsed
        split_ifs at served with permitted
        cases served
        exact ⟨msg, u, received, parsed, permitted⟩
  · rintro ⟨msg, u, received, parsed, permitted⟩
    simp [received, parsed, permitted]

theorem carries_unique {p : Packet} {u v : Ucred} (first : p.Carries u) (second : p.Carries v) :
    u = v :=
  congrArg Cmsg.creds (Option.some.inj (first.symm.trans second))

def inMemory (s : String) : List Byte := s.toList.map fun ch => BitVec.ofNat 8 ch.toNat

/-- Whatever the allocator leaves behind, a connection executes only what an
authorised peer has sent, exactly when its packets can be trusted. -/
theorem authorised_iff (k : Kernel) (length data : Packet) :
    (∀ env cmd, connThread k env length data = .executed cmd → Authorised k length data cmd) ↔
      Trustworthy k length data := by
  simp only [connThread_iff, recvStr_iff]
  constructor
  · intro holds u carries carries' eight
    refine ⟨fun zero => ?_, fun pid own all cmd parsed shutdown => ?_⟩
    · -- the string is read from the memory that nothing was received into
      have old : parseRtimCmd true (cString (inMemory "C_GETVER")) =
        some ⟨.c .getVer, []⟩ := by decide
      obtain ⟨_, parsed⟩ := holds { stale := inMemory "C_GETVER" } ⟨.c .getVer, []⟩
        ⟨_, u, ⟨⟨rfl, rfl, rfl⟩, eight, by omega, carries, carries', (if_pos zero).symm⟩, old, rfl⟩
      rw [zero] at parsed
      cases parsed
    · have some : announcedLength length ≠ 0 := by
        intro zero
        rw [zero] at parsed
        cases parsed
      obtain ⟨⟨v, carriesV, _, _, process⟩, _⟩ := holds {} cmd
        ⟨_, u, ⟨⟨rfl, rfl, rfl⟩, eight, all, carries, carries', (if_neg some).symm⟩, parsed,
          by rw [shutdown]; exact checkPerm_shutdown.mpr (.inl ⟨pid, own⟩)⟩
      obtain ⟨capdata, found, _⟩ := process shutdown
      rw [← carries_unique carries carriesV, pid, k.noZero] at found
      cases found
  · rintro trusted env cmd ⟨msg, u, ⟨_, eight, all, carries, carries', rfl⟩, parsed, permitted⟩
    obtain ⟨some, numbered⟩ := trusted u carries carries' eight
    rw [if_neg some] at parsed
    have parsed := parse_allocated parsed
    refine ⟨⟨u, carries, carries', fun x op privileged => ?_, fun op => ?_⟩, parsed⟩
    · rw [op] at permitted
      exact (checkPerm_privileged privileged).mp permitted
    · rw [op] at permitted
      rcases checkPerm_shutdown.mp permitted with ⟨pid, own⟩ | process
      · exact absurd op (numbered pid own all cmd parsed)
      · exact process

def bootDaemon : Kernel where
  euid := 0
  own := fun _ => BitVec.allOnes 32
  processes := fun _ => none
  noZero := rfl

def sentBy (u : Ucred) (bytes : List Byte) : Packet :=
  ⟨bytes, some ⟨cmsgLenUcred, solSocket, scmCredentials, u⟩⟩

def lengthPacket (u : Ucred) (n : Byte) : Packet := sentBy u (n :: List.replicate 7 0#8)

def superuser : Ucred := ⟨7, 0, 0⟩

def stranger : Ucred := ⟨0, 65534, 65534⟩

/-- With an announced length of 0 the daemon stops the task that is named in old
memory. With a sender that it cannot see it asks for its own capabilities. -/
theorem unsent_and_unauthorised_executed :
    (connThread bootDaemon { stale := inMemory "C_STOP\nnet" } (lengthPacket superuser 0)
        (sentBy superuser []) = .executed ⟨.c .stop, ["net"]⟩ ∧
      ¬ Authorised bootDaemon (lengthPacket superuser 0) (sentBy superuser [])
        ⟨.c .stop, ["net"]⟩) ∧
    (connThread bootDaemon {} (lengthPacket stranger 11)
        (sentBy stranger (inMemory "C_SHUTDOWN" ++ [0#8])) = .executed ⟨.c .shutdown, []⟩ ∧
      ¬ Authorised bootDaemon (lengthPacket stranger 11)
        (sentBy stranger (inMemory "C_SHUTDOWN" ++ [0#8])) ⟨.c .shutdown, []⟩) := by
  refine ⟨⟨by decide, ?_⟩, by decide, ?_⟩
  · rintro ⟨_, parsed⟩
    exact absurd parsed (by decide)
  · rintro ⟨⟨u, _, _, _, process⟩, _⟩
    obtain ⟨_, found, _⟩ := process rfl
    cases found

end Crinit
