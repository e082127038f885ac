import Crinit.Answers
import Crinit.Lib.Numeral

/-! The answer to STATUS on its way to the client: its texts, the two messages of `crinitSendStr`,
and what `crinitClientTaskGetStatus` reads. -/
namespace Crinit

open List Numeral

structure TaskOwner where
  user : BitVec 32
  group : BitVec 32
  username : Option String := none
  groupname : Option String := none
  deriving DecidableEq, Repr

def TaskOwner.userText (o : TaskOwner) : String := o.username.getD "root"

def TaskOwner.groupText (o : TaskOwner) : String := o.groupname.getD "root"

def printTime (t : Timespec) : List Char := printSigned t.sec ++ '.' :: printPadded 9 t.nsec

def statusText (t : Task) (o : TaskOwner) : List Char :=
  Nat.toDigits 10 t.state.toNat ++ '\n' :: (printSigned t.pid ++ '\n' ::
    (printTime t.createTime ++ '\n' :: (printTime t.startTime ++ '\n' ::
      (printTime t.endTime ++ '\n' :: (printSigned o.user.toInt ++ '\n' ::
        (printSigned o.group.toInt ++ '\n' :: (o.userText.toList ++ '\n' ::
          o.groupText.toList)))))))

def cutLines : Nat → List Char → Option (List (List Char))
  | 0, s => some [s]
  | cuts + 1, s =>
    match s.dropWhile (· != '\n') with
    | [] => none
    | _ :: rest => (cutLines cuts rest).map (s.takeWhile (· != '\n') :: ·)

def intMax : Nat := 2147483647

/-- The two calls of `snprintf` fail if the text is longer than an `int` can say. The buffer is
then as large as `malloc` makes one of no bytes. -/
def statusTexts (t : Task) (o : TaskOwner) : Option (List String) :=
  if intMax < (statusText t o).length then none
  else (cutLines 8 (statusText t o)).map fun texts => texts.map String.ofList

def statusEnv (o : TaskOwner) : StatusEnv := { texts := fun t => (statusTexts t o).getD [] }

/-- A socket for packets takes messages up to a size that is an `int`. -/
structure SeqSocket where
  maxLen : Nat
  isInt : maxLen ≤ intMax

def sizeBytes : Nat → Nat → List Byte
  | 0, _ => []
  | bytes + 1, n => BitVec.ofNat 8 n :: sizeBytes bytes (n / 256)

def strBytes (str : List Char) : List Byte := str.map fun c => BitVec.ofNat 8 c.toNat

def sendStr (sock : SeqSocket) (str : List Char) : Option (List Byte × List Byte) :=
  if sock.maxLen < str.length + 1 then none
  else some (sizeBytes sizeOfSizeT (str.length + 1), strBytes str ++ [0#8])

def recvRtimCmd (packets : List Byte × List Byte) : Option RtimCmd :=
  if (packets.1.take sizeOfSizeT).length ≠ sizeOfSizeT then none
  else
    let recvLen := sizeT (packets.1.take sizeOfSizeT)
    if (packets.2.take recvLen).length ≠ recvLen then none
    else parseRtimCmd true (cString (terminate recvLen (packets.2.take recvLen)))

def responseCheck (res : RtimCmd) (resCode : RtimOp) : Bool :=
  res.op = resCode && res.args.head? = some resOk

/-- A number has been read and `errno` is not ERANGE. Nothing resets it. -/
def checked (erange : Bool) (text : List Char) (r : Strto) : Option Int :=
  if r.rest.length = text.length || erange || r.erange then none else some r.value

/-- A time of the answer. The test for a missing point comes too late: it is after the addition
to the result of `strchr`. -/
def readTime (erange : Bool) (text : List Char) : Option Timespec := do
  let sec ← checked erange text (strtoSigned 64 10 text)
  match text.dropWhile (· != '.') with
  | [] => none
  | _ :: decPl =>
    let nsec ← checked erange decPl (strtoSigned 64 10 decPl)
    return ⟨sec, nsec⟩

structure TaskStatus where
  state : TaskState
  pid : Int
  ct : Timespec
  st : Timespec
  et : Timespec
  uid : BitVec 32
  gid : BitVec 32
  username : String
  groupname : String
  deriving DecidableEq, Repr

def taskGetStatus (erange : Bool) (res : RtimCmd) : Option TaskStatus :=
  if !responseCheck res (.r .status) then none
  else
    match res.args.map String.toList with
    | [_, s, pid, ct, st, et, uid, gid, username, groupname] => do
      let s ← checked erange s (strtoUnsigned 64 10 s)
      let pid ← checked erange pid (strtoSigned 64 10 pid)
      let ct ← readTime erange ct
      let st ← readTime erange st
      let et ← readTime erange et
      let uid ← checked erange uid (strtoUnsigned 64 10 uid)
      let gid ← checked erange gid (strtoUnsigned 64 10 gid)
      return ⟨BitVec.ofInt 64 s, (BitVec.ofInt 32 pid).toInt, ct, st, et, BitVec.ofInt 32 uid,
        BitVec.ofInt 32 gid, String.ofList username, String.ofList groupname⟩
    | _ => none

def statusOver (sock : SeqSocket) (erange : Bool) (res : RtimCmd) : Option TaskStatus := do
  let (msg, _) ← rtimCmdToMsgStr true res
  let packets ← sendStr sock msg
  let res ← recvRtimCmd packets
  taskGetStatus erange res

/-! ### Texts that are sent as they are -/

def isByte (c : Char) : Bool := 0 < c.toNat && c.toNat < 256

structure Field (cs : List Char) : Prop where
  some : cs ≠ []
  line : '\n' ∉ cs
  bytes : cs.all isByte = true

theorem byte_range {c : Char} (byte : isByte c = true) : 0 < c.toNat ∧ c.toNat < 256 := by
  simpa [isByte] using byte

theorem digit_range {c : Char} (digit : isDigit 10 c = true) : 48 ≤ c.toNat ∧ c.toNat ≤ 57 := by
  have low := of_decide_eq_true digit
  unfold digitVal at low
  split_ifs at low <;> omega

theorem field_numeral {cs : List Char} (some : cs ≠ [])
    (all : ∀ c ∈ cs, isDigit 10 c = true ∨ c = '-' ∨ c = '.') : Field cs := by
  refine ⟨some, fun newline => ?_, List.all_eq_true.2 fun c mem => ?_⟩
  · exact absurd (all _ newline) (by decide)
  · rcases all c mem with digit | rfl | rfl
    · have := digit_range digit
      simp only [isByte, Bool.and_eq_true, decide_eq_true_iff]
      omega
    · decide
    · decide

theorem printSigned_chars (v : Int) :
    printSigned v ≠ [] ∧ ∀ c ∈ printSigned v, isDigit 10 c = true ∨ c = '-' ∨ c = '.' := by
  cases v with
  | ofNat n => exact ⟨Nat.toDigits_ne_nil, fun c mem => .inl (decimal_digits n c mem)⟩
  | negSucc n =>
    refine ⟨cons_ne_nil _ _, fun c mem => ?_⟩
    rcases List.mem_cons.1 mem with rfl | mem
    · exact .inr (.inl rfl)
    · exact .inl (decimal_digits (n + 1) c mem)

theorem field_time (t : Timespec) : Field (printTime t) := by
  have first := printSigned_chars t.sec
  have second : ∀ c ∈ printPadded 9 t.nsec, isDigit 10 c = true ∨ c = '-' ∨ c = '.' := by
    intro c mem
    cases nsec : t.nsec with
    | ofNat n =>
      rw [nsec] at mem
      exact .inl (zeroPadded_digits 9 n c mem)
    | negSucc n =>
      rw [nsec] at mem
      rcases List.mem_cons.1 mem with rfl | mem
      · exact .inr (.inl rfl)
      · exact .inl (zeroPadded_digits 9 (n + 1) c mem)
  refine field_numeral (append_ne_nil_of_left_ne_nil first.1 _) fun c mem => ?_
  rcases List.mem_append.1 mem with mem | mem
  · exact first.2 c mem
  · rcases List.mem_cons.1 mem with rfl | mem
    · exact .inr (.inr rfl)
    · exact second c mem

def statusFields (t : Task) (o : TaskOwner) : List (List Char) :=
  [Nat.toDigits 10 t.state.toNat, printSigned t.pid, printTime t.createTime,
    printTime t.startTime, printTime t.endTime, printSigned o.user.toInt,
    printSigned o.group.toInt, o.userText.toList, o.groupText.toList]

structure OwnerOk (o : TaskOwner) : Prop where
  username : ∀ name ∈ o.username, Field name.toList
  groupname : ∀ name ∈ o.groupname, Field name.toList

theorem field_name {name : Option String} (ok : ∀ n ∈ name, Field n.toList) :
    Field (name.getD "root").toList := by
  cases name with
  | none => exact ⟨by decide, by decide, by decide⟩
  | some n => exact ok n rfl

section Reply

variable {t : Task} {o : TaskOwner}

theorem statusFields_ok (owner : OwnerOk o) : ∀ f ∈ statusFields t o, Field f := by
  have number (v : Int) : Field (printSigned v) :=
    field_numeral (printSigned_chars v).1 (printSigned_chars v).2
  simp only [statusFields, forall_mem_cons]
  exact ⟨field_numeral Nat.toDigits_ne_nil fun c mem => .inl (decimal_digits _ c mem), number _,
    field_time _, field_time _, field_time _, number _, number _, field_name owner.username,
    field_name owner.groupname, forall_mem_nil _⟩

theorem cutLines_line {line : List Char} (plain : '\n' ∉ line) (cuts : Nat) (rest : List Char) :
    cutLines (cuts + 1) (line ++ '\n' :: rest) = (cutLines cuts rest).map (line :: ·) := by
  have inside : ∀ c ∈ line, (c != '\n') = true := by
    intro c mem
    rw [bne_iff_ne]
    rintro rfl
    exact plain mem
  rw [cutLines, dropWhile_append_of_pos inside, takeWhile_append_of_pos inside]
  simp

theorem cutLines_status (owner : OwnerOk o) :
    cutLines 8 (statusText t o) = some (statusFields t o) := by
  have fields := @statusFields_ok t o owner
  simp only [statusFields, forall_mem_cons] at fields
  obtain ⟨h1, h2, h3, h4, h5, h6, h7, h8, -⟩ := fields
  rw [statusText, cutLines_line h1.line, cutLines_line h2.line, cutLines_line h3.line,
    cutLines_line h4.line, cutLines_line h5.line, cutLines_line h6.line, cutLines_line h7.line,
    cutLines_line h8.line]
  rfl

end Reply

/-! ### Numbers that are read back -/

theorem checked_some {cs rest : List Char} {v : Int} (shorter : rest.length < cs.length) :
    checked false cs ⟨v, false, rest⟩ = some v := by
  simp [checked, Nat.ne_of_lt shorter]

theorem checked_spells {cs : List Char} {neg : Bool} {mag : Nat} {v : Int}
    (spells : Spells 10 cs neg mag) : checked false cs ⟨v, false, []⟩ = some v :=
  checked_some (List.length_pos_iff.2 (spells_ne_nil spells))

theorem read_state (s : TaskState) :
    checked false (Nat.toDigits 10 s.toNat) (strtoUnsigned 64 10 (Nat.toDigits 10 s.toNat)) =
      some (s.toNat : Int) := by
  have spells := spells_toDigits (show 1 < 10 by decide) (by decide) s.toNat
  have small : s.toNat < 2 ^ 64 := s.isLt
  rw [strtoUnsigned_held spells small, checked_spells spells]
  congr 1
  change (s.toNat : Int) % 2 ^ 64 = s.toNat
  omega

theorem read_signed {v : Int} (low : -2 ^ 63 ≤ v) (high : v < 2 ^ 63) :
    checked false (printSigned v) (strtoSigned 64 10 (printSigned v)) = some v := by
  obtain ⟨neg, mag, spells, same⟩ := spells_printSigned v
  rw [strtoSigned_held spells (same ▸ low) (same ▸ high), checked_spells spells, same]

/-- A number that was printed as an `int` is the same modulo 2^32, whatever its sign. -/
theorem read_id (id : BitVec 32) : ∃ v,
    checked false (printSigned id.toInt) (strtoUnsigned 64 10 (printSigned id.toInt)) = some v ∧
      BitVec.ofInt 32 v = id := by
  obtain ⟨neg, mag, spells, same⟩ := spells_printSigned id.toInt
  have low := BitVec.le_toInt id
  have high := BitVec.toInt_lt (x := id)
  have small : mag < 2 ^ 64 := by
    cases neg with
    | true =>
      change -(mag : Int) = _ at same
      omega
    | false =>
      change (mag : Int) = _ at same
      omega
  refine ⟨id.toInt % 2 ^ 64, ?_, ?_⟩
  · rw [strtoUnsigned_held spells small, checked_spells spells, same]
  · apply BitVec.eq_of_toNat_eq
    rw [BitVec.toNat_ofInt, Int.emod_emod_of_dvd _ (by decide), ← BitVec.toNat_ofInt,
      BitVec.ofInt_toInt]

structure ValidTime (t : Timespec) : Prop where
  sec : 0 ≤ t.sec ∧ t.sec < 2 ^ 63
  nsec : 0 ≤ t.nsec ∧ t.nsec < 10 ^ 9

theorem read_time {t : Timespec} (valid : ValidTime t) : readTime false (printTime t) = some t := by
  obtain ⟨sec, nsec⟩ := t
  obtain ⟨⟨sec0, sec1⟩, nsec0, nsec1⟩ := valid
  obtain ⟨s, rfl⟩ := Int.eq_ofNat_of_zero_le sec0
  obtain ⟨n, rfl⟩ := Int.eq_ofNat_of_zero_le nsec0
  have text : printTime ⟨s, n⟩ = Nat.toDigits 10 s ++ '.' :: printPadded 9 n := rfl
  have left : (printTime ⟨s, n⟩).dropWhile (· != '.') = '.' :: printPadded 9 n := by
    have digits : ∀ c ∈ Nat.toDigits 10 s, (c != '.') = true := by
      intro c mem
      rw [bne_iff_ne]
      rintro rfl
      exact absurd (decimal_digits s _ mem) (by decide)
    rw [text, dropWhile_append_of_pos digits]
    rfl
  have first : checked false (printTime ⟨s, n⟩) (strtoSigned 64 10 (printTime ⟨s, n⟩)) =
      some (s : Int) := by
    rw [text, strtoSigned_prefix Nat.toDigits_ne_nil (decimal_digits s) (by decide), decimal_value]
    · exact checked_some (by simp [length_pos_iff, Nat.toDigits_ne_nil])
    · rw [decimal_value]
      exact sec1
  have second : checked false (printPadded 9 n) (strtoSigned 64 10 (printPadded 9 n)) =
      some (n : Int) := by
    have spells := spells_printPadded 9 n
    dsimp only at nsec1
    have low : -2 ^ (64 - 1) ≤ signed false n := by
      rw [signed_false]
      omega
    have high : signed false n < 2 ^ (64 - 1) := by
      rw [signed_false]
      omega
    rw [strtoSigned_held spells low high, checked_spells spells, signed_false]
  simp [readTime, first, left, second]

theorem sizeT_sizeBytes (bytes n : Nat) (small : n < 256 ^ bytes) :
    sizeT (sizeBytes bytes n) = n ∧ (sizeBytes bytes n).length = bytes := by
  induction bytes generalizing n with
  | zero =>
    rw [Nat.pow_zero] at small
    exact ⟨(Nat.lt_one_iff.1 small).symm, rfl⟩
  | succ bytes ih =>
    rw [Nat.pow_succ] at small
    obtain ⟨value, length⟩ := ih (n / 256) (Nat.div_lt_of_lt_mul (by omega))
    refine ⟨?_, by rw [sizeBytes, length_cons, length]⟩
    change (BitVec.ofNat 8 n).toNat + 256 * sizeT (sizeBytes bytes (n / 256)) = n
    rw [value, BitVec.toNat_ofNat]
    omega

theorem cString_strBytes {str : List Char} (bytes : str.all isByte = true) :
    cString (strBytes str) = str := by
  have range {c : Char} (mem : c ∈ str) := byte_range (List.all_eq_true.1 bytes c mem)
  have byte {c : Char} (mem : c ∈ str) : (BitVec.ofNat 8 c.toNat).toNat = c.toNat := by
    rw [BitVec.toNat_ofNat]
    exact Nat.mod_eq_of_lt (range mem).2
  have text : ∀ b ∈ strBytes str, decide (b ≠ 0#8) = true := by
    intro b mem
    obtain ⟨c, within, rfl⟩ := List.mem_map.1 mem
    rw [decide_eq_true_iff]
    intro zero
    have code := congrArg BitVec.toNat zero
    rw [byte within] at code
    exact absurd code (Nat.ne_of_gt (range within).1)
  rw [cString, List.takeWhile_eq_self_iff.2 text, strBytes, map_map]
  have same : ∀ c ∈ str, Char.ofNat (BitVec.ofNat 8 c.toNat).toNat = c := by
    intro c mem
    rw [byte mem, Char.ofNat_toNat]
  exact (map_congr_left same).trans (map_id str)

theorem recv_sent {sock : SeqSocket} {str : List Char}
    (bytes : str.all isByte = true) (fits : str.length + 1 ≤ sock.maxLen) :
    ∃ packets, sendStr sock str = some packets ∧ recvRtimCmd packets = parseRtimCmd true str := by
  refine ⟨_, if_neg (Nat.not_lt.2 fits), ?_⟩
  have small : str.length + 1 < 256 ^ sizeOfSizeT := by
    have := sock.isInt
    have : intMax < 256 ^ sizeOfSizeT := by decide
    omega
  obtain ⟨value, length⟩ := sizeT_sizeBytes sizeOfSizeT (str.length + 1) small
  have all : (strBytes str ++ [0#8]).length = str.length + 1 := by
    rw [length_append, strBytes, length_map, length_singleton]
  have whole : (sizeBytes sizeOfSizeT (str.length + 1)).take sizeOfSizeT =
      sizeBytes sizeOfSizeT (str.length + 1) := take_of_length_le (Nat.le_of_eq length)
  have received := @received_text (str.length + 1) (strBytes str ++ [0#8]) []
    (Nat.succ_ne_zero _) (Nat.le_of_eq all.symm)
  have front : (strBytes str ++ [0#8]).take str.length = strBytes str :=
    take_left' (length_map _)
  rw [append_nil, Nat.add_sub_cancel, front, cString_strBytes bytes] at received
  simp only [recvRtimCmd, whole, length, value, received, length_take, all, Nat.min_self,
    ne_eq, not_true_eq_false, if_false]

def statusReply (t : Task) (o : TaskOwner) : List Char :=
  (RtimOp.r .status).opStr.toList ++ argDelim :: (resOk.toList ++ argDelim :: statusText t o)

section RoundTrip

variable {t : Task} {o : TaskOwner}

def statusAnswer (t : Task) (o : TaskOwner) : RtimCmd :=
  ⟨.r .status, resOk :: (statusFields t o).map String.ofList⟩

theorem status_answer {w : World} {name : String} (found : w.db.findTask name = some t)
    (owner : OwnerOk o) (short : (statusText t o).length ≤ intMax) :
    ((execRtimCmdStatus (statusEnv o) ⟨.c .status, [name]⟩).run machine w).1 =
      statusAnswer t o := by
  have texts : (statusEnv o).texts t = (statusFields t o).map String.ofList := by
    simp only [statusEnv, statusTexts, if_neg (Nat.not_lt.2 short), cutLines_status owner,
      Option.map_some, Option.getD_some]
  have reply : machine.reply (.look name true) w = ⟨0, some t⟩ := by
    change (Call.look name true).reply w = _
    rw [Call.reply, if_pos rfl, found]
  have step (next : Reply → Handling RtimCmd) :
      (Script.run machine (.call (.look name true) next) w).1 =
        (Script.run machine (next ⟨0, some t⟩) (machine.after (.look name true) w)).1 := by
    rw [Script.run, reply]
  refine (step _).trans ?_
  rw [statusAnswer, ← texts]
  rfl

theorem statusAnswer_sendable (owner : OwnerOk o) : Sendable (statusAnswer t o).args := by
  refine List.forall_mem_cons.2 ⟨by decide, fun arg mem => ?_⟩
  obtain ⟨f, within, rfl⟩ := List.mem_map.1 mem
  have field := statusFields_ok owner f within
  refine ⟨fun none => field.some ?_, ?_⟩
  · rw [← String.toList_ofList (l := f), none]
    rfl
  · rw [String.toList_ofList]
    exact field.line

theorem statusAnswer_text (t : Task) (o : TaskOwner) :
    (statusAnswer t o).op.opStr.toList ++ argsText (statusAnswer t o).args = statusReply t o := by
  simp only [statusAnswer, argsText, statusFields, statusReply, statusText, map_cons,
    map_nil, flatMap_cons, flatMap_nil, String.toList_ofList, append_nil,
    cons_append, argDelim]

theorem statusReply_bytes (owner : OwnerOk o) : (statusReply t o).all isByte = true := by
  have op : (RtimOp.r .status).opStr.toList.all isByte = true := by decide
  have ok : resOk.toList.all isByte = true := by decide
  have newline : isByte '\n' = true := by decide
  have fields := @statusFields_ok t o owner
  simp only [statusFields, forall_mem_cons] at fields
  obtain ⟨h1, h2, h3, h4, h5, h6, h7, h8, h9, -⟩ := fields
  simp only [statusReply, statusText, argDelim, all_append, all_cons, Bool.and_eq_true]
  exact ⟨op, newline, ok, newline, h1.bytes, newline, h2.bytes, newline, h3.bytes, newline,
    h4.bytes, newline, h5.bytes, newline, h6.bytes, newline, h7.bytes, newline, h8.bytes, newline,
    h9.bytes⟩

theorem taskGetStatus_answer (pid : -2 ^ 31 ≤ t.pid ∧ t.pid < 2 ^ 31)
    (create : ValidTime t.createTime) (start : ValidTime t.startTime)
    (ends : ValidTime t.endTime) : taskGetStatus false (statusAnswer t o) =
      some ⟨t.state, t.pid, t.createTime, t.startTime, t.endTime, o.user, o.group, o.userText,
        o.groupText⟩ := by
  obtain ⟨uid, readUid, sameUid⟩ := read_id o.user
  obtain ⟨gid, readGid, sameGid⟩ := read_id o.group
  have check : responseCheck (statusAnswer t o) (.r .status) = true := by
    simp [responseCheck, statusAnswer]
  have readPid := @read_signed t.pid (by omega) (by omega)
  have samePid : t.pid.bmod (2 ^ 32) = t.pid := Int.bmod_eq_of_le (by omega) (by omega)
  rw [taskGetStatus, check]
  simp [statusAnswer, statusFields, read_state, readPid, read_time create, read_time start,
    read_time ends, readUid, readGid, sameUid, sameGid]
  exact samePid

/-- The client gets the values of the task back, with `root` for a name that is not set. -/
theorem status_round_trip (sock : SeqSocket) (w : World) (name : String) (t : Task) (o : TaskOwner)
    (found : w.db.findTask name = some t) (pid : -2 ^ 31 ≤ t.pid ∧ t.pid < 2 ^ 31)
    (create : ValidTime t.createTime) (start : ValidTime t.startTime) (ends : ValidTime t.endTime)
    (owner : OwnerOk o) (fits : (statusReply t o).length + 1 ≤ sock.maxLen) :
    statusOver sock false ((execRtimCmdStatus (statusEnv o) ⟨.c .status, [name]⟩).run machine w).1 =
      some ⟨t.state, t.pid, t.createTime, t.startTime, t.endTime, o.user, o.group, o.userText,
        o.groupText⟩ := by
  have part : (statusText t o).length ≤ (statusReply t o).length := by
    simp only [statusReply, length_append, length_cons]
    omega
  have short : (statusText t o).length ≤ intMax :=
    Nat.le_trans (Nat.le_trans part (Nat.le_of_succ_le fits)) sock.isInt
  obtain ⟨packets, sent, received⟩ := recv_sent (statusReply_bytes owner) fits
  have parsed : recvRtimCmd packets = some (statusAnswer t o) := by
    rw [received, ← statusAnswer_text, parse_written (statusAnswer_sendable owner)]
  rw [status_answer found owner short, statusOver, toMsgStr_eq, statusAnswer_text]
  simp only [Option.bind_eq_bind, Option.bind_some, sent, parsed]
  exact taskGetStatus_answer pid create start ends

end RoundTrip

def nobodyTask : Task where
  name := "net"
  state := stateRunning
  pid := 42
  createTime := ⟨5, 1⟩
  startTime := ⟨6, 999999999⟩

def nobodyOwner : TaskOwner := ⟨65534#32, 4294967294#32, some "nobody", none⟩

theorem nobodyOwner_ok : OwnerOk nobodyOwner := by
  constructor
  · intro name mem
    cases mem
    exact ⟨by decide, by decide, by decide⟩
  · intro name mem
    cases mem

theorem nobody_round_trip : statusOver ⟨1000, by decide⟩ false
    ((execRtimCmdStatus (statusEnv nobodyOwner) ⟨.c .status, ["net"]⟩).run machine
      { db := { taskSet := [nobodyTask] } }).1 =
    some ⟨stateRunning, 42, ⟨5, 1⟩, ⟨6, 999999999⟩, {}, 65534#32, 4294967294#32, "nobody",
      "root"⟩ :=
  status_round_trip ⟨1000, by decide⟩ { db := { taskSet := [nobodyTask] } } "net" nobodyTask
    nobodyOwner rfl (by decide) ⟨by decide, by decide⟩ ⟨by decide, by decide⟩
    ⟨by decide, by decide⟩ nobodyOwner_ok (by decide)

end Crinit
