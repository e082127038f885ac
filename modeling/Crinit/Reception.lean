import Crinit.StatusReply

/-! The buffers that messages are received into: as many bytes as the peer announces, with a
terminator stored in the last. -/
namespace Crinit

open List

def terminatorIndex (dataLen : Nat) : Nat := (BitVec.ofNat 64 dataLen - 1#64).toNat

def fillBuffer (bufferOk dataOk : Bool) (stale : List Byte) (dataLen : Nat) (data : List Byte) :
    List Nat × Option (List Byte) :=
  if !bufferOk then ([], none)
  else if !dataOk then ([], none)
  else
    let received := data.take dataLen
    if received.length ≠ dataLen then (List.range received.length, none)
    else (List.range received.length ++ [terminatorIndex dataLen],
      some (terminate dataLen (received ++ stale.drop dataLen)))

def recvStrTrace (env : ConnEnv) (length data : Packet) : List Nat × Option (List Char × Ucred) :=
  if !env.lengthOk then ([], none)
  else if (length.recv sizeOfSizeT).length ≠ sizeOfSizeT then ([], none)
  else
    match length.scmCreds with
    | none => ([], none)
    | some first =>
      let r := fillBuffer env.bufferOk env.dataOk env.stale (sizeT (length.recv sizeOfSizeT))
        data.bytes
      (r.1, r.2.bind fun memory => data.scmCreds.bind fun second =>
        if ucredCheckEqual first second then some (cString memory, first) else none)

structure RecvEnv where
  lengthOk : Bool := true
  dataOk : Bool := true
  bufferOk : Bool := true
  stale : List Byte := []
  deriving DecidableEq, Repr

def recvTrace (env : RecvEnv) (length data : List Byte) : List Nat × Option (List Char) :=
  if !env.lengthOk then ([], none)
  else if (length.take sizeOfSizeT).length ≠ sizeOfSizeT then ([], none)
  else
    let r := fillBuffer env.bufferOk env.dataOk env.stale (sizeT (length.take sizeOfSizeT)) data
    (r.1, r.2.map cString)

theorem recvStrTrace_result (env : ConnEnv) (length data : Packet) :
    (recvStrTrace env length data).2 = recvStr env length data := by
  unfold recvStrTrace recvStr fillBuffer Packet.recv
  cases length.scmCreds with
  | none =>
    dsimp only
    split_ifs <;> rfl
  | some first =>
    dsimp only
    split_ifs <;> rfl

theorem recvTrace_result (packets : List Byte × List Byte) :
    (recvTrace {} packets.1 packets.2).2.bind (parseRtimCmd true) = recvRtimCmd packets := by
  unfold recvTrace recvRtimCmd fillBuffer
  dsimp only
  split_ifs <;> simp_all

def packetText (bytes : List Byte) : List Char := cString (bytes.set (bytes.length - 1) 0#8)

structure ReceivedIn (size : Nat) (data : List Byte) (writes : List Nat)
    (text : Option (List Char)) : Prop where
  bounds : ∀ i ∈ writes, i < size
  text : ∀ s, text = some s → s = packetText data

def Whole (n : Nat) (data : List Byte) : Prop := n = data.length ∨ 0#8 ∈ data.take n

section Buffer

variable {bufferOk dataOk : Bool} {stale data : List Byte} {n : Nat}

theorem terminatorIndex_lt (some : n ≠ 0) (size : n < 2 ^ 64) : terminatorIndex n < n := by
  unfold terminatorIndex
  rw [BitVec.toNat_sub, BitVec.toNat_ofNat]
  simp only [BitVec.toNat_ofNat]
  omega

theorem sizeT_lt (bytes : List Byte) : sizeT bytes < 256 ^ bytes.length := by
  induction bytes with
  | nil => exact Nat.zero_lt_one
  | cons b bytes ih =>
    have low : b.toNat < 256 := b.isLt
    change b.toNat + 256 * sizeT bytes < 256 ^ (bytes.length + 1)
    rw [Nat.pow_succ]
    omega

theorem fillBuffer_bounds (some : n ≠ 0) (size : n < 2 ^ 64) :
    ∀ i ∈ (fillBuffer bufferOk dataOk stale n data).1, i < n := by
  have received : (data.take n).length ≤ n := by
    rw [length_take]
    omega
  have first : ∀ i ∈ List.range (data.take n).length, i < n :=
    fun i mem => Nat.lt_of_lt_of_le (List.mem_range.1 mem) received
  unfold fillBuffer
  dsimp only
  split_ifs
  · simp
  · simp
  · exact first
  · intro i mem
    rcases List.mem_append.1 mem with mem | mem
    · exact first i mem
    · rw [List.mem_singleton.1 mem]
      exact terminatorIndex_lt some size

/-- The terminator of an announced length of 0 is behind every buffer. -/
theorem fillBuffer_zero (stale data : List Byte) :
    (fillBuffer true true stale 0 data).1 = [2 ^ 64 - 1] := by
  simp [fillBuffer, terminatorIndex]

theorem fillBuffer_text (some : n ≠ 0) {memory : List Byte}
    (filled : (fillBuffer bufferOk dataOk stale n data).2 = .some memory) :
    n ≤ data.length ∧ cString memory = cString (data.take (n - 1)) := by
  unfold fillBuffer at filled
  dsimp only at filled
  split_ifs at filled with _ _ short
  cases filled
  have all : n ≤ data.length := by
    rw [length_take] at short
    omega
  exact ⟨all, received_text some all⟩

theorem fillBuffer_all (all : n ≤ data.length) : (fillBuffer true true stale n data).2 =
    some (terminate n (data.take n ++ stale.drop n)) := by
  simp [fillBuffer, length_take, all]

end Buffer

section Text

variable {xs ys : List Byte} {n : Nat}

theorem packetText_eq (some : xs ≠ []) : packetText xs = cString (xs.take (xs.length - 1)) := by
  have long : xs.length ≠ 0 := by simpa using some
  have text := @received_text xs.length xs [] long le_rfl
  rw [take_length, append_nil] at text
  rw [← text, terminate, if_neg long]
  rfl

theorem cString_within (stop : 0#8 ∈ xs) (ys : List Byte) : cString (xs ++ ys) = cString xs := by
  obtain ⟨before, after, rfl⟩ := append_of_mem stop
  rw [append_assoc, cons_append, cString_stop, cString_stop]

theorem cString_beyond (plain : 0#8 ∉ xs) (b : Byte) (ys : List Byte) :
    cString (xs ++ b :: ys) = cString xs ↔ b = 0#8 := by
  constructor
  · intro same
    by_contra other
    have all : ∀ x ∈ xs, decide (x ≠ 0#8) = true :=
      fun x mem => decide_eq_true fun zero => plain (zero ▸ mem)
    have lengths := congrArg List.length same
    unfold cString at lengths
    rw [takeWhile_append_of_pos all, takeWhile_cons_of_pos (by simpa using other),
      List.takeWhile_eq_self_iff.2 all] at lengths
    simp at lengths
  · rintro rfl
    exact cString_stop xs ys

/-- The string of the first `n` bytes is that of the packet. -/
theorem whole_iff (some : n ≠ 0) (all : n ≤ xs.length) :
    cString (xs.take (n - 1)) = packetText xs ↔ Whole n xs := by
  have long : xs ≠ [] := by
    rintro rfl
    exact some (Nat.le_zero.1 all)
  rw [packetText_eq long]
  obtain ⟨k, rfl⟩ := Nat.exists_eq_succ_of_ne_zero some
  change cString (xs.take k) = _ ↔ k + 1 = xs.length ∨ 0#8 ∈ xs.take (k + 1)
  by_cases last : k + 1 = xs.length
  · refine iff_of_true ?_ (.inl last)
    rw [← last]
    rfl
  · have split : xs.take (xs.length - 1) =
        xs.take k ++ xs[k] :: (xs.take (xs.length - 1)).drop (k + 1) := by
      have within : k < (xs.take (xs.length - 1)).length := by
        rw [length_take]
        omega
      have parts := take_append_drop k (xs.take (xs.length - 1))
      rw [drop_eq_getElem_cons within, take_take, getElem_take, Nat.min_eq_left (by omega)] at parts
      exact parts.symm
    rw [or_iff_right last, split, eq_comm, take_add_one, getElem?_eq_getElem (by omega),
      mem_append]
    by_cases stop : 0#8 ∈ xs.take k
    · exact iff_of_true (cString_within stop _) (.inl stop)
    · rw [or_iff_right stop, cString_beyond stop]
      simp [eq_comm]

end Text

def ServerSafe (length data : Packet) : Prop :=
  ∀ u, length.Carries u → sizeOfSizeT ≤ length.bytes.length → announcedLength length ≠ 0 ∧
    (data.Carries u → announcedLength length ≤ data.bytes.length →
      Whole (announcedLength length) data.bytes)

def ClientSafe (length data : List Byte) : Prop :=
  sizeOfSizeT ≤ length.length → sizeT (length.take sizeOfSizeT) ≠ 0 ∧
    (sizeT (length.take sizeOfSizeT) ≤ data.length → Whole (sizeT (length.take sizeOfSizeT)) data)

theorem announced_lt (length : List Byte) : sizeT (length.take sizeOfSizeT) < 2 ^ 64 := by
  have short : (length.take sizeOfSizeT).length ≤ 8 := length_take_le _ _
  have small := sizeT_lt (length.take sizeOfSizeT)
  have power : 256 ^ (length.take sizeOfSizeT).length ≤ 256 ^ 8 :=
    Nat.pow_le_pow_right (by decide) short
  have same : 256 ^ 8 = 2 ^ 64 := by decide
  omega

theorem length_whole {length : List Byte} :
    (length.take sizeOfSizeT).length = sizeOfSizeT ↔ sizeOfSizeT ≤ length.length := by
  rw [length_take]
  omega

theorem client_reached {length : List Byte} (eight : sizeOfSizeT ≤ length.length)
    (data : List Byte) :
    recvTrace {} length data =
      ((fillBuffer true true [] (sizeT (length.take sizeOfSizeT)) data).1,
        (fillBuffer true true [] (sizeT (length.take sizeOfSizeT)) data).2.map cString) := by
  unfold recvTrace
  rw [if_neg (by decide), if_neg (not_not.2 (length_whole.2 eight))]

theorem server_reached {length : Packet} {u : Ucred} (carries : length.Carries u)
    (eight : sizeOfSizeT ≤ length.bytes.length) (data : Packet) :
    (recvStrTrace {} length data).1 =
      (fillBuffer true true [] (announcedLength length) data.bytes).1 := by
  unfold recvStrTrace Packet.recv
  rw [if_neg (by decide), if_neg (not_not.2 (length_whole.2 eight)),
    (scmCreds_iff length u).2 carries]
  rfl

theorem client_received_iff (length data : List Byte) :
    (∀ env, ReceivedIn (sizeT (length.take sizeOfSizeT)) data (recvTrace env length data).1
      (recvTrace env length data).2) ↔ ClientSafe length data := by
  constructor
  · intro received eight
    have reached := client_reached eight data
    obtain ⟨bounds, text⟩ := received {}
    rw [reached] at bounds text
    have some : sizeT (length.take sizeOfSizeT) ≠ 0 := by
      intro zero
      rw [zero, fillBuffer_zero] at bounds
      exact absurd (bounds _ mem_cons_self) (by decide)
    refine ⟨some, fun all => ?_⟩
    rw [fillBuffer_all all] at text
    have same := text _ rfl
    rw [received_text some all] at same
    exact (whole_iff some all).1 same
  · intro safe env
    unfold recvTrace
    split_ifs with _ short
    · exact ⟨by simp, by simp⟩
    · exact ⟨by simp, by simp⟩
    · obtain ⟨some, whole⟩ := safe (length_whole.1 (not_not.1 short))
      refine ⟨fillBuffer_bounds some (announced_lt length), fun s result => ?_⟩
      obtain ⟨memory, filled, rfl⟩ := Option.map_eq_some_iff.1 result
      obtain ⟨all, text⟩ := fillBuffer_text some filled
      rw [text, whole_iff some all]
      exact whole all

theorem server_received_iff (length data : Packet) :
    (∀ env, ReceivedIn (announcedLength length) data.bytes (recvStrTrace env length data).1
      ((recvStrTrace env length data).2.map Prod.fst)) ↔ ServerSafe length data := by
  constructor
  · intro received u carries eight
    obtain ⟨bounds, text⟩ := received {}
    rw [server_reached carries eight] at bounds
    have some : announcedLength length ≠ 0 := by
      intro zero
      rw [zero, fillBuffer_zero] at bounds
      exact absurd (bounds _ mem_cons_self) (by decide)
    refine ⟨some, fun carries' all => ?_⟩
    have result : recvStr {} length data = .some (data.text (announcedLength length), u) :=
      (recvStr_iff {} length data _ u).2 ⟨⟨rfl, rfl, rfl⟩, eight, all, carries, carries',
        (if_neg some).symm⟩
    rw [recvStrTrace_result, result] at text
    exact (whole_iff some all).1 (text _ rfl)
  · intro safe env
    constructor
    · unfold recvStrTrace
      split_ifs with _ short
      · simp
      · simp
      · cases creds : length.scmCreds with
        | none => simp
        | some u =>
          obtain ⟨some, _⟩ := safe u ((scmCreds_iff length u).1 creds)
            (length_whole.1 (not_not.1 short))
          exact fillBuffer_bounds some (announced_lt length.bytes)
    · intro s result
      rw [recvStrTrace_result] at result
      obtain ⟨⟨msg, u⟩, received, rfl⟩ := Option.map_eq_some_iff.1 result
      obtain ⟨_, eight, all, carries, carries', rfl⟩ :=
        (recvStr_iff env length data msg u).1 received
      obtain ⟨some, whole⟩ := safe u carries eight
      dsimp only
      rw [if_neg some]
      exact (whole_iff some all).2 (whole carries' all)

/-- Whatever the outcomes of the system calls and the old content of the memory. -/
theorem reception_in_bounds_iff (length data : Packet) (answerLength answer : List Byte) :
    ((∀ env, ReceivedIn (announcedLength length) data.bytes (recvStrTrace env length data).1
        ((recvStrTrace env length data).2.map Prod.fst)) ↔ ServerSafe length data) ∧
      ((∀ env, ReceivedIn (sizeT (answerLength.take sizeOfSizeT)) answer
        (recvTrace env answerLength answer).1 (recvTrace env answerLength answer).2) ↔
          ClientSafe answerLength answer) :=
  ⟨server_received_iff length data, client_received_iff answerLength answer⟩

/-- An announced length of 0 makes both programs write at the index of the largest `size_t`; of a
packet that is longer than announced the daemon takes the start for the message. -/
theorem zero_length_written :
    (recvStrTrace {} (lengthPacket superuser 0) (sentBy superuser [])).1 = [2 ^ 64 - 1] ∧
    ¬ ReceivedIn (announcedLength (lengthPacket superuser 0)) []
      (recvStrTrace {} (lengthPacket superuser 0) (sentBy superuser [])).1
      ((recvStrTrace {} (lengthPacket superuser 0) (sentBy superuser [])).2.map Prod.fst) ∧
    (recvTrace {} (sizeBytes 8 0) []).1 = [2 ^ 64 - 1] ∧
    ((recvStrTrace {} (lengthPacket superuser 3)
      (sentBy superuser (inMemory "C_GETVER"))).2.map Prod.fst) = some "C_".toList := by
  have written : (recvStrTrace {} (lengthPacket superuser 0) (sentBy superuser [])).1 =
      [2 ^ 64 - 1] := by decide
  refine ⟨written, fun received => ?_, by decide, by decide⟩
  have bounds := received.bounds
  rw [written] at bounds
  exact absurd (bounds _ mem_cons_self) (by decide)

end Crinit
