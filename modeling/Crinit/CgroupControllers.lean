import Crinit.TaskImage
import Crinit.UnmountList

/-! The available cgroup controllers: what `read` hands out is appended to a growing string, each
token of which becomes an entry. -/
namespace Crinit

open CText List

inductive BufferFail where
  | outside
  | noMemory
  deriving DecidableEq, Repr

/-- The memory that `realloc` has for a size, and what its new bytes hold. -/
structure ByteHeap where
  room : Nat → Bool
  fresh : Nat → Nat → Char

def growString (heap : ByteHeap) (str : Option (List Char)) (size : Nat) :
    Except BufferFail (List Char) :=
  if heap.room size then
    match str with
    | none => .ok (zeros size)
    | some mem => .ok (mem.take size ++
        (List.range (size - mem.length)).map fun i => heap.fresh size (mem.length + i))
  else .error .noMemory

def ofWrite : Option (List Char) → Except BufferFail (List Char)
  | some mem => .ok mem
  | none => .error .outside

def strcat (mem text : List Char) : Except BufferFail (List Char) :=
  ofWrite ((stringAt mem 0).bind fun old => write mem old.length (text ++ [nul]))

def strncat (mem src : List Char) (n : Nat) : Except BufferFail (List Char) :=
  strcat mem ((src.take n).takeWhile (· != nul))

def controllerBufsize : Nat := 80

def readChunks (heap : ByteHeap) : List (List Char) → List Char → Option (List Char) → Nat →
    Except BufferFail (Option (List Char) × Nat)
  | [], _, ctrlstr, size => .ok (ctrlstr, size)
  | chunk :: chunks, buffer, ctrlstr, size => do
    let buffer ← ofWrite (write buffer 0 chunk)
    let tmp ← growString heap ctrlstr (size + chunk.length)
    let ctrlstr ← strncat tmp buffer chunk.length
    readChunks heap chunks buffer (some ctrlstr) (size + chunk.length)

def joinTokens (heap : ByteHeap) : Nat → List Char → Nat → Option (List Char) → Nat →
    Except BufferFail (Option (List Char))
  | 0, _, _, _, _ => .error .outside
  | turns + 1, ctrlstr, tokState, outstr, size =>
    match CText.strtok ' ' ctrlstr tokState with
    | none => .ok outstr
    | some (token, ctrlstr, tokState) => do
      let size := size + ((textAt ctrlstr token).length + 2)
      let tmp ← growString heap outstr size
      let tmp ← strcat tmp ['+']
      let tmp ← strcat tmp (textAt ctrlstr token)
      let outstr ← strcat tmp [' ']
      joinTokens heap turns ctrlstr tokState (some outstr) size

def joinControllers (heap : ByteHeap) (chunks : List (List Char)) :
    Except BufferFail (Option (Option (List Char))) := do
  let (ctrlstr, size) ← readChunks heap chunks (zeros controllerBufsize) none 1
  match ctrlstr with
  | none => return none
  | some ctrlstr =>
    let ctrlstr ← ofWrite (write ctrlstr (size - 1) [nul])
    return some (← joinTokens heap (size + 1) ctrlstr 0 none 1)

/-- No result if a write went outside of its memory. -/
def readAvailableCgroupControllers (heap : ByteHeap) (opened : Bool) (chunks : List (List Char)) :
    Option (Int × Option (List Char)) :=
  if opened then
    match joinControllers heap chunks with
    | .error .outside => none
    | .error .noMemory => some (-1, none)
    | .ok none => some (-1, none)
    | .ok (some outstr) => some (0, outstr)
  else some (-1, none)

def heldText (text : List Char) : Option (List Char) :=
  if text = [] then none else some (text ++ [nul])

structure Ends (mem text : List Char) (room : Nat) : Prop where
  plain : nul ∉ text
  memory : ∃ junk, mem = text ++ nul :: junk ∧ junk.length = room

/-- The result, unless memory ran out. -/
def Gives {A : Type} (heap : ByteHeap) (r : Except BufferFail A) (P : A → Prop) : Prop :=
  (∃ a, r = .ok a ∧ P a) ∨ r = .error .noMemory ∧ ∃ size, heap.room size = false

section Growing

variable {heap : ByteHeap} {mem text more : List Char} {room : Nat}

theorem Gives.bind {A B : Type} {r : Except BufferFail A} {P : A → Prop} {Q : B → Prop}
    {f : A → Except BufferFail B} (gives : Gives heap r P) (next : ∀ a, P a → Gives heap (f a) Q) :
    Gives heap (r >>= f) Q := by
  rcases gives with ⟨a, rfl, holds⟩ | ⟨rfl, short⟩
  · exact next a holds
  · exact .inr ⟨rfl, short⟩

theorem strcat_gives (ends : Ends mem text room) (plain : nul ∉ more)
    (fits : more.length ≤ room) :
    Gives heap (strcat mem more) fun mem' => Ends mem' (text ++ more) (room - more.length) := by
  obtain ⟨start, junk, rfl, rfl⟩ := ends
  have stored : stringAt (text ++ nul :: junk) 0 = some text := stringAt_stored [] junk start
  have written : write (text ++ nul :: junk) text.length (more ++ [nul]) =
      some (text ++ (more ++ [nul] ++ (nul :: junk).drop (more ++ [nul]).length)) :=
    write_at (by simp; omega)
  refine .inl ⟨_, by rw [strcat, stored, Option.bind_some, written]; rfl, ?_, junk.drop more.length,
    by simp, length_drop⟩
  simp [start, plain]

theorem growString_gives (plain : nul ∉ text) (room : Nat) :
    Gives heap (growString heap (heldText text) (text.length + 1 + room)) fun mem =>
      Ends mem text room := by
  unfold growString heldText
  cases memory : heap.room (text.length + 1 + room) with
  | false => exact .inr ⟨rfl, _, memory⟩
  | true =>
    refine .inl ?_
    by_cases empty : text = []
    · subst empty
      refine ⟨_, rfl, plain, zeros room, ?_, length_replicate⟩
      rw [zeros_cons (by simp)]
      simp
    · rw [if_neg empty]
      refine ⟨_, rfl, plain, (List.range room).map fun i =>
        heap.fresh (text.length + 1 + room) (text.length + 1 + i), ?_, by simp⟩
      have all : (text ++ [nul]).take (text.length + 1 + room) = text ++ [nul] :=
        take_of_length_le (by simp)
      have new : text.length + 1 + room - (text ++ [nul]).length = room := by simp
      rw [all, new]
      simp

theorem ends_held (ends : Ends mem text 0) (some : text ≠ []) : .some mem = heldText text := by
  obtain ⟨-, junk, rfl, none⟩ := ends
  rw [List.length_eq_zero_iff.1 none, heldText, if_neg some]

theorem readChunks_gives {chunks : List (List Char)} {buffer : List Char}
    (size : buffer.length = controllerBufsize)
    (sizes : ∀ chunk ∈ chunks, chunk ≠ [] ∧ chunk.length ≤ controllerBufsize)
    (plain : nul ∉ text ++ chunks.flatten) :
    Gives heap (readChunks heap chunks buffer (heldText text) (text.length + 1)) fun r =>
      r = (heldText (text ++ chunks.flatten), (text ++ chunks.flatten).length + 1) := by
  induction chunks generalizing buffer text with
  | nil => exact .inl ⟨_, rfl, by simp⟩
  | cons chunk chunks ih =>
    obtain ⟨⟨some, small⟩, sizes⟩ := List.forall_mem_cons.1 sizes
    rw [flatten_cons, ← append_assoc] at plain
    simp only [mem_append, not_or] at plain
    have filled : write buffer 0 chunk = .some (chunk ++ buffer.drop chunk.length) := by
      simpa using @write_at [] buffer chunk (size ▸ small)
    have read : ((chunk ++ buffer.drop chunk.length).take chunk.length).takeWhile (· != nul) =
        chunk := by
      rw [take_left, takeWhile_eq_self_iff]
      exact fun c mem => bne_iff_ne.2 fun same => plain.1.2 (same ▸ mem)
    rw [readChunks, filled]
    refine (growString_gives plain.1.1 chunk.length).bind fun tmp ends => ?_
    rw [strncat, read]
    refine (strcat_gives ends plain.1.2 (Nat.le_refl _)).bind fun mem ends => ?_
    rw [Nat.sub_self] at ends
    rw [ends_held ends (by simp [some]), flatten_cons, ← append_assoc]
    have length : text.length + 1 + chunk.length = (text ++ chunk).length + 1 := by simp; omega
    rw [length]
    exact ih (by simp; omega) sizes (by simp [plain])

def controllersText (tokens : List (List Char)) : List Char :=
  tokens.flatMap fun token => '+' :: (token ++ [' '])

theorem joinTokens_gives {turns : Nat} {pre rest post : List Char} (unread : nul ∉ rest)
    (enough : rest.length < turns) (plain : nul ∉ text) :
    Gives heap
      (joinTokens heap turns (pre ++ (rest ++ nul :: post)) pre.length (heldText text)
        (text.length + 1))
      fun out => out = heldText (text ++ controllersText (blankFields rest)) := by
  induction turns generalizing pre rest text with
  | zero => exact absurd enough (Nat.not_lt_zero _)
  | succ turns ih =>
    rw [joinTokens]
    rcases strtok_cuts ' ' (by decide) unread pre post with
      ⟨none, call⟩ | ⟨lead, tok, left, pre', cuts⟩
    · have fields : blankFields rest = [] := by
        rcases strtokR_fields rest with ⟨fields, -⟩ | ⟨f, left, found, -⟩
        · exact fields
        · cases none.symm.trans found
      rw [call]
      exact .inl ⟨_, rfl, by simp [fields, controllersText]⟩
    · have token : textAt (pre' ++ (left ++ nul :: post)) (pre.length + lead.length) = tok := by
        obtain ⟨post', memory⟩ := cuts.behind
        rw [memory, ← append_assoc, ← length_append]
        exact textAt_end _ fun mem => (cuts.token.inside _ mem).2 rfl
      have fields : blankFields rest = tok :: blankFields left := by
        rcases strtokR_fields rest with ⟨-, found⟩ | ⟨f, left', found, fields⟩
        · cases found.symm.trans cuts.text
        · cases found.symm.trans cuts.text
          exact fields
      have tokPlain : nul ∉ tok := fun mem => (cuts.token.inside _ mem).2 rfl
      have shorter := strtokR_shorter cuts.text
      simp only [cuts.call, token]
      refine (growString_gives plain (tok.length + 2)).bind fun tmp ends => ?_
      refine (strcat_gives ends (by decide) (by simp)).bind fun tmp ends => ?_
      refine (strcat_gives ends tokPlain (by simp)).bind fun tmp ends => ?_
      refine (strcat_gives ends (by decide) (by simp)).bind fun tmp ends => ?_
      have done : text ++ ['+'] ++ tok ++ [' '] = text ++ '+' :: (tok ++ [' ']) := by simp
      have none : tok.length + 2 - ['+'].length - tok.length - [' '].length = 0 := by simp
      rw [done, none] at ends
      have entries : text ++ controllersText (blankFields rest) =
          text ++ '+' :: (tok ++ [' ']) ++ controllersText (blankFields left) := by
        simp [fields, controllersText]
      have length : text.length + 1 + (tok.length + 2) =
          (text ++ '+' :: (tok ++ [' '])).length + 1 := by simp; omega
      rw [ends_held ends (by simp), entries, length]
      exact ih cuts.plain (by omega) ends.plain

end Growing

/-- The output does not depend on how the content was read, and no write goes outside of the
memory of a string. -/
theorem controllers_of_chunks {heap : ByteHeap} {chunks : List (List Char)} {content : List Char}
    (whole : chunks.flatten = content) (plain : nul ∉ content) (some : content ≠ [])
    (sizes : ∀ chunk ∈ chunks, chunk ≠ [] ∧ chunk.length ≤ controllerBufsize) :
    readAvailableCgroupControllers heap true chunks =
        .some (0, heldText (controllersText (blankFields content))) ∨
      readAvailableCgroupControllers heap true chunks = .some (-1, none) ∧
        ∃ size, heap.room size = false := by
  subst whole
  have joined : Gives heap (joinControllers heap chunks) fun r =>
      r = .some (heldText (controllersText (blankFields chunks.flatten))) := by
    unfold joinControllers
    refine (@readChunks_gives heap [] chunks _ length_replicate sizes plain).bind ?_
    rintro _ rfl
    rw [nil_append, heldText, if_neg some]
    have last : write (chunks.flatten ++ [nul]) (chunks.flatten.length + 1 - 1) [nul] =
        .some ([] ++ (chunks.flatten ++ nul :: [])) := by
      simpa using @write_at chunks.flatten [nul] [nul] (Nat.le_refl _)
    simp only [last]
    refine (@joinTokens_gives heap [] _ [] _ [] plain (by omega) not_mem_nil).bind ?_
    rintro _ rfl
    exact .inl ⟨_, rfl, rfl⟩
  unfold readAvailableCgroupControllers
  rcases joined with ⟨_, ok, rfl⟩ | ⟨failed, short⟩
  · exact .inl (by rw [ok]; rfl)
  · exact .inr ⟨by rw [failed]; rfl, short⟩

/-- Two controllers in chunks of three bytes. -/
theorem cpu_and_io : readAvailableCgroupControllers ⟨fun _ => true, fun _ _ => 'x'⟩ true
    ["cpu".toList, " io".toList, "\n".toList] = some (0, some ("+cpu +io\n ".toList ++ [nul])) := by
  have output := @controllers_of_chunks ⟨fun _ => true, fun _ _ => 'x'⟩
    ["cpu".toList, " io".toList, "\n".toList] "cpu io\n".toList (by decide) (by decide) (by decide)
    (by decide)
  exact (output.resolve_right fun short => absurd short.2 (by simp)).trans (by decide)

end Crinit
