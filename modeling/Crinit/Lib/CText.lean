import Mathlib.Data.List.TakeWhile
import Mathlib.Tactic.Common

/-! Memory with C strings in it, and what the functions of the C library cut out of a text.
Characters stand for bytes, and a string goes up to the first NUL. -/
namespace CText

open List

def nul : Char := '\x00'

structure Text where
  chars : List Char
  noNul : nul ∉ chars

/-- Bytes that go over the end of the memory have no result. -/
def write (mem : List Char) (off : Nat) (bytes : List Char) : Option (List Char) :=
  if off + bytes.length ≤ mem.length then some
    (mem.take off ++ (bytes ++ mem.drop (off + bytes.length))) else none

/-- `snprintf`: at most `size` bytes, of which the last one is the terminator. -/
def print (mem : List Char) (off size : Nat) (text : List Char) : Option (List Char) :=
  if size = 0 then some mem else write mem off (text.take (size - 1) ++ [nul])

def textAt (mem : List Char) (off : Nat) : List Char := (mem.drop off).takeWhile (· != nul)

theorem write_at {pre post bytes : List Char} (room : bytes.length ≤ post.length) :
    write (pre ++ post) pre.length bytes = some (pre ++ (bytes ++ post.drop bytes.length)) := by
  unfold write
  rw [length_append, if_pos (by omega), take_left, ← drop_drop, drop_left]

def zeros (n : Nat) : List Char := List.replicate n nul

theorem zeros_drop (n m : Nat) : (zeros n).drop m = zeros (n - m) := drop_replicate

theorem zeros_cons {n : Nat} (some : 0 < n) : zeros n = nul :: zeros (n - 1) := by
  obtain ⟨m, rfl⟩ := Nat.exists_eq_succ_of_ne_zero (Nat.ne_of_gt some)
  rfl

theorem print_zeros (pre text : List Char) {size room : Nat} (fits : text.length < size)
    (space : text.length < room) :
    print (pre ++ zeros room) pre.length size text =
      some (pre ++ text ++ zeros (room - text.length)) := by
  have bytes : (text ++ [nul]).length = text.length + 1 := by rw [length_append, length_singleton]
  have whole : text.take (size - 1) = text := take_of_length_le (by omega)
  have room' : (text ++ [nul]).length ≤ (zeros room).length := by
    rw [bytes, zeros, length_replicate]
    exact space
  unfold print
  rw [if_neg (by omega), whole, write_at room', bytes, zeros_drop,
    zeros_cons (show 0 < room - text.length by omega)]
  simp only [append_assoc, singleton_append, Nat.sub_sub]

theorem textAt_end (pre : List Char) {text post : List Char} (plain : nul ∉ text) :
    textAt (pre ++ (text ++ nul :: post)) pre.length = text := by
  have other : ∀ c ∈ text, (c != nul) = true :=
    fun c mem => bne_iff_ne.2 fun same => plain (same ▸ mem)
  unfold textAt
  rw [drop_left, takeWhile_append_of_pos other]
  simp

/-! ### Strings that end in their memory -/

def stringAt (mem : List Char) (off : Nat) : Option (List Char) :=
  if nul ∈ mem.drop off then some (textAt mem off) else none

theorem stringAt_stored (pre post : List Char) {text : List Char} (plain : nul ∉ text) :
    stringAt (pre ++ (text ++ nul :: post)) pre.length = some text := by
  unfold stringAt
  rw [drop_left, if_pos (by simp), textAt_end pre plain]

theorem stringAt_iff {mem text : List Char} {off : Nat} : stringAt mem off = some text ↔
    nul ∉ text ∧ ∃ pre post, mem = pre ++ (text ++ nul :: post) ∧ pre.length = off := by
  constructor
  · intro found
    unfold stringAt at found
    split_ifs at found with ends
    cases found
    refine ⟨fun mem => absurd (mem_takeWhile_imp mem) (by decide), mem.take off, ?_⟩
    have split := takeWhile_append_dropWhile (p := (· != nul)) (l := mem.drop off)
    cases rest : (mem.drop off).dropWhile (· != nul) with
    | nil =>
      rw [rest, append_nil] at split
      rw [← split] at ends
      exact absurd (mem_takeWhile_imp ends) (by decide)
    | cons c post =>
      have stop : (c != nul) = false := by
        have head := head_dropWhile_not (· != nul) (l := mem.drop off) (by simp [rest])
        simpa [rest] using head
      rw [bne_eq_false_iff_eq] at stop
      refine ⟨post, ?_, ?_⟩
      · rw [← stop, ← rest, textAt, split, take_append_drop]
      · have inside : off < mem.length := by
          by_contra far
          rw [drop_of_length_le (Nat.le_of_not_lt far)] at ends
          exact absurd ends not_mem_nil
        exact length_take_of_le (Nat.le_of_lt inside)
  · rintro ⟨plain, pre, post, rfl, rfl⟩
    exact stringAt_stored pre post plain

theorem stringAt_ends {mem text text' : List Char} {off off' : Nat}
    (first : stringAt mem off = some text) (later : stringAt mem off' = some text')
    (order : off ≤ off') : off + text.length ≤ off' + text'.length := by
  obtain ⟨plain, pre, post, here, rfl⟩ := stringAt_iff.1 first
  obtain ⟨-, pre', post', there, rfl⟩ := stringAt_iff.1 later
  by_contra short
  have stop : mem[pre'.length + text'.length]? = some nul := by
    rw [there, ← append_assoc, ← length_append]
    simp
  rw [here, getElem?_append_right (by omega), getElem?_append_left (by omega)] at stop
  exact plain (mem_of_getElem? stop)

theorem stringAt_slice {mem text : List Char} {off first len : Nat}
    (found : stringAt mem off = some text) (low : first ≤ off)
    (high : off + text.length < first + len) :
    stringAt ((mem.drop first).take len) (off - first) = some text := by
  obtain ⟨plain, pre, post, rfl, rfl⟩ := stringAt_iff.1 found
  have start : (pre ++ (text ++ nul :: post)).drop first =
      pre.drop first ++ (text ++ nul :: post) := drop_append_of_le_length low
  have kept : (pre.drop first ++ (text ++ nul :: post)).take len =
      pre.drop first ++ (text ++ nul :: post.take (len - (pre.drop first).length -
        text.length - 1)) := by
    rw [take_append, take_of_length_le (by rw [length_drop]; omega),
      take_append, take_of_length_le (by rw [length_drop]; omega)]
    obtain ⟨more, rest⟩ : ∃ more, len - (pre.drop first).length - text.length = more + 1 :=
      ⟨len - (pre.drop first).length - text.length - 1, by rw [length_drop]; omega⟩
    rw [rest, take_succ_cons, Nat.add_sub_cancel]
  rw [start, kept, ← length_drop]
  exact stringAt_stored _ _ plain

/-- `strtok_r` with one delimiter, from an offset on: where the token starts, the memory with a
terminator behind it, and where the next call goes on. -/
def strtok (delim : Char) (mem : List Char) (off : Nat) : Option (Nat × List Char × Nat) :=
  let start := off + ((mem.drop off).takeWhile (· == delim)).length
  let stop := start + ((mem.drop start).takeWhile fun c => c != delim && c != nul).length
  if stop = start then none
  else if mem[stop]? = some delim then some (start, mem.set stop nul, stop + 1)
  else some (start, mem, stop)

section Token

variable {delim : Char} {lead tok : List Char}

theorem takeWhile_until {p : Char → Bool} {xs : List Char} {x : Char} {more : List Char}
    (all : ∀ c ∈ xs, p c = true) (stop : p x = false) :
    (xs ++ x :: more).takeWhile p = xs := by
  rw [takeWhile_append_of_pos all]
  simp [stop]

theorem drop_behind (pre lead more : List Char) :
    (pre ++ (lead ++ more)).drop (pre.length + lead.length) = more := by
  rw [← append_assoc, ← length_append, drop_left]

theorem strtok_none (other : delim ≠ nul) (delims : ∀ c ∈ lead, c = delim)
    (pre post : List Char) : strtok delim (pre ++ (lead ++ nul :: post)) pre.length = none := by
  have skipped : (lead ++ nul :: post).takeWhile (· == delim) = lead :=
    takeWhile_until (fun c mem => beq_iff_eq.2 (delims c mem))
      (beq_eq_false_iff_ne.2 (Ne.symm other))
  simp only [strtok, drop_left, skipped, drop_behind]
  simp

structure IsToken (delim : Char) (lead tok : List Char) : Prop where
  skipped : ∀ c ∈ lead, c = delim
  some : tok ≠ []
  inside : ∀ c ∈ tok, c ≠ delim ∧ c ≠ nul

theorem strtok_token (is : IsToken delim lead tok) (pre post : List Char) {x : Char}
    (stop : x = delim ∨ x = nul) :
    strtok delim (pre ++ (lead ++ (tok ++ x :: post))) pre.length =
      if x = delim then some (pre.length + lead.length, pre ++ (lead ++ (tok ++ nul :: post)),
        pre.length + lead.length + tok.length + 1)
      else some (pre.length + lead.length, pre ++ (lead ++ (tok ++ x :: post)),
        pre.length + lead.length + tok.length) := by
  obtain ⟨c, tok', rfl⟩ := exists_cons_of_ne_nil is.some
  have skipped : (lead ++ (c :: tok' ++ x :: post)).takeWhile (· == delim) = lead :=
    takeWhile_until (fun c mem => beq_iff_eq.2 (is.skipped c mem))
      (beq_eq_false_iff_ne.2 (is.inside c mem_cons_self).1)
  have taken : (c :: tok' ++ x :: post).takeWhile (fun c => c != delim && c != nul) =
      c :: tok' := by
    refine takeWhile_until (fun c mem => ?_) ?_
    · simp [is.inside c mem]
    · rcases stop with rfl | rfl <;> simp
  have place : pre.length + lead.length + (c :: tok').length =
      (pre ++ (lead ++ c :: tok')).length := by simp [Nat.add_assoc]
  have whole : pre ++ (lead ++ (c :: tok' ++ x :: post)) =
      (pre ++ (lead ++ c :: tok')) ++ x :: post := by simp
  have char : (pre ++ (lead ++ (c :: tok' ++ x :: post)))[pre.length + lead.length +
      (c :: tok').length]? = some x := by
    rw [place, whole, getElem?_append_right (Nat.le_refl _), Nat.sub_self]
    rfl
  have cut : (pre ++ (lead ++ (c :: tok' ++ x :: post))).set (pre.length + lead.length +
      (c :: tok').length) nul = pre ++ (lead ++ (c :: tok' ++ nul :: post)) := by
    rw [place, whole, set_append_right _ _ (Nat.le_refl _), Nat.sub_self]
    simp
  have more : ¬pre.length + lead.length + (c :: tok').length = pre.length + lead.length := by
    simp
  simp only [strtok, drop_left, skipped, drop_behind, taken, char, cut, if_neg more,
    Option.some.injEq]

end Token

/-! ### Tokens of a text, fields and lines -/

/-- `strtok_r` with one delimiter: the token and what it leaves for the next call. -/
def strtokR (delim : Char) (s : List Char) : Option (List Char × List Char) :=
  match s.dropWhile (· == delim) with
  | [] => none
  | c :: rest =>
    some ((c :: rest).takeWhile (· != delim), ((c :: rest).dropWhile (· != delim)).drop 1)

section TextToken

variable {delim : Char} {s tok rest : List Char}

/-- `strtok_r` skips delimiters and takes the characters up to the next one. -/
structure Token (delim : Char) (s lead tok rest : List Char) : Prop where
  skipped : ∀ c ∈ lead, c = delim
  some : tok ≠ []
  inside : ∀ c ∈ tok, c ≠ delim
  text : s = lead ++ tok ∧ rest = [] ∨ s = lead ++ (tok ++ delim :: rest)

theorem strtokR_some {lead : List Char} (token : Token delim s lead tok rest) :
    strtokR delim s = some (tok, rest) := by
  obtain ⟨skipped, some, inside, text⟩ := token
  obtain ⟨c, tok, rfl⟩ := exists_cons_of_ne_nil some
  have lead' : ∀ c ∈ lead, (c == delim) = true := fun c mem => beq_iff_eq.2 (skipped c mem)
  have inside' : ∀ x ∈ c :: tok, (x != delim) = true := fun x mem => bne_iff_ne.2 (inside x mem)
  have first : (c == delim) = false := beq_eq_false_iff_ne.2 (inside c mem_cons_self)
  have taken (more : List Char) : (c :: (tok ++ delim :: more)).takeWhile (· != delim) = c :: tok :=
    takeWhile_until inside' (by simp)
  have left (more : List Char) :
      (c :: (tok ++ delim :: more)).dropWhile (· != delim) = delim :: more := by
    rw [← cons_append, dropWhile_append_of_pos inside']
    simp
  unfold strtokR
  rcases text with ⟨rfl, rfl⟩ | rfl <;> rw [dropWhile_append_of_pos lead']
  · simp [first, takeWhile_eq_self_iff.2 inside', dropWhile_eq_nil_iff.2 inside']
  · simp [first, taken, left]

theorem strtokR_cases (delim : Char) (s : List Char) :
    (strtokR delim s = none ∧ ∀ c ∈ s, c = delim) ∨
      ∃ lead tok rest, Token delim s lead tok rest := by
  have split := takeWhile_append_dropWhile (p := (· == delim)) (l := s)
  have lead : ∀ c ∈ s.takeWhile (· == delim), c = delim := fun c mem => by
    simpa using mem_takeWhile_imp mem
  cases behind : s.dropWhile (· == delim) with
  | nil =>
    rw [behind, append_nil] at split
    exact .inl ⟨by rw [strtokR, behind], split ▸ lead⟩
  | cons c more =>
    have first : c ≠ delim := by
      have head := head_dropWhile_not (· == delim) (l := s) (by simp [behind])
      simpa [behind] using head
    have split' := takeWhile_append_dropWhile (p := (· != delim)) (l := c :: more)
    have inside : ∀ x ∈ (c :: more).takeWhile (· != delim), x ≠ delim := by
      intro x mem
      simpa using mem_takeWhile_imp mem
    refine .inr ⟨_, _, ((c :: more).dropWhile (· != delim)).drop 1, lead, by simp [first], inside,
      ?_⟩
    rw [behind] at split
    cases rest : (c :: more).dropWhile (· != delim) with
    | nil =>
      rw [rest, append_nil] at split'
      exact .inl ⟨by rw [split', split], rfl⟩
    | cons x rest' =>
      have stop : x = delim := by
        have head := head_dropWhile_not (· != delim) (l := c :: more) (by simp [rest])
        simpa [rest] using head
      rw [rest, stop] at split'
      exact .inr (by rw [drop_succ_cons, drop_zero, split', split])

theorem strtokR_token (found : strtokR delim s = some (tok, rest)) :
    ∃ lead, Token delim s lead tok rest := by
  rcases strtokR_cases delim s with ⟨none, -⟩ | ⟨lead, tok', rest', token⟩
  · cases none.symm.trans found
  · cases (strtokR_some token).symm.trans found
    exact ⟨lead, token⟩

theorem strtokR_append (found : strtokR delim s = some (tok, rest)) (more : rest ≠ [])
    (t : List Char) : strtokR delim (s ++ t) = some (tok, rest ++ t) := by
  obtain ⟨lead, skipped, some, inside, ⟨-, none⟩ | rfl⟩ := strtokR_token found
  · exact absurd none more
  · exact strtokR_some ⟨skipped, some, inside, .inr (by simp)⟩

theorem strtokR_shorter (found : strtokR delim s = some (tok, rest)) : rest.length < s.length := by
  obtain ⟨lead, -, some, -, ⟨rfl, rfl⟩ | rfl⟩ := strtokR_token found
  · have := length_pos_iff.2 some
    simp
    omega
  · simp
    omega

end TextToken

/-- What `strtok_r` does to the memory of a text: `pre'` is what it leaves behind it. -/
structure Cuts (delim : Char) (pre s post lead tok rest pre' : List Char) : Prop where
  text : strtokR delim s = some (tok, rest)
  token : IsToken delim lead tok
  call : strtok delim (pre ++ (s ++ nul :: post)) pre.length =
    some (pre.length + lead.length, pre' ++ (rest ++ nul :: post), pre'.length)
  behind : ∃ post', pre' ++ (rest ++ nul :: post) = pre ++ (lead ++ (tok ++ nul :: post'))
  more : rest ≠ [] → pre' = pre ++ (lead ++ (tok ++ [nul]))
  head : s.head? = some delim ↔ lead ≠ []
  plain : nul ∉ rest

theorem token_head {delim : Char} {lead tok : List Char} (token : IsToken delim lead tok)
    (more : List Char) : (lead ++ (tok ++ more)).head? = some delim ↔ lead ≠ [] := by
  cases lead with
  | nil =>
    obtain ⟨c, tok', rfl⟩ := exists_cons_of_ne_nil token.some
    simp [(token.inside c mem_cons_self).1]
  | cons c lead => simp [token.skipped c mem_cons_self]

theorem strtok_cuts {s : List Char} (delim : Char) (other : delim ≠ nul) (plain : nul ∉ s)
    (pre post : List Char) :
    (strtokR delim s = none ∧ strtok delim (pre ++ (s ++ nul :: post)) pre.length = none) ∨
      ∃ lead tok rest pre', Cuts delim pre s post lead tok rest pre' := by
  rcases strtokR_cases delim s with ⟨none, delims⟩ | ⟨lead, tok, rest, found⟩
  · exact .inl ⟨none, strtok_none other delims pre post⟩
  · right
    have token : IsToken delim lead tok := ⟨found.skipped, found.some, fun c mem =>
      ⟨found.inside c mem, fun same => plain (by
        rcases found.text with ⟨rfl, -⟩ | rfl <;> simp [← same, mem])⟩⟩
    have text := strtokR_some found
    rcases found.text with ⟨rfl, rfl⟩ | rfl
    · have call := strtok_token token pre post (.inr rfl)
      rw [if_neg (Ne.symm other)] at call
      refine ⟨lead, tok, [], pre ++ (lead ++ tok), text, token, ?_, ⟨post, by simp⟩,
        fun more => absurd rfl more, by simpa using token_head token [], not_mem_nil⟩
      rw [append_assoc, call]
      simp [Nat.add_assoc]
    · have call := strtok_token token pre (rest ++ nul :: post) (.inl rfl)
      rw [if_pos rfl] at call
      refine ⟨lead, tok, rest, pre ++ (lead ++ (tok ++ [nul])), text, token, ?_,
        ⟨rest ++ nul :: post, by simp⟩, fun _ => rfl, token_head token _,
        fun mem => plain (by simp [mem])⟩
      rw [append_assoc, append_assoc, cons_append, call]
      simp [Nat.add_assoc]

theorem strtokR_nil (delim : Char) : strtokR delim [] = none := rfl

def blankFields (line : List Char) : List (List Char) :=
  (line.splitOnP (· == ' ')).filter (· ≠ [])

theorem fields_blanks {lead : List Char} (blanks : ∀ c ∈ lead, c = ' ') (more : List Char) :
    blankFields (lead ++ more) = blankFields more := by
  induction lead with
  | nil => rfl
  | cons c lead ih =>
    rw [forall_mem_cons] at blanks
    simpa [blanks.1, blankFields, splitOnP_cons_eq_if_modifyHead] using ih blanks.2

theorem fields_token {lead tok rest s : List Char} (token : Token ' ' s lead tok rest) :
    blankFields s = tok :: blankFields rest := by
  obtain ⟨skipped, some, inside, text⟩ := token
  have plain : ∀ x ∈ tok, (x == ' ') = false := fun x mem => beq_eq_false_iff_ne.2 (inside x mem)
  rcases text with ⟨rfl, rfl⟩ | rfl <;> rw [fields_blanks skipped]
  · simp [blankFields, splitOnP_eq_singleton plain, some]
  · simp [blankFields, splitOnP_append_cons_of_forall_mem plain ' ' rfl rest, some]

theorem strtokR_fields (s : List Char) :
    (blankFields s = [] ∧ strtokR ' ' s = none) ∨
      ∃ f rest, strtokR ' ' s = some (f, rest) ∧ blankFields s = f :: blankFields rest := by
  rcases strtokR_cases ' ' s with ⟨none, blanks⟩ | ⟨lead, tok, rest, token⟩
  · exact .inl ⟨append_nil s ▸ fields_blanks blanks [], none⟩
  · exact .inr ⟨tok, rest, strtokR_some token, fields_token token⟩

theorem strtokR_next {s f : List Char} {fs : List (List Char)} (listed : blankFields s = f :: fs)
    (more : fs ≠ []) (t : List Char) :
    ∃ rest, strtokR ' ' (s ++ t) = some (f, rest ++ t) ∧ blankFields rest = fs := by
  rcases strtokR_fields s with ⟨none, -⟩ | ⟨f', rest, found, split⟩
  · rw [none] at listed
    cases listed
  · rw [split] at listed
    cases listed
    refine ⟨rest, strtokR_append found ?_ t, rfl⟩
    rintro rfl
    exact more rfl

theorem field_ne_nil {s f : List Char} (member : f ∈ blankFields s) : f ≠ [] := by
  simpa using (List.mem_filter.mp member).2

/-- `fgets` with the size of the buffer: the first line with its end, or as much of it as there
is room for. -/
def fgets (size : Nat) (file : List Char) : Option (List Char) :=
  if file = [] then none
  else some ((file.takeWhile (· != '\n') ++ (file.dropWhile (· != '\n')).take 1).take (size - 1))

theorem fgets_line {size : Nat} {line : List Char} (single : '\n' ∉ line)
    (fits : line.length + 2 ≤ size) (rest : List Char) :
    fgets size (line ++ '\n' :: rest) = some (line ++ ['\n']) := by
  have plain : ∀ c ∈ line, (c != '\n') = true := fun c member =>
    bne_iff_ne.mpr fun same => single (same ▸ member)
  have ends : ('\n' :: rest).takeWhile (· != '\n') = [] ∧
      (('\n' :: rest).dropWhile (· != '\n')).take 1 = ['\n'] := ⟨rfl, rfl⟩
  rw [fgets, if_neg (by simp), takeWhile_append_of_pos plain, dropWhile_append_of_pos plain,
    ends.1, ends.2, append_nil, take_of_length_le]
  rw [length_append, length_singleton]
  omega

def pathMax : Nat := 4096

/-- Memory, and the indices that were written so far. A write behind its end is only logged. -/
structure Logged where
  mem : List Char
  log : List Nat := []
  deriving DecidableEq, Repr

def Logged.put (b : Logged) (i : Nat) (c : Char) : Logged := ⟨b.mem.set i c, b.log ++ [i]⟩

def Logged.putAll (b : Logged) (i : Nat) : List Char → Logged
  | [] => b
  | c :: cs => (b.put i c).putAll (i + 1) cs

theorem put_at (pre post : List Char) (log : List Nat) (d c : Char) :
    (Logged.mk (pre ++ d :: post) log).put pre.length c =
      ⟨pre ++ c :: post, log ++ [pre.length]⟩ := by
  simp [Logged.put]

theorem putAll_at (pre post bytes : List Char) (log : List Nat)
    (room : bytes.length ≤ post.length) : (Logged.mk (pre ++ post) log).putAll pre.length bytes =
      ⟨pre ++ (bytes ++ post.drop bytes.length), log ++ List.range' pre.length bytes.length⟩ := by
  induction bytes generalizing pre post log with
  | nil => simp [Logged.putAll]
  | cons c bytes ih =>
    cases post with
    | nil => exact absurd room (by simp)
    | cons d post =>
      have next := ih (pre ++ [c]) post (log ++ [pre.length]) (Nat.le_of_succ_le_succ room)
      rw [length_append, length_singleton] at next
      rw [Logged.putAll, put_at, append_cons, next]
      simp [range'_succ]

end CText
