import Crinit.Argv
import Crinit.Lib.CText

/-! The memory of `crinitConfConvToStrArr`: a buffer of the size of the value for all strings, and
the array of pointers into it. -/
namespace Crinit

open CText List

inductive EscToken where
  | err
  | stop
  | cpy (c : Char)
  | esc (c : Char)
  | escx (h l : Char)
  deriving DecidableEq, Repr

def escLex : List Char → EscToken × Nat
  | [] => (.err, 0)
  | '\\' :: 'x' :: a :: b :: _ =>
    if Numeral.isDigit 16 a && Numeral.isDigit 16 b then (.escx a b, 4) else (.esc 'x', 2)
  | '\\' :: c :: _ => if c = nul then (.err, 1) else (.esc c, 2)
  | ['\\'] => (.err, 1)
  | c :: _ => if c = nul then (.stop, 1) else (.cpy c, 1)

def copyEscapedLoop : Nat → Logged → Nat → Nat → Option (Logged × Nat)
  | 0, _, _, _ => none
  | turns + 1, b, runner, s =>
    match escLex (b.mem.drop s) with
    | (.err, _) => none
    | (.stop, _) => some (b.put runner nul, runner)
    | (.cpy c, len) => copyEscapedLoop turns (b.put runner c) (runner + 1) (s + len)
    | (.esc c, len) => copyEscapedLoop turns (b.put runner (escMap c)) (runner + 1) (s + len)
    | (.escx h l, len) =>
      copyEscapedLoop turns (b.put runner (Char.ofNat (Numeral.value 16 [h, l]))) (runner + 1)
        (s + len)

def copyEscapedAt (b : Logged) (dst : Nat) (src : List Char) : Option (Logged × Nat) :=
  copyEscapedLoop (src.length + 1) ((b.putAll dst src).put (dst + src.length) nul) dst dst

def ArgvToken.text? : ArgvToken → Option (List Char)
  | .uqstr text | .dqstr text => some text
  | .err | .stop | .wspc => none

def countPass (dq : Bool) : Nat → List Char → Option (List ArgvToken)
  | 0, _ => none
  | turns + 1, s =>
    match argvLex dq s with
    | (.err, _) => none
    | (.stop, _) => some []
    | (tok, rest) => (countPass dq turns rest).map (tok :: ·)

structure CopyState where
  buf : Logged
  outArr : List (Option Nat)
  argc : Nat := 0
  runner : Nat := 0
  deriving DecidableEq, Repr

def CopyState.store (st : CopyState) (text : List Char) : Option CopyState :=
  (copyEscapedAt st.buf st.runner text).map fun r =>
    ⟨r.1, st.outArr.set st.argc (some st.runner), st.argc + 1, r.2 + 1⟩

def copyPass (dq : Bool) : Nat → List Char → CopyState → Option (List ArgvToken × CopyState)
  | 0, _, _ => none
  | turns + 1, s, st =>
    match argvLex dq s with
    | (.err, _) => none
    | (.stop, _) => some ([], st)
    | (.wspc, rest) => (copyPass dq turns rest st).map fun r => (.wspc :: r.1, r.2)
    | (.uqstr text, rest) => (st.store text).bind fun st =>
      (copyPass dq turns rest st).map fun r => (.uqstr text :: r.1, r.2)
    | (.dqstr text, rest) => (st.store text).bind fun st =>
      (copyPass dq turns rest st).map fun r => (.dqstr text :: r.1, r.2)

structure StrArr where
  numElements : Nat
  outArr : List (Option Nat)
  buf : Logged
  counted : List ArgvToken
  copied : Option (List ArgvToken)
  deriving DecidableEq, Repr

def confConvToStrArrBuf (confVal : List Char) (doubleQuoting : Bool) : Option StrArr :=
  let backbuf : Logged := ⟨zeros (confVal.length + 1), []⟩
  match countPass doubleQuoting (confVal.length + 1) confVal with
  | none => none
  | some counted =>
    let numElements := (counted.filterMap ArgvToken.text?).length
    let outArr : List (Option Nat) := List.replicate (numElements + 1) none
    if numElements = 0 then some ⟨numElements, outArr, backbuf, counted, none⟩
    else
      match copyPass doubleQuoting (confVal.length + 1) confVal ⟨backbuf, outArr, 0, 0⟩ with
      | none => none
      | some (copied, st) =>
        if st.argc ≠ numElements then none
        else some ⟨numElements, st.outArr, st.buf, counted, some copied⟩

def EscToken.char? : EscToken → Option Char
  | .cpy c => some c
  | .esc c => some (escMap c)
  | .escx h l => some (Char.ofNat (Numeral.value 16 [h, l]))
  | .err | .stop => none

section InPlace

variable {pre junk rest post more used : List Char} {log : List Nat} {turns : Nat} {c : Char}

/-- The write position takes the first byte of what was read before or is read now. -/
theorem exists_first_byte (junk more : List Char) (some : used ≠ []) :
    ∃ d junk', junk ++ (used ++ more) = d :: (junk' ++ more) ∧
      junk'.length + 1 = junk.length + used.length := by
  cases whole : junk ++ used with
  | nil => exact absurd (List.append_eq_nil_iff.1 whole).2 some
  | cons d junk' =>
    refine ⟨d, junk', ?_, ?_⟩
    · rw [← append_assoc, whole, cons_append]
    · have lengths := congrArg List.length whole
      rw [length_append, length_cons] at lengths
      exact lengths.symm

theorem copyEscapedLoop_turn (pre junk : List Char) (log : List Nat) (turns : Nat) {tok : EscToken}
    (read : escLex (used ++ more) = (tok, used.length)) (char : tok.char? = some c)
    (some : used ≠ []) : ∃ junk', junk'.length + 1 = junk.length + used.length ∧
      copyEscapedLoop (turns + 1) ⟨pre ++ (junk ++ (used ++ more)), log⟩ pre.length
          (pre.length + junk.length) =
        copyEscapedLoop turns ⟨(pre ++ [c]) ++ (junk' ++ more), log ++ [pre.length]⟩
          (pre ++ [c]).length ((pre ++ [c]).length + junk'.length) := by
  obtain ⟨d, junk', shift, long⟩ := exists_first_byte junk more some
  refine ⟨junk', long, ?_⟩
  have place : pre.length + junk.length + used.length = (pre ++ [c]).length + junk'.length := by
    rw [length_append, length_singleton]
    omega
  have written : (Logged.mk (pre ++ (junk ++ (used ++ more))) log).put pre.length c =
      ⟨(pre ++ [c]) ++ (junk' ++ more), log ++ [pre.length]⟩ := by
    rw [shift, put_at, append_assoc, singleton_append]
  have next : (pre ++ [c]).length = pre.length + 1 := by simp
  rw [← place, ← written, next]
  conv_lhs => unfold copyEscapedLoop
  rw [drop_behind, read]
  cases tok with
  | err => cases char
  | stop => cases char
  | cpy _ => cases char; rfl
  | esc _ => cases char; rfl
  | escx _ _ => cases char; rfl

theorem escLex_escx {h l : Char} (digits : (Numeral.isDigit 16 h && Numeral.isDigit 16 l) = true)
    (more : List Char) : escLex ('\\' :: 'x' :: h :: l :: more) = (.escx h l, 4) := by
  simp only [escLex, digits, if_true]

theorem escLex_esc (plain : c ≠ nul) (noDigits : ∀ h l t, c = 'x' → more = h :: l :: t →
    (Numeral.isDigit 16 h && Numeral.isDigit 16 l) = false) :
    escLex ('\\' :: c :: more) = (.esc c, 2) := by
  unfold escLex
  split
  · contradiction
  · rename_i a b t same
    obtain ⟨rfl, rfl⟩ := List.cons.inj (List.cons.inj same).2
    rw [noDigits a b t rfl rfl]
    rfl
  · rename_i same
    obtain ⟨rfl, rfl⟩ := List.cons.inj (List.cons.inj same).2
    rw [if_neg plain]
  · rename_i same
    cases same
  · rename_i _ other _ same
    exact (other _ _ (List.cons.inj same).1.symm (List.cons.inj same).2.symm).elim

theorem escLex_cpy (plain : c ≠ nul) (noEscape : c ≠ '\\') (more : List Char) :
    escLex (c :: more) = (.cpy c, 1) := by
  unfold escLex
  split
  · contradiction
  · rename_i same
    exact absurd (List.cons.inj same).1 noEscape
  · rename_i same
    exact absurd (List.cons.inj same).1 noEscape
  · rename_i same
    exact absurd (List.cons.inj same).1 noEscape
  · rename_i same
    obtain ⟨rfl, rfl⟩ := List.cons.inj same
    rw [if_neg plain]

theorem escLex_stop (post : List Char) : escLex (nul :: post) = (.stop, 1) := by
  cases post <;> rfl

/-- From a turn on, `rest` is left to read and becomes `out`: it is written behind what is there
already, and no index behind the terminator of the copy is written. -/
def Unescapes (turns : Nat) (rest post out : List Char) : Prop :=
  ∀ (pre junk : List Char) (log : List Nat), ∃ post' log',
    copyEscapedLoop turns ⟨pre ++ (junk ++ (rest ++ nul :: post)), log⟩ pre.length
        (pre.length + junk.length) =
      some (⟨pre ++ (out ++ nul :: post'), log ++ log'⟩, pre.length + out.length) ∧
    out.length + post'.length = junk.length + rest.length + post.length ∧
    ∀ i ∈ log', i ≤ pre.length + junk.length + rest.length

theorem unescapes_stop (turns : Nat) (post : List Char) : Unescapes (turns + 1) [] post [] := by
  intro pre junk log
  obtain ⟨d, junk', shift, long⟩ := exists_first_byte junk post (cons_ne_nil nul [])
  refine ⟨junk' ++ post, [pre.length], ?_, ?_, ?_⟩
  · unfold copyEscapedLoop
    rw [drop_behind, nil_append, escLex_stop]
    dsimp only
    rw [singleton_append] at shift
    rw [shift, put_at]
    rfl
  · rw [length_append]
    simp at long ⊢
    omega
  · intro i mem
    rw [List.mem_singleton.1 mem]
    omega

theorem unescapes_turn {tok : EscToken} {out : List Char}
    (read : escLex (used ++ (more ++ nul :: post)) = (tok, used.length))
    (char : tok.char? = some c) (some : used ≠ []) (enough : (used ++ more).length < turns)
    (later : ∀ turns, more.length < turns → Unescapes turns more post out) :
    Unescapes turns (used ++ more) post (c :: out) := by
  obtain ⟨turns, rfl⟩ := Nat.exists_eq_succ_of_ne_zero (Nat.ne_zero_of_lt enough)
  have fewer : more.length < turns := by
    have := List.length_pos_iff.2 some
    rw [length_append] at enough
    omega
  intro pre junk log
  obtain ⟨junk', long, step⟩ := copyEscapedLoop_turn pre junk log turns read char some
  obtain ⟨post', log', result, space, bounds⟩ := later turns fewer (pre ++ [c]) junk'
    (log ++ [pre.length])
  have ends : (pre ++ [c]).length = pre.length + 1 := by simp
  rw [ends] at bounds result
  refine ⟨post', pre.length :: log', ?_, ?_, ?_⟩
  · rw [append_assoc used, step, ends, result]
    simp [Nat.add_comm, Nat.add_left_comm]
  · rw [length_append, length_cons]
    omega
  · rw [length_append]
    rintro i (_ | ⟨_, mem⟩)
    · omega
    · have bound := bounds i mem
      omega

theorem unescapes {out : List Char} (post : List Char) (plain : nul ∉ rest)
    (unescaped : copyEscaped rest = some out) (enough : rest.length < turns) :
    Unescapes turns rest post out := by
  fun_induction copyEscaped rest generalizing turns out with
  | case1 =>
    cases unescaped
    obtain ⟨turns, rfl⟩ := Nat.exists_eq_succ_of_ne_zero (Nat.ne_zero_of_lt enough)
    exact unescapes_stop turns post
  | case2 a b cs digits ih =>
    obtain ⟨out', later, rfl⟩ := Option.map_eq_some_iff.1 unescaped
    simp only [mem_cons, not_or] at plain
    exact @unescapes_turn post cs ['\\', 'x', a, b] _ _ _ _ (escLex_escx digits _) rfl (by simp)
      enough fun _ => ih plain.2.2.2.2 later
  | case3 a b cs digits ih =>
    obtain ⟨out', later, rfl⟩ := Option.map_eq_some_iff.1 unescaped
    simp only [mem_cons, not_or] at plain
    have read : escLex ('\\' :: 'x' :: (a :: b :: cs ++ nul :: post)) = (.esc 'x', 2) := by
      refine escLex_esc (by decide) fun h l t _ same => ?_
      simp only [cons_append, List.cons.injEq] at same
      rw [← same.1, ← same.2.1]
      exact Bool.eq_false_iff.2 digits
    exact @unescapes_turn post (a :: b :: cs) ['\\', 'x'] _ _ _ _ read rfl (by simp)
      enough fun _ => ih (by simp [plain]) later
  | case4 c cs other ih =>
    obtain ⟨out', later, rfl⟩ := Option.map_eq_some_iff.1 unescaped
    simp only [mem_cons, not_or] at plain
    have read : escLex ('\\' :: c :: (cs ++ nul :: post)) = (.esc c, 2) := by
      refine escLex_esc (Ne.symm plain.2.1) fun h l t x same => ?_
      -- fewer than two characters of the text are left, so one of the two is the terminator
      have low : Numeral.isDigit 16 nul = false := by decide
      cases cs with
      | nil =>
        simp only [nil_append, List.cons.injEq] at same
        rw [← same.1, low, Bool.false_and]
      | cons a cs =>
        cases cs with
        | nil =>
          simp only [cons_append, nil_append, List.cons.injEq] at same
          rw [← same.2.1, low, Bool.and_false]
        | cons b cs => exact (other a b cs x rfl).elim
    exact @unescapes_turn post cs ['\\', c] _ _ _ _ read rfl (by simp)
      enough fun _ => ih plain.2.2 later
  | case5 => cases unescaped
  | case6 c cs _ other last ih =>
    obtain ⟨out', later, rfl⟩ := Option.map_eq_some_iff.1 unescaped
    simp only [mem_cons, not_or] at plain
    have noEscape := not_backslash other last
    exact @unescapes_turn post cs [c] _ _ _ _ (escLex_cpy (Ne.symm plain.1) noEscape _) rfl
      (by simp) enough fun _ => ih plain.2 later

end InPlace

/-- `crinitCopyEscaped` in a buffer that has room for the copy and its terminator. -/
theorem copyEscapedAt_spec (pre : List Char) (log : List Nat) {post text out : List Char}
    (plain : nul ∉ text)
    (unescaped : copyEscaped text = some out) (room : text.length < post.length) :
    ∃ post' log', copyEscapedAt ⟨pre ++ post, log⟩ pre.length text =
        some (⟨pre ++ (out ++ nul :: post'), log ++ log'⟩, pre.length + out.length) ∧
      out.length + 1 + post'.length = post.length ∧
      ∀ i ∈ log', i ≤ pre.length + text.length := by
  have copied := putAll_at pre post text log (Nat.le_of_lt room)
  have behind : (post.drop text.length).length = post.length - text.length := length_drop
  obtain ⟨d, behind', split⟩ : ∃ d behind', post.drop text.length = d :: behind' := by
    cases rest : post.drop text.length with
    | nil =>
      rw [rest, length_nil] at behind
      omega
    | cons d behind' => exact ⟨d, behind', rfl⟩
  rw [split, length_cons] at behind
  obtain ⟨post', log', result, space, bounds⟩ := unescapes behind' plain unescaped
    (Nat.lt_succ_self _) pre [] (log ++ List.range' pre.length text.length ++
      [pre.length + text.length])
  refine ⟨post', List.range' pre.length text.length ++ (pre.length + text.length) :: log', ?_,
    ?_, ?_⟩
  · have ended := put_at (pre ++ text) behind' (log ++ List.range' pre.length text.length) d nul
    rw [length_append, append_assoc, append_assoc] at ended
    unfold copyEscapedAt
    rw [copied, split, ended]
    simpa using result
  · simp only [length_nil] at space
    omega
  · intro i mem
    simp only [length_nil] at bounds
    rcases List.mem_append.1 mem with mem | mem
    · have range := mem_range'_1.1 mem
      omega
    · rcases List.mem_cons.1 mem with rfl | mem
      · exact Nat.le_refl _
      · exact bounds i mem

inductive Paired : List Char → Prop
  | nil : Paired []
  | plain {c : Char} {cs : List Char} : c ≠ '\\' → Paired cs → Paired (c :: cs)
  | pair (c : Char) {cs : List Char} : Paired cs → Paired ('\\' :: c :: cs)

section Texts

variable {cs out : List Char} {dq : Bool}

theorem copyEscaped_length (unescaped : copyEscaped cs = some out) : out.length ≤ cs.length := by
  fun_induction copyEscaped cs generalizing out with
  | case1 => cases unescaped; exact Nat.le_refl _
  | case5 => cases unescaped
  | case2 _ _ _ _ ih | case3 _ _ _ _ ih | case4 _ _ _ ih | case6 _ _ _ _ _ ih =>
    obtain ⟨out', later, rfl⟩ := Option.map_eq_some_iff.1 unescaped
    have short := ih later
    simp only [length_cons] at short ⊢
    omega

theorem paired_tail {c : Char} (paired : Paired (c :: cs)) (plain : c ≠ '\\') : Paired cs := by
  cases paired with
  | plain _ paired => exact paired
  | pair => exact absurd rfl plain

theorem paired_behind {c : Char} (paired : Paired ('\\' :: c :: cs)) : Paired cs := by
  cases paired with
  | plain plain _ => exact absurd rfl plain
  | pair _ paired => exact paired

theorem digit_noEscape {c : Char} (digit : Numeral.isDigit 16 c = true) : c ≠ '\\' := by
  rintro rfl
  exact absurd digit (by decide)

theorem paired_unescapes (paired : Paired cs) : ∃ out, copyEscaped cs = some out := by
  fun_induction copyEscaped cs with
  | case1 => exact ⟨[], rfl⟩
  | case2 a b cs digits ih =>
    rw [Bool.and_eq_true] at digits
    have hex := paired_tail (paired_behind paired) (digit_noEscape digits.1)
    obtain ⟨out, later⟩ := ih (paired_tail hex (digit_noEscape digits.2))
    exact ⟨_, Option.map_eq_some_iff.2 ⟨out, later, rfl⟩⟩
  | case3 a b cs digits ih =>
    obtain ⟨out, later⟩ := ih (paired_behind paired)
    exact ⟨_, Option.map_eq_some_iff.2 ⟨out, later, rfl⟩⟩
  | case4 c cs other ih =>
    obtain ⟨out, later⟩ := ih (paired_behind paired)
    exact ⟨_, Option.map_eq_some_iff.2 ⟨out, later, rfl⟩⟩
  | case5 =>
    cases paired with
    | plain plain _ => exact absurd rfl plain
  | case6 c cs _ other last ih =>
    obtain ⟨out, later⟩ := ih (paired_tail paired (not_backslash other last))
    exact ⟨_, Option.map_eq_some_iff.2 ⟨out, later, rfl⟩⟩

theorem plain_char {c : Char} (plain : isPlain dq c = true) : c ≠ '\\' ∧ c ≠ nul := by
  constructor
  · rintro rfl
    exact absurd plain (by simp [isPlain])
  · rintro rfl
    exact absurd plain (by simp [isPlain, nul])

theorem unquoted_text (dq : Bool) (cs : List Char) :
    Paired (unquoted dq cs).1 ∧ nul ∉ (unquoted dq cs).1 := by
  fun_induction unquoted dq cs with
  | case1 => exact ⟨.nil, by simp⟩
  | case2 c plain =>
    obtain ⟨noEscape, noNul⟩ := plain_char plain
    exact ⟨.plain noEscape .nil, by simpa using Ne.symm noNul⟩
  | case3 => exact ⟨.nil, by simp⟩
  | case4 c e cs plain r ih =>
    obtain ⟨noEscape, noNul⟩ := plain_char plain
    exact ⟨.plain noEscape ih.1, by simp [Ne.symm noNul, ih.2, r]⟩
  | case5 c e cs plain escape r ih =>
    simp only [Bool.and_eq_true, decide_eq_true_iff, bne_iff_ne] at escape
    obtain ⟨rfl, noNul⟩ := escape
    have other : nul ≠ e := Ne.symm noNul
    have escape : nul ≠ '\\' := by decide
    exact ⟨.pair e ih.1, by simp [escape, other, ih.2, r]⟩
  | case6 => exact ⟨.nil, by simp⟩

theorem quoted_text {r : List Char × List Char} (found : quoted cs = some r) :
    Paired r.1 ∧ nul ∉ r.1 ∧ r.1.length + r.2.length < cs.length := by
  fun_induction quoted cs generalizing r with
  | case1 | case3 | case5 | case7 => cases found
  | case2 | case4 =>
    cases found
    exact ⟨.nil, not_mem_nil, by simp⟩
  | case6 e cs stop quote ih =>
    obtain ⟨r', found', rfl⟩ := Option.map_eq_some_iff.1 found
    obtain ⟨paired, noNul, short⟩ := ih found'
    have escape : nul ≠ '\\' := by decide
    have other : nul ≠ e := Ne.symm stop
    refine ⟨.pair e paired, by simp [escape, other, noNul], ?_⟩
    simp only [length_cons]
    omega
  | case8 c e cs quote escape stop ih =>
    obtain ⟨r', found', rfl⟩ := Option.map_eq_some_iff.1 found
    obtain ⟨paired, noNul, short⟩ := ih found'
    simp only [Bool.or_eq_true, decide_eq_true_iff, not_or] at stop
    have other : nul ≠ c := Ne.symm stop.2
    refine ⟨.plain escape paired, by simp [other, noNul], ?_⟩
    simp only [length_cons] at short ⊢
    omega

theorem unquoted_maximal (dq : Bool) (cs : List Char) :
    (unquoted dq (unquoted dq cs).2).1 = [] := by
  fun_induction unquoted dq cs with
  | case1 | case2 => simp [unquoted]
  | case3 c plain => simp [unquoted, plain]
  | case4 c e cs plain r ih => exact ih
  | case5 c e cs plain escape r ih => exact ih
  | case6 c e cs plain escape => simp only [unquoted, plain, escape, if_false, Bool.false_eq_true]

end Texts

/-- What is left of the value fits behind what has been written. The terminator of an unquoted
string may take one byte more than its token. -/
def Fits (dq : Bool) (total runner : Nat) (s : List Char) : Prop :=
  runner + s.length ≤ total ∨ runner + s.length ≤ total + 1 ∧ (unquoted dq s).1 = []

section Passes

variable {dq : Bool} {total runner : Nat} {s rest text : List Char} {tok : ArgvToken}

def TokenTakes (dq : Bool) (s : List Char) : ArgvToken × List Char → Prop
  | (.wspc, rest) => rest.length < s.length
  | (.uqstr text, rest) => text ≠ [] ∧ unquoted dq s = (text, rest)
  | (.dqstr text, rest) => ∃ c cs, s = c :: cs ∧ quoted cs = some (text, rest)
  | (.err, _) | (.stop, _) => True

theorem argvLex_takes {r : ArgvToken × List Char} (read : argvLex dq s = r) :
    TokenTakes dq s r := by
  subst read
  fun_cases argvLex dq s with
  | case1 => trivial
  | case2 c cs blank => exact Nat.lt_succ_of_le (dropWhile_suffix _).length_le
  | case3 c cs _ _ text rest found => exact ⟨c, cs, rfl, found⟩
  | case4 => trivial
  | case5 => trivial
  | case6 c cs _ _ text rest found some => exact ⟨found, some⟩

theorem fits_blank (blank : argvLex dq s = (.wspc, rest)) (fits : Fits dq total runner s) :
    Fits dq total runner rest := by
  have short : rest.length < s.length := argvLex_takes blank
  left
  rcases fits with fits | ⟨fits, -⟩ <;> omega

structure HasRoom (dq : Bool) (total runner : Nat) (text rest : List Char) : Prop where
  paired : Paired text
  plain : nul ∉ text
  room : runner + text.length ≤ total
  next : ∀ n ≤ text.length, Fits dq total (runner + n + 1) rest

theorem fits_unquoted (read : argvLex dq s = (.uqstr text, rest))
    (fits : Fits dq total runner s) : HasRoom dq total runner text rest := by
  obtain ⟨some, match'⟩ : text ≠ [] ∧ unquoted dq s = (text, rest) := argvLex_takes read
  have whole := congrArg List.length (@unquoted_append dq s)
  have maximal := unquoted_maximal dq s
  obtain ⟨paired, plain⟩ := unquoted_text dq s
  rw [length_append] at whole
  rw [match'] at whole maximal paired plain
  simp only at whole
  have fits : runner + s.length ≤ total := by
    rcases fits with fits | ⟨-, none⟩
    · exact fits
    · rw [match'] at none
      exact absurd none some
  exact ⟨paired, plain, by omega, fun n short => .inr ⟨by omega, maximal⟩⟩

theorem fits_quoted (read : argvLex dq s = (.dqstr text, rest))
    (fits : Fits dq total runner s) : HasRoom dq total runner text rest := by
  obtain ⟨c, cs, rfl, found⟩ : ∃ c cs, s = c :: cs ∧ quoted cs = some (text, rest) :=
    argvLex_takes read
  obtain ⟨paired, plain, short⟩ := quoted_text found
  have fits : runner + (cs.length + 1) ≤ total + 1 := by
    rcases fits with fits | ⟨fits, -⟩
    · exact Nat.le_succ_of_le fits
    · exact fits
  simp only at short
  exact ⟨paired, plain, by omega, fun n few => .inl (by omega)⟩

structure Ready (total : Nat) (pre : List Char) (done : List (Option Nat)) (left : Nat)
    (st : CopyState) : Prop where
  mem : ∃ post, st.buf.mem = pre ++ post ∧ pre.length + post.length = total + 1
  runner : st.runner = pre.length
  argc : st.argc = done.length
  outArr : st.outArr = done ++ List.replicate (left + 1) none
  bounds : ∀ i ∈ st.buf.log, i ≤ total

def Stored (mem : List Char) (off : Nat) (out : List Char) : Prop :=
  ∃ before after, mem = before ++ (out ++ nul :: after) ∧ before.length = off

structure CopiedBehind (total : Nat) (pre : List Char) (done : List (Option Nat))
    (texts : List (List Char)) (st : CopyState) : Prop where
  frame : ∃ behind, st.buf.mem = pre ++ behind
  strings : ∃ offsets outs, List.Forall₂ (fun text out => copyEscaped text = some out) texts outs ∧
    List.Forall₂ (Stored st.buf.mem) offsets outs ∧
    st.outArr = done ++ (offsets.map some ++ [none]) ∧ st.argc = done.length + offsets.length
  bounds : ∀ i ∈ st.buf.log, i ≤ total

variable {pre out : List Char} {done : List (Option Nat)} {left turns : Nat} {st : CopyState}
  {texts : List (List Char)}

theorem store_ready (ready : Ready total pre done (left + 1) st)
    (room : HasRoom dq total pre.length text rest) :
    ∃ out st', st.store text = some st' ∧ copyEscaped text = some out ∧
      Ready total (pre ++ (out ++ [nul])) (done ++ [some pre.length]) left st' ∧
      Fits dq total (pre ++ (out ++ [nul])).length rest := by
  obtain ⟨buf, outArr, argc, runner⟩ := st
  obtain ⟨mem, log⟩ := buf
  obtain ⟨⟨post, rfl, size⟩, rfl, rfl, rfl, bounds⟩ := ready
  obtain ⟨out, unescaped⟩ := paired_unescapes room.paired
  have enough := room.room
  obtain ⟨post', log', written, space, bounds'⟩ := copyEscapedAt_spec pre log room.plain
    unescaped (show text.length < post.length by omega)
  have next := room.next out.length (copyEscaped_length unescaped)
  have long : (pre ++ (out ++ [nul])).length = pre.length + out.length + 1 := by
    simp [Nat.add_assoc]
  refine ⟨out, _, Option.map_eq_some_iff.2 ⟨_, written, rfl⟩, unescaped, ?_, long ▸ next⟩
  refine ⟨⟨post', by simp, by omega⟩, long.symm, by simp, ?_, ?_⟩
  · simp [replicate_succ]
  · intro i mem
    rcases List.mem_append.1 mem with mem | mem
    · exact bounds i mem
    · exact Nat.le_trans (bounds' i mem) enough

theorem copied_cons (unescaped : copyEscaped text = some out)
    (copied : CopiedBehind total (pre ++ (out ++ [nul])) (done ++ [some pre.length]) texts st) :
    CopiedBehind total pre done (text :: texts) st := by
  obtain ⟨⟨behind, frame⟩, ⟨offsets, outs, unescapes, stored, outArr, argc⟩, bounds⟩ := copied
  refine ⟨⟨out ++ [nul] ++ behind, by rw [frame]; simp⟩,
    ⟨pre.length :: offsets, out :: outs, .cons unescaped unescapes, .cons ?_ stored, ?_, ?_⟩,
    bounds⟩
  · exact ⟨pre, behind, by rw [frame]; simp, rfl⟩
  · rw [outArr]
    simp
  · rw [argc]
    simp only [length_append, length_cons, length_nil]
    omega

theorem copied_nil (ready : Ready total pre done 0 st) : CopiedBehind total pre done [] st := by
  obtain ⟨post, mem, -⟩ := ready.mem
  exact ⟨⟨post, mem⟩, ⟨[], [], .nil, .nil, ready.outArr, ready.argc⟩, ready.bounds⟩

/-- The second pass finds room for every string that the first has counted. -/
theorem copyPass_copies {toks : List ArgvToken} (counted : countPass dq turns s = some toks)
    (ready : Ready total pre done (toks.filterMap ArgvToken.text?).length st)
    (fits : Fits dq total pre.length s) :
    ∃ st', copyPass dq turns s st = some (toks, st') ∧
      CopiedBehind total pre done (toks.filterMap ArgvToken.text?) st' := by
  induction turns generalizing s toks pre done st with
  | zero => cases counted
  | succ turns ih =>
    rw [countPass] at counted
    rw [copyPass]
    cases read : argvLex dq s with
    | mk tok rest =>
      rw [read] at counted
      cases tok with
      | err => cases counted
      | stop =>
        cases counted
        exact ⟨st, rfl, copied_nil ready⟩
      | wspc =>
        obtain ⟨toks, later, rfl⟩ := Option.map_eq_some_iff.1 counted
        obtain ⟨st', rest', copied⟩ := ih later ready (fits_blank read fits)
        exact ⟨st', Option.map_eq_some_iff.2 ⟨_, rest', rfl⟩, copied⟩
      | uqstr text =>
        obtain ⟨toks, later, rfl⟩ := Option.map_eq_some_iff.1 counted
        obtain ⟨out, st₁, stored, unescaped, ready, fits⟩ :=
          store_ready ready (fits_unquoted read fits)
        obtain ⟨st', rest', copied⟩ := ih later ready fits
        refine ⟨st', ?_, copied_cons unescaped copied⟩
        simp only [stored, rest', Option.bind_some, Option.map_some]
      | dqstr text =>
        obtain ⟨toks, later, rfl⟩ := Option.map_eq_some_iff.1 counted
        obtain ⟨out, st₁, stored, unescaped, ready, fits⟩ :=
          store_ready ready (fits_quoted read fits)
        obtain ⟨st', rest', copied⟩ := ih later ready fits
        refine ⟨st', ?_, copied_cons unescaped copied⟩
        simp only [stored, rest', Option.bind_some, Option.map_some]

end Passes

def StrArr.strings (r : StrArr) : List String :=
  (r.outArr.filterMap id).map fun off => terminated (r.buf.mem.drop off)

structure FitsBuffer (confVal : List Char) (r : StrArr) : Prop where
  sameTokens : ∀ copied ∈ r.copied, copied = r.counted
  count : r.numElements = (r.counted.filterMap ArgvToken.text?).length
  nullTerminated : ∃ offsets outs, r.outArr = offsets.map some ++ [none] ∧
    offsets.length = r.numElements ∧ List.Forall₂ (Stored r.buf.mem) offsets outs ∧
    List.Forall₂ (fun text out => copyEscaped text = some out)
      (r.counted.filterMap ArgvToken.text?) outs
  inBounds : ∀ i ∈ r.buf.log, i ≤ confVal.length

section Result

variable {confVal : List Char} {dq : Bool} {counted : List ArgvToken}

theorem ready_first (confVal : List Char) (numElements : Nat) :
    Ready confVal.length [] [] numElements
      ⟨⟨zeros (confVal.length + 1), []⟩, List.replicate (numElements + 1) none, 0, 0⟩ :=
  ⟨⟨zeros (confVal.length + 1), rfl, by simp [zeros]⟩, rfl, rfl, rfl,
    fun _ mem => absurd mem not_mem_nil⟩

/-- A value that the first pass accepts is accepted by the second one. -/
theorem confConvToStrArrBuf_counted
    (count : countPass dq (confVal.length + 1) confVal = some counted) :
    ∃ r, confConvToStrArrBuf confVal dq = some r ∧ r.counted = counted ∧ FitsBuffer confVal r := by
  unfold confConvToStrArrBuf
  simp only [count]
  by_cases empty : (counted.filterMap ArgvToken.text?).length = 0
  · rw [if_pos empty]
    refine ⟨_, rfl, rfl, (fun _ copied => by cases copied), rfl,
      ⟨[], [], ?_, ?_, .nil, ?_⟩, fun _ mem => absurd mem not_mem_nil⟩
    · rw [empty]
      rfl
    · exact empty.symm
    · rw [List.length_eq_zero_iff.1 empty]
      exact .nil
  · obtain ⟨st, pass, copied⟩ := copyPass_copies count (ready_first confVal _)
      (.inl (Nat.le_of_eq (Nat.zero_add _)))
    obtain ⟨offsets, outs, unescapes, stored, outArr, argc⟩ := copied.strings
    have many : offsets.length = (counted.filterMap ArgvToken.text?).length :=
      stored.length_eq.trans unescapes.length_eq.symm
    rw [length_nil, Nat.zero_add, many] at argc
    rw [if_neg empty, pass]
    simp only [argc, ne_eq, not_true_eq_false, if_false]
    refine ⟨_, rfl, rfl, ?_, rfl, ⟨offsets, outs, outArr, many, stored, unescapes⟩, copied.bounds⟩
    rintro _ ⟨⟩
    rfl

theorem converted_fits {r : StrArr} (converted : confConvToStrArrBuf confVal dq = some r) :
    FitsBuffer confVal r := by
  cases count : countPass dq (confVal.length + 1) confVal with
  | none =>
    simp only [confConvToStrArrBuf, count] at converted
    cases converted
  | some counted =>
    obtain ⟨r', converted', -, fits⟩ := confConvToStrArrBuf_counted count
    obtain rfl : r' = r := Option.some.inj (converted'.symm.trans converted)
    exact fits

/-- Both passes see the same tokens, the array ends after as many strings, and nothing is written
behind the buffer. -/
theorem argv_fits_buffer (confVal : List Char) (doubleQuoting : Bool) {r : StrArr}
    (converted : confConvToStrArrBuf confVal doubleQuoting = some r) : FitsBuffer confVal r :=
  converted_fits converted

/-- The value `a"b"c`, whose last terminator takes the last byte of the buffer. -/
theorem touching_tokens_fit : ∃ r, confConvToStrArrBuf ['a', '"', 'b', '"', 'c'] true = some r ∧
    r.numElements = 3 ∧ 5 ∈ r.buf.log ∧ FitsBuffer ['a', '"', 'b', '"', 'c'] r :=
  ⟨_, rfl, rfl, by decide, argv_fits_buffer ['a', '"', 'b', '"', 'c'] true rfl⟩

/-! The buffer holds the strings of `confConvToStrArr`. -/

theorem countPass_texts (dq : Bool) (turns : Nat) (s : List Char) :
    (countPass dq turns s).map (List.filterMap ArgvToken.text?) = argvTokens dq turns s := by
  induction turns generalizing s with
  | zero => rfl
  | succ turns ih =>
    rw [countPass, argvTokens]
    cases argvLex dq s with
    | mk tok rest =>
      cases tok with
      | err => rfl
      | stop => rfl
      | wspc => simp only [← ih, Option.map_map]; rfl
      | uqstr text => simp only [← ih, Option.map_map]; rfl
      | dqstr text => simp only [← ih, Option.map_map]; rfl

theorem stored_terminated {mem out : List Char} {off : Nat} (stored : Stored mem off out) :
    terminated (mem.drop off) = terminated out := by
  obtain ⟨before, after, rfl, rfl⟩ := stored
  rw [drop_left]
  unfold terminated
  congr 1
  induction out with
  | nil => rfl
  | cons c out ih =>
    rw [cons_append, takeWhile_cons, takeWhile_cons, ih]

theorem strings_of_offsets {mem : List Char} {offsets : List Nat} {outs : List (List Char)}
    (stored : List.Forall₂ (Stored mem) offsets outs) :
    offsets.map (fun off => terminated (mem.drop off)) = outs.map terminated := by
  induction stored with
  | nil => rfl
  | cons here _ ih => rw [map_cons, map_cons, stored_terminated here, ih]

theorem mapM_unescaped {texts outs : List (List Char)}
    (unescapes : List.Forall₂ (fun text out => copyEscaped text = some out) texts outs) :
    texts.mapM (fun text => (copyEscaped text).map terminated) = some (outs.map terminated) := by
  induction unescapes with
  | nil => rfl
  | cons here _ ih => simp [mapM_cons, here, ih]

theorem confConvToStrArrBuf_strings (confVal : String) (doubleQuoting : Bool) :
    (confConvToStrArrBuf confVal.toList doubleQuoting).map StrArr.strings =
      confConvToStrArr confVal doubleQuoting := by
  have texts := countPass_texts doubleQuoting (confVal.toList.length + 1) confVal.toList
  cases count : countPass doubleQuoting (confVal.toList.length + 1) confVal.toList with
  | none =>
    rw [count, Option.map_none] at texts
    simp [confConvToStrArrBuf, confConvToStrArr, count, ← texts]
  | some counted =>
    rw [count, Option.map_some] at texts
    obtain ⟨r, converted, rfl, fits⟩ := confConvToStrArrBuf_counted count
    obtain ⟨offsets, outs, outArr, -, stored, unescapes⟩ := fits.nullTerminated
    have pointed : r.outArr.filterMap id = offsets := by simp [outArr, filterMap_append]
    rw [converted, Option.map_some, StrArr.strings, pointed, strings_of_offsets stored,
      confConvToStrArr, ← texts]
    exact (mapM_unescaped unescapes).symm

end Result

end Crinit
