import Crinit.Quoting
import Crinit.Signature
import Mathlib.Data.List.Forall2

/-! The list that `crinitParseConf` makes of a file. `crinitIniHandler` puts an unset element behind
each that it sets, and the last one is taken away. -/
namespace Crinit

open List

structure ConfCell where
  key : Option String
  val : Option String
  deriving DecidableEq, Repr

def ConfCell.fresh : ConfCell := ⟨none, none⟩

def ConfCell.ofKv (kv : ConfKv) : ConfCell := ⟨some kv.key, some kv.val⟩

def ConfCell.kv? : ConfCell → Option ConfKv
  | ⟨some key, some val⟩ => some ⟨key, val⟩
  | _ => none

/-- `crinitIniParserCtx_t`: the elements from `anchor` on, and the places of two of them. -/
structure IniChain where
  cells : List ConfCell := [.fresh]
  pList : Nat := 0
  last : Nat := 0
  keyArrayCount : Nat := 0
  deriving DecidableEq, Repr

def IniChain.ctx (chain : IniChain) : IniParserCtx :=
  { list := if chain.last = chain.pList then []
      else (chain.cells[chain.last]?.bind ConfCell.kv?).toList
    keyArrayCount := chain.keyArrayCount }

def IniChain.handler (chain : IniChain) (key value : String) : Option IniChain :=
  (legacyKey chain.ctx key.toList).map fun (short, count) =>
    let val := (matchQuotedConfig value.toList).getD value.toList
    let cell : ConfCell := ⟨some (String.ofList short), some (String.ofList val)⟩
    { cells := chain.cells.set chain.pList cell ++ [.fresh]
      pList := chain.cells.length
      last := chain.pList
      keyArrayCount := count }

def IniChain.trim (chain : IniChain) : List ConfCell := chain.cells.take (chain.last + 1)

def chainOf (pairs : List (String × String)) : Option (List ConfCell) :=
  (pairs.foldlM (fun chain p => IniChain.handler chain p.1 p.2) {}).map IniChain.trim

def handled (pairs : List (String × String)) (ctx : IniParserCtx) : Option IniParserCtx :=
  pairs.foldlM (fun ctx p => iniHandler ctx p.1 p.2) ctx

structure Inih where
  pairs : Bytes → Option (List (String × String))
  empty : pairs [] = some []

def Inih.parseString (inih : Inih) (text : Bytes) : Option (List ConfKv) :=
  (inih.pairs text).bind fun pairs => (handled pairs {}).map IniParserCtx.list

def ConfList.cells : ConfList → List ConfCell
  | .unset => [.fresh]
  | .entries kvs => kvs.map ConfCell.ofKv

def Subscript (cs : List Char) : Prop :=
  ∃ inner, cs = '[' :: (inner ++ [']']) ∧ '[' ∉ inner ∧ ']' ∉ inner

def WithoutSubscript (key short : List Char) : Prop :=
  (∃ sub, Subscript sub ∧ key = short ++ sub) ∨
    (short = key ∧ ∀ base sub, Subscript sub → key ≠ base ++ sub)

def Enclosed (value text : List Char) : Prop :=
  ∃ before after, (∀ c ∈ before, c = ' ') ∧ (∀ c ∈ after, c = ' ') ∧
    value = before ++ '"' :: (text ++ '"' :: after)

def WithoutQuotes (value text : List Char) : Prop :=
  Enclosed value text ∨ (text = value ∧ ∀ text', ¬ Enclosed value text')

def Described (pairs : List (String × String)) (cells : List ConfCell) : Prop :=
  List.Forall₂ (fun p cell => ∃ key val,
    cell = ⟨some (String.ofList key), some (String.ofList val)⟩ ∧
    WithoutSubscript p.1.toList key ∧ WithoutQuotes p.2.toList val) pairs cells

/-- The first bracket of a key starts a subscript that ends the key. If that subscript is empty,
any other empty one at the end will do. -/
def SubscriptLast (key : List Char) : Prop :=
  if key.length ≤ 2 then key ≠ ['[', ']']
  else '[' ∉ key ∨ Subscript (key.dropWhile (· ≠ '[')) ∨
    (['[', ']'] <+: key.dropWhile (· ≠ '[') ∧ ['[', ']'] <:+ key)

/-! ### The list in memory is the list of entries -/

structure IniChain.Holds (chain : IniChain) (ctx : IniParserCtx) : Prop where
  cells : chain.cells = ctx.list.map ConfCell.ofKv ++ [.fresh]
  pList : chain.pList = ctx.list.length
  last : chain.last = ctx.list.length - 1
  keyArrayCount : chain.keyArrayCount = ctx.keyArrayCount

section Chain

variable {chain : IniChain} {ctx : IniParserCtx}

theorem ctx_getLast? (holds : chain.Holds ctx) : chain.ctx.list.getLast? = ctx.list.getLast? := by
  obtain ⟨cells, pList, last, -⟩ := holds
  unfold IniChain.ctx
  rcases eq_nil_or_concat ctx.list with none | ⟨before, kv, some⟩
  · rw [none, length_nil] at pList last
    rw [if_pos (last.trans pList.symm), none]
  · rw [some] at cells pList last
    have behind : chain.last = before.length := by simpa using last
    rw [if_neg (by rw [behind, pList]; simp), cells, behind, some]
    simp [ConfCell.ofKv, ConfCell.kv?]

theorem legacyKey_congr {ctx' : IniParserCtx} (last : ctx'.list.getLast? = ctx.list.getLast?)
    (count : ctx'.keyArrayCount = ctx.keyArrayCount) (key : List Char) :
    legacyKey ctx' key = legacyKey ctx key := by
  have counts : arrayCount ctx' = arrayCount ctx := by
    funext short
    unfold arrayCount
    rw [last, count]
  unfold legacyKey
  rw [counts, count]

theorem handler_holds (holds : chain.Holds ctx) (key value : String) :
    Option.Rel IniChain.Holds (chain.handler key value) (iniHandler ctx key value) := by
  have same := legacyKey_congr (ctx_getLast? holds) holds.keyArrayCount key.toList
  obtain ⟨cells, pList, last, -⟩ := holds
  unfold IniChain.handler iniHandler
  rw [same]
  cases legacyKey ctx key.toList with
  | none => exact .none
  | some parts =>
    refine .some ⟨?_, ?_, ?_, rfl⟩
    · simp [cells, pList, ConfCell.ofKv, ConfCell.fresh]
    · simp [cells]
    · simp [pList]

theorem foldlM_holds (holds : chain.Holds ctx) (pairs : List (String × String)) :
    Option.Rel IniChain.Holds
      (pairs.foldlM (fun chain p => IniChain.handler chain p.1 p.2) chain) (handled pairs ctx) := by
  induction pairs generalizing chain ctx with
  | nil => exact .some holds
  | cons p pairs ih =>
    have step := handler_holds holds p.1 p.2
    unfold handled
    rw [foldlM_cons, foldlM_cons]
    generalize chain.handler p.1 p.2 = chain' at step ⊢
    generalize iniHandler ctx p.1 p.2 = ctx' at step ⊢
    cases step with
    | none => exact .none
    | some holds => exact ih holds

theorem holds_first : IniChain.Holds {} {} := ⟨rfl, rfl, rfl, rfl⟩

theorem trim_cells (holds : chain.Holds ctx) :
    chain.trim = (ConfList.ofEntries ctx.list).cells := by
  obtain ⟨cells, -, last, -⟩ := holds
  unfold IniChain.trim ConfList.ofEntries
  rw [cells, last]
  split_ifs with none
  · rw [none]
    rfl
  · have some := List.length_pos_iff.2 none
    rw [Nat.sub_add_cancel some, take_append_of_le_length (by simp), take_of_length_le]
    · rfl
    · simp

theorem chainOf_eq (pairs : List (String × String)) :
    chainOf pairs = (handled pairs {}).map fun ctx => (ConfList.ofEntries ctx.list).cells := by
  have runs := foldlM_holds holds_first pairs
  unfold chainOf
  generalize pairs.foldlM (fun chain p => IniChain.handler chain p.1 p.2) {} = chain at runs ⊢
  generalize handled pairs {} = ctx at runs ⊢
  cases runs with
  | none => rfl
  | some holds => rw [Option.map_some, Option.map_some, trim_cells holds]

end Chain

section Keys

variable {key short sub base : List Char} {ctx : IniParserCtx} {count : Nat}

theorem subscript_some (subscript : Subscript sub) : 2 ≤ sub.length := by
  obtain ⟨inner, rfl, -⟩ := subscript
  simp

theorem subscript_two (subscript : Subscript sub) (two : sub.length = 2) : sub = ['[', ']'] := by
  obtain ⟨inner, rfl, -⟩ := subscript
  have none : inner = [] := by simpa using two
  rw [none, nil_append]

theorem subscript_empty : Subscript ['[', ']'] :=
  ⟨[], rfl, not_mem_nil, not_mem_nil⟩

theorem unchanged_iff : WithoutSubscript key key ↔ ∀ base sub, Subscript sub →
      key ≠ base ++ sub := by
  constructor
  · rintro (⟨sub, subscript, whole⟩ | ⟨-, none⟩)
    · have nil : sub = [] := by simpa using whole
      have some := subscript_some subscript
      rw [nil] at some
      cases some
    · exact none
  · exact fun none => .inr ⟨rfl, none⟩

theorem cut_iff (some : sub ≠ []) : WithoutSubscript (base ++ sub) base ↔ Subscript sub := by
  constructor
  · rintro (⟨sub', subscript, whole⟩ | ⟨whole, -⟩)
    · rwa [append_cancel_left whole]
    · have nil : sub = [] := by simpa using whole
      exact absurd nil some
  · exact fun subscript => .inl ⟨sub, subscript, rfl⟩

theorem unbracketed (plain : '[' ∉ key) (subscript : Subscript sub) : key ≠ base ++ sub := by
  obtain ⟨inner, rfl, -⟩ := subscript
  rintro rfl
  simp at plain

theorem short_key (two : key.length ≤ 2) :
    (∀ base sub, Subscript sub → key ≠ base ++ sub) ↔ key ≠ ['[', ']'] := by
  constructor
  · rintro none rfl
    exact none [] ['[', ']'] subscript_empty rfl
  · rintro other base sub subscript rfl
    have some := subscript_some subscript
    rw [length_append] at two
    have nil : base = [] := List.length_eq_zero_iff.1 (by omega)
    rw [nil, nil_append, subscript_two subscript (by omega)] at other
    exact other rfl

theorem bracket_parts (key : List Char) :
    key.take (key.length - (key.dropWhile (· ≠ '[')).length) ++ key.dropWhile (· ≠ '[') = key := by
  have whole := @takeWhile_append_dropWhile _ (fun c => decide (c ≠ '[')) key
  generalize key.takeWhile (fun c => decide (c ≠ '[')) = before at whole
  generalize key.dropWhile (fun c => decide (c ≠ '[')) = brck at whole ⊢
  subst whole
  simp

theorem bracket_first {rest : List Char} (brck : key.dropWhile (· ≠ '[') = '[' :: ']' :: rest)
    (subscript : Subscript (key.dropWhile (· ≠ '['))) : ['[', ']'] <:+ key := by
  have inside := bracket_parts key
  obtain ⟨inner, same, -, plain⟩ := subscript
  rw [brck] at same
  have none : inner = [] := by
    cases inner with
    | nil => rfl
    | cons c inner =>
      simp only [cons_append, List.cons.injEq] at same
      exact absurd (same.2.1 ▸ mem_cons_self) plain
  rw [none, nil_append] at same
  rw [brck, same] at inside
  exact ⟨_, inside⟩

theorem empty_subscript {rest : List Char} (brck : key.dropWhile (· ≠ '[') = '[' :: ']' :: rest)
    (long : 2 < key.length) : WithoutSubscript key (key.take (key.length - 2)) ↔
      Subscript (key.dropWhile (· ≠ '[')) ∨
        (['[', ']'] <+: key.dropWhile (· ≠ '[') ∧ ['[', ']'] <:+ key) := by
  have two : (key.drop (key.length - 2)).length = 2 := by
    rw [length_drop]
    omega
  have cut := @cut_iff (key.drop (key.length - 2)) (key.take (key.length - 2))
    (ne_nil_of_length_pos (by omega))
  rw [take_append_drop] at cut
  rw [cut]
  constructor
  · intro subscript
    refine .inr ⟨brck ▸ ⟨rest, rfl⟩, ?_⟩
    rw [← subscript_two subscript two]
    exact drop_suffix _ _
  · intro last
    obtain ⟨base, whole⟩ : ['[', ']'] <:+ key := by
      rcases last with subscript | ⟨-, suffix⟩
      · exact bracket_first brck subscript
      · exact suffix
    have behind : key.drop (key.length - 2) = ['[', ']'] := by
      rw [← whole, length_append]
      exact drop_left
    rw [behind]
    exact subscript_empty

/-- The handler takes a subscript at the end of the key away, and nothing else, exactly if the
first bracket of the key is where it starts. -/
theorem legacyKey_without (accepted : legacyKey ctx key = some (short, count)) :
    WithoutSubscript key short ↔ SubscriptLast key := by
  unfold legacyKey at accepted
  unfold SubscriptLast
  by_cases bracket : 2 < key.length ∧ '[' ∈ key
  · obtain ⟨long, mem⟩ := bracket
    have brackets : ¬ '[' ∉ key := fun plain => plain mem
    rw [if_pos ⟨long, mem⟩] at accepted
    rw [if_neg (Nat.not_le.2 long)]
    simp only [brackets, false_or]
    split at accepted
    · rename_i rest brck
      cases accepted
      exact empty_subscript brck long
    · rename_i other
      dsimp only at accepted
      split_ifs at accepted
      cases accepted
      have some : key.dropWhile (· ≠ '[') ≠ [] := by
        intro nil
        have all := List.dropWhile_eq_nil_iff.1 nil '[' mem
        simp at all
      have cut := @cut_iff (key.dropWhile (· ≠ '['))
        (key.take (key.length - (key.dropWhile (· ≠ '[')).length)) some
      rw [bracket_parts] at cut
      rw [cut, or_iff_left]
      rintro ⟨⟨rest, whole⟩, -⟩
      exact other rest whole.symm
  · rw [if_neg bracket] at accepted
    cases accepted
    rw [unchanged_iff]
    by_cases two : key.length ≤ 2
    · rw [if_pos two, short_key two]
    · have plain : '[' ∉ key := fun mem => bracket ⟨Nat.not_le.1 two, mem⟩
      rw [if_neg two]
      exact iff_of_true (fun base sub => unbracketed plain) (.inl plain)

end Keys

theorem matchQuotedConfig_iff {value text : List Char} :
    matchQuotedConfig value = some text ↔ Enclosed value text := by
  constructor
  · intro found
    unfold matchQuotedConfig at found
    split at found
    · rename_i rest front
      split at found
      · rename_i inner back
        cases found
        refine ⟨value.takeWhile (· = ' '), (rest.reverse.takeWhile (· = ' ')).reverse, ?_, ?_, ?_⟩
        · exact fun c mem => by simpa using mem_takeWhile_imp mem
        · exact fun c mem => by simpa using mem_takeWhile_imp (List.mem_reverse.1 mem)
        · have inside : rest = inner.reverse ++ '"' ::
            (rest.reverse.takeWhile (· = ' ')).reverse := by
            have whole := congrArg List.reverse
              (@takeWhile_append_dropWhile _ (fun c => decide (c = ' ')) rest.reverse)
            rw [back] at whole
            simpa using whole.symm
          rw [← inside, ← front, takeWhile_append_dropWhile]
      · cases found
    · cases found
  · rintro ⟨before, after, blanks, blanks', rfl⟩
    have front : (before ++ '"' :: (text ++ '"' :: after)).dropWhile (· = ' ') =
        '"' :: (text ++ '"' :: after) := by
      rw [dropWhile_append_of_pos fun c mem => decide_eq_true (blanks c mem)]
      rfl
    have back : (text ++ '"' :: after).reverse.dropWhile (· = ' ') = '"' :: text.reverse := by
      rw [reverse_append, reverse_cons, append_assoc, dropWhile_append_of_pos
        fun c mem => decide_eq_true (blanks' c (List.mem_reverse.1 mem))]
      rfl
    unfold matchQuotedConfig
    simp only [front, back]
    exact congrArg some (reverse_reverse text)

theorem value_without (value : List Char) :
    WithoutQuotes value ((matchQuotedConfig value).getD value) := by
  cases found : matchQuotedConfig value with
  | some text => exact .inl (matchQuotedConfig_iff.1 found)
  | none =>
    refine .inr ⟨rfl, fun text enclosed => ?_⟩
    rw [matchQuotedConfig_iff.2 enclosed] at found
    cases found

def EntryOf (p : String × String) (kv : ConfKv) : Prop :=
  ∃ short val, kv = ⟨String.ofList short, String.ofList val⟩ ∧
    (WithoutSubscript p.1.toList short ↔ SubscriptLast p.1.toList) ∧ WithoutQuotes p.2.toList val

section List

variable {pairs : List (String × String)} {ctx ctx' : IniParserCtx} {kvs : List ConfKv}

theorem iniHandler_entry {key value : String} (accepted : iniHandler ctx key value = some ctx') :
    ∃ kv, ctx'.list = ctx.list ++ [kv] ∧ EntryOf (key, value) kv := by
  obtain ⟨⟨short, count⟩, legacy, rfl⟩ := Option.map_eq_some_iff.1 accepted
  exact ⟨_, rfl, short, _, rfl, legacyKey_without legacy, value_without value.toList⟩

theorem handled_entries (accepted : handled pairs ctx = some ctx') :
    ∃ kvs, ctx'.list = ctx.list ++ kvs ∧ List.Forall₂ EntryOf pairs kvs := by
  induction pairs generalizing ctx with
  | nil =>
    cases accepted
    exact ⟨[], (append_nil _).symm, .nil⟩
  | cons p pairs ih =>
    unfold handled at accepted
    rw [foldlM_cons] at accepted
    obtain ⟨ctx₁, first, later⟩ := Option.bind_eq_some_iff.1 accepted
    obtain ⟨kv, added, entry⟩ := iniHandler_entry first
    obtain ⟨kvs, rest, entries⟩ := ih later
    refine ⟨kv :: kvs, ?_, .cons entry entries⟩
    rw [rest, added, append_assoc, singleton_append]

theorem described_iff (entries : List.Forall₂ EntryOf pairs kvs) :
    Described pairs (kvs.map ConfCell.ofKv) ↔ ∀ p ∈ pairs, SubscriptLast p.1.toList := by
  unfold Described
  induction entries with
  | nil => simp
  | cons entry _ ih =>
    obtain ⟨short, val, rfl, key, value⟩ := entry
    rw [map_cons, List.forall₂_cons, ih, forall_mem_cons, ← key]
    refine and_congr_left fun _ => ?_
    constructor
    · rintro ⟨key', val', same, without, -⟩
      simp only [ConfCell.ofKv, ConfCell.mk.injEq, Option.some.injEq, String.ofList_inj] at same
      exact same.1 ▸ without
    · exact fun without => ⟨short, val, rfl, without, value⟩

theorem cells_described_iff (accepted : handled pairs {} = some ctx) :
    Described pairs (ConfList.ofEntries ctx.list).cells ↔
      pairs ≠ [] ∧ ∀ p ∈ pairs, SubscriptLast p.1.toList := by
  obtain ⟨kvs, list, entries⟩ := handled_entries accepted
  rw [nil_append] at list
  rw [list, ConfList.ofEntries]
  split_ifs with none
  · subst none
    cases entries
    refine iff_of_false ?_ fun some => some.1 rfl
    intro described
    cases described
  · have some : pairs ≠ [] := by
      rintro rfl
      cases entries
      exact none rfl
    rw [ConfList.cells, described_iff entries, and_iff_right some]

end List

structure Readable {Key Digest : Type} (lib : Crypto Key Digest) (env : ParseEnv Key)
    (filename : String) (content : Bytes) : Prop where
  read : env.read filename = some content
  signed : env.sigRequired = true → ∃ sig,
    binReadAll (rsassaPssSignatureSize + 1) (env.read (filename ++ signatureFileSuffix)) =
      some sig ∧
      verifySignature lib env.ctx (fileText content) (fill env.staleSig sig) ≠ -1

section File

variable {Key Digest : Type} {lib : Crypto Key Digest} {env : ParseEnv Key} {inih : Inih}
  {filename : String} {content : Bytes} {pairs : List (String × String)} {ctx : IniParserCtx}

theorem parseConf_readable (readable : Readable lib env filename content) (some : content ≠ []) :
    parseConf lib env filename = iniList env (fileText content) := by
  unfold parseConf
  rw [readable.read]
  dsimp only
  rw [if_neg some]
  by_cases signed : env.sigRequired = true
  · obtain ⟨sig, found, valid⟩ := readable.signed signed
    rw [if_pos signed, found]
    exact if_neg valid
  · rw [if_neg signed]

/-- The list says what the file says exactly if the file has a key, and the first bracket of each
key starts a subscript at its end. -/
theorem parsed_list_iff (lib : Crypto Key Digest) (env : ParseEnv Key) (inih : Inih)
    (filename : String) (content : Bytes) (pairs : List (String × String)) (ctx : IniParserCtx)
    (library : env.ini = inih.parseString) (readable : Readable lib env filename content)
    (reported : inih.pairs (fileText content) = some pairs)
    (accepted : handled pairs {} = some ctx) :
    (∃ c, parseConf lib env filename = some c ∧ chainOf pairs = some c.cells ∧
        Described pairs c.cells) ↔
      pairs ≠ [] ∧ ∀ p ∈ pairs, SubscriptLast p.1.toList := by
  have list : iniList env (fileText content) = some (ConfList.ofEntries ctx.list) := by
    rw [iniList, library, Inih.parseString, reported, Option.bind_some, accepted]
    rfl
  have chain : chainOf pairs = some (ConfList.ofEntries ctx.list).cells := by
    rw [chainOf_eq, accepted]
    rfl
  rw [← cells_described_iff accepted]
  constructor
  · rintro ⟨c, -, cells, described⟩
    rw [chain, Option.some_inj] at cells
    rwa [cells]
  · intro described
    have some : content ≠ [] := by
      rintro rfl
      rw [fileText, takeWhile_nil, inih.empty, Option.some_inj] at reported
      exact ((cells_described_iff accepted).1 described).1 reported.symm
    exact ⟨_, (parseConf_readable readable some).trans list, chain, described⟩

def inihOf (pairs : List (String × String)) : Inih where
  pairs := fun text => if text = [] then some [] else some pairs
  empty := rfl

def unsignedFile (content : Bytes) (pairs : List (String × String)) : ParseEnv (BitVec 8) where
  read := fun _ => some content
  sigRequired := false
  ctx := ⟨1#8, []⟩
  ini := (inihOf pairs).parseString

theorem unsigned_readable (content : Bytes) (pairs : List (String × String)) :
    Readable sampleCrypto (unsignedFile content pairs) "/a.crinit" content :=
  ⟨rfl, fun signed => by cases signed⟩

def arrayPairs : List (String × String) := [("NAME", "a"), ("ENV_SET[0]", "\"X\"")]

theorem array_parsed : ∃ c,
    parseConf sampleCrypto (unsignedFile [78#8] arrayPairs) "/a.crinit" = some c ∧
      chainOf arrayPairs = some c.cells ∧ Described arrayPairs c.cells := by
  refine (parsed_list_iff sampleCrypto (unsignedFile [78#8] arrayPairs) (inihOf arrayPairs)
    "/a.crinit" [78#8] arrayPairs ⟨[⟨"NAME", "a"⟩, ⟨"ENV_SET", "X"⟩], 1⟩ rfl
    (unsigned_readable [78#8] arrayPairs) (by decide) (by decide)).2 ⟨by decide, ?_⟩
  intro p mem
  simp only [arrayPairs, mem_cons, not_mem_nil, or_false] at mem
  rcases mem with rfl | rfl
  · exact .inl (by decide)
  · exact .inr (.inl ⟨['0'], by decide, by decide, by decide⟩)

/-- A file that holds a comment only. -/
theorem comment_one_element :
    parseConf sampleCrypto (unsignedFile [35#8] []) "/a.crinit" = some .unset ∧
      chainOf [] = some [.fresh] ∧
      ¬ ∃ c, parseConf sampleCrypto (unsignedFile [35#8] []) "/a.crinit" = some c ∧
        chainOf [] = some c.cells ∧ Described [] c.cells := by
  refine ⟨by decide, rfl, ?_⟩
  rintro ⟨c, -, cells, described⟩
  have fresh : [ConfCell.fresh] = c.cells := Option.some.inj cells
  rw [← fresh] at described
  cases described

end File

end Crinit
