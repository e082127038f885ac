import Crinit.Argv
import Crinit.ConfInteger

/-! Whom a task runs as: the keys USER and GROUP. -/
namespace Crinit

open List Numeral

abbrev Id := BitVec 32

structure IdDb where
  id : String → Option Id
  name : Id → Option String

structure Credentials where
  user : Id := 0#32
  username : Option String := none
  group : Id := 0#32
  groupname : Option String := none
  supGroups : List Id := []
  deriving DecidableEq, Repr

def isAlpha (c : Char) : Bool := (65 ≤ c.toNat && c.toNat ≤ 90) || (97 ≤ c.toNat && c.toNat ≤ 122)

def startsAlpha (s : String) : Bool :=
  match s.toList with
  | [] => false
  | c :: _ => isAlpha c

/-- A number as both handlers read it: as a `long long` to see its sign, then as an `unsigned
int`. -/
def idNumber (val : String) : Option Id :=
  let temp := confConvToInteger .llong 0 val 10
  if temp.1 = -1 then none
  else if temp.2 < 0 then none
  else
    let id := confConvToInteger .uint 0 val 10
    if id.1 = -1 then none else some (BitVec.ofInt 32 id.2)

def userByNumber (db : IdDb) (t : Credentials) (val : String) : Option Credentials :=
  match idNumber val with
  | none => none
  | some uid =>
    match db.name uid with
    | none => none
    | some name => some { t with user := uid, username := some name }

def cfgUserHandler (db : IdDb) (t : Credentials) (val : String) : Option Credentials :=
  if startsAlpha val then
    match db.id val with
    | some uid => some { t with user := uid, username := some val }
    | none => userByNumber db t val
  else userByNumber db t val

/-- One entry of a GROUP value: `none` ends the handler, `some none` is passed over. -/
def groupToken (db : IdDb) (tok : String) : Option (Option (Id × String)) :=
  if startsAlpha tok then some ((db.id tok).map fun gid => (gid, tok))
  else
    match idNumber tok with
    | none => none
    | some gid => (db.name gid).map fun name => some (gid, name)

def groupLoop (db : IdDb) : Nat → List String → Credentials → Option Credentials
  | _, [], t => some t
  | i, tok :: toks, t =>
    match groupToken db tok with
    | none => none
    | some none => groupLoop db (i + 1) toks t
    | some (some (gid, name)) =>
      groupLoop db (i + 1) toks
        (if i = 0 then { t with group := gid, groupname := some name }
          else { t with supGroups := t.supGroups.set (i - 1) gid })

def cfgGroupHandler (db : IdDb) (t : Credentials) (val : String) : Option Credentials :=
  match confConvToStrArr val true with
  | none => none
  | some toks =>
    let t := if 1 < toks.length then { t with supGroups := List.replicate (toks.length - 1) 0#32 }
    else t
    match groupLoop db 0 toks t with
    | none => none
    | some t => if t.groupname = none then none else some t

theorem ofInt_assign (v : Int) : BitVec.ofInt 32 (IntType.uint.assign v) = BitVec.ofInt 32 v := by
  apply BitVec.eq_of_toInt_eq
  rw [BitVec.toInt_ofInt, BitVec.toInt_ofInt]
  exact Int.emod_bmod v (2 ^ 32)

variable {val : String}

/-- Any number that is not negative and fits a `long long` is taken, and its last 32 bits are
used. -/
theorem idNumber_spells {neg : Bool} {mag : Nat} (spells : Spells 10 val.toList neg mag) :
    idNumber val = if 0 ≤ signed neg mag ∧ signed neg mag < 0x8000000000000000 then
      some (BitVec.ofInt 32 (signed neg mag)) else none := by
  obtain ⟨ok, value⟩ := conv_spells .llong 0 (by decide) spells
  obtain ⟨-, value'⟩ := conv_spells .uint 0 (by decide) spells
  unfold idNumber
  dsimp only
  by_cases takes : IntType.llong.Takes neg mag
  · have exact : IntType.llong.assign (signed neg mag) = signed neg mag := assign_exact.2 takes
    rw [value takes, exact, if_neg (show ¬(0 : Int) = -1 by decide)]
    by_cases plus : 0 ≤ signed neg mag
    · have wide : IntType.uint.Takes neg mag := by
        have low := takes.2
        change mag < 0x10000000000000000
        unfold signed at plus low
        split_ifs at plus low <;> omega
      rw [if_neg (show ¬signed neg mag < 0 by omega), value' wide,
        if_neg (show ¬(0 : Int) = -1 by decide),
        ofInt_assign]
      exact (if_pos ⟨plus, takes.2⟩).symm
    · rw [if_pos (show signed neg mag < 0 by omega), if_neg fun range => plus range.1]
  · have bad : (confConvToInteger .llong 0 val 10).1 = -1 :=
      (conv_ret .llong 0 val 10).resolve_left fun none => takes (ok.1 none)
    rw [if_pos bad, if_neg fun range => takes ⟨by omega, range.2⟩]

theorem spells_of_idNumber {id : Id} (found : idNumber val = some id) :
    ∃ neg mag, Spells 10 val.toList neg mag := by
  unfold idNumber at found
  dsimp only at found
  split_ifs at found with bad
  exact spells_of_conv ((conv_ret .llong 0 val 10).resolve_right bad)

theorem spells_not_alpha {neg : Bool} {mag : Nat} (spells : Spells 10 val.toList neg mag) :
    startsAlpha val = false := by
  obtain ⟨blanks, mark, radix, ds, text, spaces, marked, hex, some, digits, -⟩ := spells
  have head {c : Char} {cs : List Char} (starts : val.toList = c :: cs)
    (plain : isAlpha c = false) : startsAlpha val = false := by
    unfold startsAlpha
    rw [starts]
    exact plain
  cases blanks with
  | cons b blanks =>
    refine head text ?_
    have space := spaces b mem_cons_self
    simp only [isSpace, Bool.or_eq_true, decide_eq_true_eq] at space
    rcases space with ((((rfl | rfl) | rfl) | rfl) | rfl) | rfl <;> rfl
  | nil =>
    cases marked with
    | minus => exact head text rfl
    | plus => exact head text rfl
    | bare =>
      cases hex with
      | hex x sixteen _ => exact absurd sixteen (by decide)
      | bare =>
        obtain ⟨d, ds, rfl⟩ := exists_cons_of_ne_nil some
        refine head text ?_
        have digit : digitVal d < 10 := of_decide_eq_true (digits d mem_cons_self)
        unfold digitVal at digit
        unfold isAlpha
        split_ifs at digit with number lower upper
        · simp only [Bool.or_eq_false_iff, Bool.and_eq_false_iff, decide_eq_false_iff_not]
          omega
        · omega
        · omega
        · exact absurd digit (by decide)

/-! ### The result of the GROUP handler -/

def supGroupOf (r : Option (Id × String)) : Id := (r.map Prod.fst).getD 0#32

section Group

variable {db : IdDb}

variable {t : Credentials}

theorem groupLoop_sup (toks : List String) (done : List Id)
    (array : t.supGroups = done ++ List.replicate toks.length 0#32) :
    groupLoop db (done.length + 1) toks t = (toks.mapM (groupToken db)).map fun rs =>
      { t with supGroups := done ++ rs.map supGroupOf } := by
  induction toks generalizing done t with
  | nil =>
    rw [length_nil, replicate_zero] at array
    rw [mapM_nil]
    change some t = some { t with supGroups := done ++ [] }
    rw [← array]
  | cons tok toks ih =>
    rw [length_cons, replicate_succ] at array
    have next (gid : Id) {t : Credentials}
      (array : t.supGroups = done ++ gid :: List.replicate toks.length 0#32) :
        groupLoop db (done.length + 1 + 1) toks t = (toks.mapM (groupToken db)).map fun rs =>
          { t with supGroups := done ++ gid :: rs.map supGroupOf } := by
      have rest := ih (done ++ [gid]) (t := t) (by rw [array, append_assoc]; rfl)
      rw [length_append, length_singleton] at rest
      rw [rest]
      simp only [append_assoc, singleton_append]
    unfold groupLoop
    rw [mapM_cons]
    cases groupToken db tok with
    | none => rfl
    | some r =>
      cases r with
      | none =>
        dsimp only
        rw [next 0#32 array]
        cases toks.mapM (groupToken db) <;> rfl
      | some r =>
        obtain ⟨gid, name⟩ := r
        dsimp only
        have placed : t.supGroups.set (done.length + 1 - 1) gid = done ++ gid ::
          List.replicate toks.length 0#32 := by
          rw [array]
          simp
        rw [if_neg (Nat.succ_ne_zero _), next gid placed]
        cases toks.mapM (groupToken db) <;> rfl

/-- The task after its GROUP key: an entry passed over leaves the main group as it was, and
as a supplementary group it is 0. -/
def granted (t : Credentials) (r : Option (Id × String)) (rs : List (Option (Id × String))) :
    Credentials :=
  { t with
    group := (r.map Prod.fst).getD t.group
    groupname := (r.map Prod.snd).or t.groupname
    supGroups := if rs = [] then t.supGroups else rs.map supGroupOf }

theorem groupLoop_rest (gs : List String) (t : Credentials)
    (array : gs = [] ∨ t.supGroups = List.replicate gs.length 0#32) :
    groupLoop db 1 gs t = (gs.mapM (groupToken db)).map fun rs =>
      { t with supGroups := if rs = [] then t.supGroups else rs.map supGroupOf } := by
  cases gs with
  | nil => rfl
  | cons g gs =>
    rw [show groupLoop db 1 (g :: gs) t =
      _ from groupLoop_sup (g :: gs) [] (array.resolve_left (cons_ne_nil _ _))]
    apply Option.map_congr
    intro rs found
    have some : rs ≠ [] := by
      rintro rfl
      cases Collect.mapM_some_iff.1 found
    rw [if_neg some]
    rfl

theorem groupLoop_main (g : String) (gs : List String) (t : Credentials) :
    groupLoop db 0 (g :: gs) t = (groupToken db g).bind fun r => groupLoop db 1 gs
      { t with
        group := (r.map Prod.fst).getD t.group, groupname := (r.map Prod.snd).or t.groupname } := by
  rw [groupLoop]
  cases groupToken db g with
  | none => rfl
  | some r => cases r <;> rfl

theorem groupLoop_eq (g : String) (gs : List String) (t : Credentials) :
    groupLoop db 0 (g :: gs)
        (if 1 < (g :: gs).length then
          { t with supGroups := List.replicate ((g :: gs).length - 1) 0#32 } else t) =
      (groupToken db g).bind fun r => (gs.mapM (groupToken db)).map fun rs => granted t r rs := by
  rw [groupLoop_main]
  congr 1
  funext r
  cases gs with
  | nil => rfl
  | cons g' gs =>
    rw [groupLoop_rest (g' :: gs) _ (.inr rfl)]
    apply Option.map_congr
    intro rs found
    have some : rs ≠ [] := by
      rintro rfl
      cases Collect.mapM_some_iff.1 found
    unfold granted
    rw [if_neg some, if_neg some]
    rfl

variable {g : String} {gs : List String}

theorem cfgGroupHandler_iff {t' : Credentials}
    (split : confConvToStrArr val true = some (g :: gs)) : cfgGroupHandler db t val = some t' ↔
      ∃ r rs, groupToken db g = some r ∧ gs.mapM (groupToken db) = some rs ∧
        (r = none → t.groupname ≠ none) ∧ t' = granted t r rs := by
  unfold cfgGroupHandler
  rw [split]
  dsimp only
  rw [groupLoop_eq]
  cases groupToken db g with
  | none => simp
  | some r =>
    cases gs.mapM (groupToken db) with
    | none => simp
    | some rs =>
      have named : (granted t r rs).groupname = none ↔ ¬(r = none → t.groupname ≠ none) := by
        cases r <;> simp [granted]
      simp only [Option.bind_some, Option.map_some, named, Option.some.injEq, exists_and_left,
        exists_eq_left']
      split_ifs with known
      · constructor
        · exact fun same => ⟨known, (Option.some.inj same).symm⟩
        · exact fun same => congrArg some same.2.symm
      · constructor
        · exact fun nothing => nomatch nothing
        · exact fun same => absurd same.1 known

/-! ### No group that was not asked for -/

def Resolves (db : IdDb) (tok : String) (gid : Id) : Prop :=
  db.id tok = some gid ∨ ∃ neg mag, Spells 10 tok.toList neg mag ∧ 0 ≤ signed neg mag ∧
    signed neg mag < 0x100000000 ∧ gid = BitVec.ofInt 32 (signed neg mag) ∧
      (db.name gid).isSome = true

def GrantsResolved (db : IdDb) (t : Credentials) (val g : String) (gs : List String) : Prop :=
  ∀ t', cfgGroupHandler db t val = some t' →
    Resolves db g t'.group ∧ List.Forall₂ (Resolves db) gs t'.supGroups

/-- What starts with a letter is a known name, and a number that needs more than 32 bits is
the name of the group that its last 32 bits number. -/
def Plain (db : IdDb) (tok : String) : Prop :=
  (startsAlpha tok = true → (db.id tok).isSome = true) ∧
    ∀ neg mag, Spells 10 tok.toList neg mag → 0x100000000 ≤ signed neg mag →
      db.id tok = some (BitVec.ofInt 32 (signed neg mag))

variable {tok : String} {r : Option (Id × String)}

theorem groupToken_number (number : startsAlpha tok = false) (taken : groupToken db tok = some r) :
    ∃ gid name neg mag, r = some (gid, name) ∧ db.name gid = some name ∧
      Spells 10 tok.toList neg mag ∧ 0 ≤ signed neg mag ∧
        gid = BitVec.ofInt 32 (signed neg mag) := by
  unfold groupToken at taken
  rw [if_neg (by rw [number]; decide)] at taken
  cases found : idNumber tok with
  | none => rw [found] at taken; cases taken
  | some gid =>
    rw [found] at taken
    obtain ⟨name, known, rfl⟩ := Option.map_eq_some_iff.1 taken
    obtain ⟨neg, mag, spells⟩ := spells_of_idNumber found
    rw [idNumber_spells spells] at found
    split_ifs at found with range
    exact ⟨gid, name, neg, mag, rfl, known, spells, range.1, (Option.some.inj found).symm⟩

theorem groupToken_name (alpha : startsAlpha tok = true) (taken : groupToken db tok = some r) :
    r = (db.id tok).map fun gid => (gid, tok) := by
  unfold groupToken at taken
  rw [if_pos alpha] at taken
  exact (Option.some.inj taken).symm

/-- An entry that is taken is resolved if it is plain, whatever stands in its place otherwise. -/
theorem resolves_iff (taken : groupToken db tok = some r) (d : Id) :
    Resolves db tok ((r.map Prod.fst).getD d) ↔ Plain db tok := by
  by_cases alpha : startsAlpha tok = true
  · have letter {neg : Bool} {mag : Nat} (spells : Spells 10 tok.toList neg mag) : False := by
      rw [spells_not_alpha spells] at alpha
      cases alpha
    rw [groupToken_name alpha taken]
    cases known : db.id tok with
    | none =>
      refine iff_of_false ?_ fun plain => ?_
      · rintro (named | ⟨neg, mag, spells, -⟩)
        · rw [known] at named
          cases named
        · exact letter spells
      · have named := plain.1 alpha
        rw [known] at named
        cases named
    | some gid =>
      exact iff_of_true (.inl known) ⟨fun _ => by rw [known]; rfl,
        fun _ _ spells => (letter spells).elim⟩
  · have number := Bool.eq_false_iff.2 alpha
    obtain ⟨gid, name, neg, mag, rfl, known, spells, plus, rfl⟩ := groupToken_number number taken
    constructor
    · rintro (named | ⟨neg', mag', spells', -, low, -⟩)
      · refine ⟨fun letter => absurd letter alpha, fun neg' mag' spells' _ => ?_⟩
        obtain ⟨rfl, rfl⟩ := spells_unique (by decide) spells spells'
        exact named
      · refine ⟨fun letter => absurd letter alpha, fun neg'' mag'' spells'' high => ?_⟩
        obtain ⟨rfl, rfl⟩ := spells_unique (by decide) spells' spells''
        omega
    · intro plain
      by_cases low : signed neg mag < 0x100000000
      · exact .inr ⟨neg, mag, spells, plus, low, rfl, Option.isSome_iff_exists.2 ⟨name, known⟩⟩
      · exact .inl (plain.2 neg mag spells (Int.not_lt.1 low))

def GroupRefused (db : IdDb) (t : Credentials) (g : String) (gs : List String) : Prop :=
  (∃ tok ∈ g :: gs, groupToken db tok = none) ∨ startsAlpha g = true ∧ db.id g = none ∧
    t.groupname = none

theorem passed_over_iff :
    groupToken db tok = some none ↔ startsAlpha tok = true ∧ db.id tok = none := by
  by_cases alpha : startsAlpha tok = true
  · simp [groupToken, alpha]
  · have number := Bool.eq_false_iff.2 alpha
    refine iff_of_false (fun taken => ?_) fun letter => alpha letter.1
    obtain ⟨_, _, _, _, some, _⟩ := groupToken_number number taken
    cases some

section Split

variable (split : confConvToStrArr val true = some (g :: gs))
include split

theorem taken_of_not_refused (fine : ¬GroupRefused db t g gs) :
    ∃ r rs, groupToken db g = some r ∧ gs.mapM (groupToken db) = some rs ∧
      cfgGroupHandler db t val = some (granted t r rs) := by
  unfold GroupRefused at fine
  rw [not_or] at fine
  obtain ⟨r, first⟩ := Option.ne_none_iff_exists'.1 fun bad => fine.1 ⟨g, mem_cons_self, bad⟩
  obtain ⟨rs, rest⟩ := Option.ne_none_iff_exists'.1 fun bad : gs.mapM (groupToken db) = none => by
    obtain ⟨tok, mem, refused⟩ := Collect.mapM_none_iff.1 bad
    exact fine.1 ⟨tok, mem_cons_of_mem _ mem, refused⟩
  refine ⟨r, rs, first, rest, (cfgGroupHandler_iff split).2 ⟨r, rs, first, rest, ?_, rfl⟩⟩
  rintro rfl unnamed
  obtain ⟨alpha, unknown⟩ := passed_over_iff.1 first
  exact fine.2 ⟨alpha, unknown, unnamed⟩

theorem refused_fails {t' : Credentials} (refused : GroupRefused db t g gs) :
    cfgGroupHandler db t val ≠ some t' := by
  rw [Ne, cfgGroupHandler_iff split]
  rintro ⟨r, rs, first, rest, named, -⟩
  rcases refused with ⟨tok, mem, bad⟩ | ⟨alpha, unknown, unnamed⟩
  · rcases List.mem_cons.1 mem with rfl | mem
    · rw [first] at bad
      cases bad
    · rw [Collect.mapM_none_iff.2 ⟨tok, mem, bad⟩] at rest
      cases rest
  · rw [passed_over_iff.2 ⟨alpha, unknown⟩] at first
    cases first
    exact named rfl unnamed

/-- A condition on the credentials is one on the tokens, or a token is refused. -/
theorem taken_iff {P : Credentials → Prop} {Q : Prop}
    (each : ∀ r rs, groupToken db g = some r → gs.mapM (groupToken db) = some rs →
      (P (granted t r rs) ↔ Q)) :
    (∀ t', cfgGroupHandler db t val = some t' → P t') ↔ GroupRefused db t g gs ∨ Q := by
  by_cases refused : GroupRefused db t g gs
  · exact iff_of_true (fun t' granted => absurd granted (refused_fails split refused))
      (.inl refused)
  · obtain ⟨r, rs, first, rest, success⟩ := taken_of_not_refused split refused
    simp only [success, Option.some.injEq, forall_eq', or_iff_right refused, each r rs first rest]

end Split

theorem sup_resolves_iff {rs : List (Option (Id × String))}
    (taken : gs.mapM (groupToken db) = some rs) :
    List.Forall₂ (Resolves db) gs (rs.map supGroupOf) ↔ ∀ tok ∈ gs, Plain db tok := by
  have pairs := Collect.mapM_some_iff.1 taken
  rw [List.forall₂_map_right_iff]
  clear taken
  induction pairs with
  | nil => simp
  | @cons tok r gs rs first _ ih =>
    rw [List.forall₂_cons, forall_mem_cons]
    exact and_congr (resolves_iff first 0#32) ih

theorem group_grants_iff (db : IdDb) (t : Credentials) (val g : String) (gs : List String)
    (split : confConvToStrArr val true = some (g :: gs)) : GrantsResolved db t val g gs ↔
      GroupRefused db t g gs ∨ (∀ tok ∈ g :: gs, Plain db tok) ∧ (gs ≠ [] ∨ t.supGroups = []) := by
  refine taken_iff split fun r rs first rest => ?_
  rw [forall_mem_cons, and_assoc]
  refine and_congr (resolves_iff first t.group) ?_
  have pairs := Collect.mapM_some_iff.1 rest
  cases gs with
  | nil =>
    cases pairs
    simp [granted]
  | cons g' gs =>
    have some : rs ≠ [] := by
      rintro rfl
      cases pairs
    unfold granted
    rw [if_neg some, sup_resolves_iff rest]
    simp

end Group

def IdDb.ofList (entries : List (String × Id)) : IdDb where
  id := fun name => (entries.find? fun entry => entry.1 = name).map Prod.snd
  name := fun id => (entries.find? fun entry => entry.2 = id).map Prod.fst

def groupFile : IdDb := .ofList [("root", 0#32), ("audio", 29#32), ("users", 100#32)]

theorem group_grants_users : confConvToStrArr "users audio" true = some ["users", "audio"] ∧
    GrantsResolved groupFile {} "users audio" "users" ["audio"] := by
  have name {tok : String} (alpha : startsAlpha tok = true)
    (known : (groupFile.id tok).isSome = true) : Plain groupFile tok := by
    refine ⟨fun _ => known, fun neg mag spells => ?_⟩
    rw [spells_not_alpha spells] at alpha
    cases alpha
  have plain : ∀ tok ∈ ["users", "audio"], Plain groupFile tok := by
    simp only [forall_mem_cons]
    exact ⟨name rfl rfl, name rfl rfl, fun _ mem => (not_mem_nil mem).elim⟩
  exact ⟨by decide, (group_grants_iff groupFile {} "users audio" "users" ["audio"] (by decide)).2
    (.inr ⟨plain, .inl (by decide)⟩)⟩

/-- A misspelt supplementary group is the group of root. -/
theorem unknown_group_is_root : cfgGroupHandler groupFile {} "users wheel" =
    some { group := 100#32, groupname := some "users", supGroups := [0#32] } ∧
    ¬∃ gid, Resolves groupFile "wheel" gid := by
  refine ⟨by decide, ?_⟩
  rintro ⟨gid, named | ⟨neg, mag, spells, -⟩⟩
  · exact absurd named (by simp [groupFile, IdDb.ofList])
  · exact absurd (spells_not_alpha spells) (by decide)

/-! ### Numbers taken as they are -/

def TakenExactly (ty : IntType) (x : Int) (s : String) (base : Nat) : Prop :=
  (confConvToInteger ty x s base).1 = 0 → ∃ neg mag, Spells base s.toList neg mag ∧
    ty.Represents (signed neg mag) ∧ (confConvToInteger ty x s base).2 = signed neg mag

theorem takenExactly_iff {ty : IntType} {x : Int} {s : String} {base : Nat} (small : base ≤ 16) :
    TakenExactly ty x s base ↔
      ∀ neg mag, Spells base s.toList neg mag → ty.Takes neg mag →
        ty.Represents (signed neg mag) := by
  constructor
  · intro exactly neg mag spells takes
    obtain ⟨ok, value⟩ := conv_spells ty x small spells
    obtain ⟨neg', mag', spells', represents, -⟩ := exactly (ok.2 takes)
    obtain ⟨rfl, rfl⟩ := spells_unique small spells spells'
    exact represents
  · intro range ok
    obtain ⟨neg, mag, spells, takes⟩ := (conv_iff small).1 ok
    have represents := range neg mag spells takes
    refine ⟨neg, mag, spells, represents, ?_⟩
    rw [(conv_spells ty x small spells).2 takes]
    exact assign_exact.2 represents

def UserExact (db : IdDb) (t : Credentials) (val : String) : Prop :=
  ∀ t' neg mag, cfgUserHandler db t val = some t' → Spells 10 val.toList neg mag →
    signed neg mag = t'.user.toNat

def GroupExact (db : IdDb) (t : Credentials) (val g : String) (gs : List String) : Prop :=
  ∀ t', cfgGroupHandler db t val = some t' →
    ∀ p ∈ (g :: gs).zip (t'.group :: t'.supGroups), ∀ neg mag,
    Spells 10 p.1.toList neg mag → signed neg mag = p.2.toNat

def GraceExact (val : String) : Prop :=
  ∀ x neg mag, cfgShdGpHandler val = some x → Spells 10 val.toList neg mag → x = signed neg mag

theorem ofInt_exact {v : Int} (plus : 0 ≤ v) : v = (BitVec.ofInt 32 v).toNat ↔ v < 0x100000000 := by
  rw [BitVec.toNat_ofInt]
  omega

theorem userExact_iff (db : IdDb) (t : Credentials) (val : String) : UserExact db t val ↔
    ∀ neg mag, Spells 10 val.toList neg mag → 0x100000000 ≤ signed neg mag →
      signed neg mag < 0x8000000000000000 → db.name (BitVec.ofInt 32 (signed neg mag)) = none := by
  have number {neg : Bool} {mag : Nat} (spells : Spells 10 val.toList neg mag) :
      cfgUserHandler db t val = userByNumber db t val :=
        if_neg (by rw [spells_not_alpha spells]; decide)
  constructor
  · intro exactly neg mag spells high low
    cases known : db.name (BitVec.ofInt 32 (signed neg mag)) with
    | none => rfl
    | some name =>
      have taken : cfgUserHandler db t val =
          some { t with user := BitVec.ofInt 32 (signed neg mag), username := some name } := by
        rw [number spells, userByNumber, idNumber_spells spells, if_pos ⟨by omega, low⟩]
        simp only [known]
      have same := exactly _ neg mag taken spells
      rw [ofInt_exact (by omega)] at same
      omega
  · intro unknown t' neg mag taken spells
    rw [number spells, userByNumber, idNumber_spells spells] at taken
    split_ifs at taken with range
    dsimp only at taken
    by_cases low : signed neg mag < 0x100000000
    · cases known : db.name (BitVec.ofInt 32 (signed neg mag)) with
      | none => rw [known] at taken; cases taken
      | some name =>
        rw [known] at taken
        cases taken
        exact (ofInt_exact range.1).2 low
    · rw [unknown neg mag spells (by omega) range.2] at taken
      cases taken

def Small (tok : String) : Prop :=
  ∀ neg mag, Spells 10 tok.toList neg mag → signed neg mag < 0x100000000

theorem token_exact_iff {db : IdDb} {tok : String} {r : Option (Id × String)}
    (taken : groupToken db tok = some r)
    (d : Id) : (∀ neg mag, Spells 10 tok.toList neg mag →
      signed neg mag = ((r.map Prod.fst).getD d).toNat) ↔
      Small tok := by
  refine forall_congr' fun neg => forall_congr' fun mag => forall_congr' fun spells => ?_
  obtain ⟨gid, name, neg', mag', rfl, -, spells', plus, rfl⟩ :=
    groupToken_number (spells_not_alpha spells) taken
  obtain ⟨rfl, rfl⟩ := spells_unique (by decide) spells spells'
  exact ofInt_exact plus

theorem sup_exact_iff {db : IdDb} {gs : List String} {rs : List (Option (Id × String))}
    (taken : gs.mapM (groupToken db) = some rs) : (∀ p ∈ gs.zip (rs.map supGroupOf), ∀ neg mag,
      Spells 10 p.1.toList neg mag → signed neg mag = p.2.toNat) ↔ ∀ tok ∈ gs, Small tok := by
  have pairs := Collect.mapM_some_iff.1 taken
  clear taken
  induction pairs with
  | nil => simp
  | @cons tok r gs rs first _ ih =>
    rw [map_cons, zip_cons_cons, forall_mem_cons, forall_mem_cons]
    exact and_congr (token_exact_iff first 0#32) ih

theorem groupExact_iff (db : IdDb) (t : Credentials) (val g : String) (gs : List String)
    (split : confConvToStrArr val true = some (g :: gs)) :
    GroupExact db t val g gs ↔ GroupRefused db t g gs ∨ ∀ tok ∈ g :: gs, Small tok := by
  refine taken_iff split fun r rs first rest => ?_
  have sup : gs.zip (granted t r rs).supGroups = gs.zip (rs.map supGroupOf) := by
    have pairs := Collect.mapM_some_iff.1 rest
    cases pairs with
    | nil => rfl
    | cons => rfl
  rw [zip_cons_cons, forall_mem_cons, forall_mem_cons, sup, sup_exact_iff rest]
  exact and_congr_left fun _ => token_exact_iff first t.group

theorem graceExact_iff (val : String) : GraceExact val ↔
    ∀ neg mag, Spells 10 val.toList neg mag → mag < 0x10000000000000000 → 0 ≤ signed neg mag := by
  refine ⟨fun exactly neg mag spells takes => ?_, fun plus x neg mag taken spells => ?_⟩
  · have value := (conv_spells .ullong 0 (by decide) spells).2 takes
    have taken : cfgShdGpHandler val = some (IntType.ullong.assign (signed neg mag)) := by
      unfold cfgShdGpHandler
      rw [value]
      rfl
    exact (assign_exact.1 (exactly _ neg mag taken spells)).1
  · unfold cfgShdGpHandler at taken
    dsimp only at taken
    split_ifs at taken with bad
    obtain ⟨ok, value⟩ := conv_spells .ullong 0 (by decide) spells
    have takes := ok.1 ((conv_ret .ullong 0 val 10).resolve_right bad)
    rw [value takes] at taken
    cases taken
    have low : mag < 0x10000000000000000 := takes
    have wide : signed neg mag < 0x10000000000000000 := by
      unfold signed
      split_ifs <;> omega
    have represents : IntType.ullong.Represents (signed neg mag) :=
      ⟨plus neg mag spells takes, wide⟩
    exact assign_exact.2 represents

theorem numbers_exact_iff (ty : IntType) (x : Int) (s : String) (base : Nat)
    (bases : base = 8 ∨ base = 10 ∨ base = 16)
    (users groups : IdDb) (t : Credentials) (user group g grace : String) (gs : List String) :
    (TakenExactly ty x s base ↔
      ∀ neg mag, Spells base s.toList neg mag → ty.Takes neg mag → ty.Represents (signed neg mag)) ∧
    (UserExact users t user ↔ ∀ neg mag, Spells 10 user.toList neg mag →
      0x100000000 ≤ signed neg mag →
      signed neg mag < 0x8000000000000000 → users.name (BitVec.ofInt 32 (signed neg mag)) = none) ∧
    (confConvToStrArr group true = some (g :: gs) →
      (GroupExact groups t group g gs ↔ GroupRefused groups t g gs ∨ ∀ tok ∈ g :: gs, Small tok)) ∧
    (GraceExact grace ↔
      ∀ neg mag, Spells 10 grace.toList neg mag → mag < 0x10000000000000000 →
        0 ≤ signed neg mag) := by
  have small : base ≤ 16 := by
    rcases bases with rfl | rfl | rfl <;> decide
  exact ⟨takenExactly_iff small, userExact_iff users t user, groupExact_iff groups t group g gs,
    graceExact_iff grace⟩

theorem long_long_exact : TakenExactly .llong 7 "-4294967296" 10 ∧
    confConvToInteger .llong 7 "-4294967296" 10 = (0, -4294967296) := by
  have exactly := (numbers_exact_iff .llong 7 "-4294967296" 10 (.inr (.inl rfl)) groupFile groupFile
    {} "0" "users" "users" "0"
    []).1
  exact ⟨exactly.2 fun _ _ _ takes => takes, by decide⟩

def userFile : IdDb := .ofList [("root", 0#32), ("daemon", 1#32)]

/-- 4294967296 is root, and the other types wrap around in the same way. -/
theorem wide_id_is_root :
    cfgUserHandler userFile {} "4294967296" = some { user := 0#32, username := some "root" } ∧
    confConvToInteger .uint 7 "4294967296" 10 = (0, 0) ∧
      confConvToInteger .int 7 "ffffffff" 16 = (0, -1) ∧
    cfgShdGpHandler "-1" = some 18446744073709551615 := by
  decide

end Crinit
