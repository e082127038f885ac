import Crinit.AddTask
import Crinit.Lib.CText
import Crinit.Lib.Collect
import Mathlib.Data.List.Induction

/-! Configuration files with signatures: the keys that are loaded, and the files that are parsed.
Cryptography and the INI parser are libraries. -/
namespace Crinit

abbrev Bytes := List (BitVec 8)

inductive Pk (Key : Type)
  | none
  | rsa (k : Key)
  | other

/-- SHA-256, RSASSA-PSS and the key parser of MbedTLS. -/
structure Crypto (Key Digest : Type) where
  hash : Bytes → Option Digest
  verify : Key → Digest → Bytes → Bool
  /-- The return value of `mbedtls_pk_parse_public_key` and the context it leaves. -/
  parse : Bytes → Int × Pk Key
  /-- A parser that fails frees the context. -/
  freed : ∀ bytes, (parse bytes).1 ≠ 0 → (parse bytes).2 = .none
  setPadding : Key → Bool

/-- `crinitBinReadAll`: the file has to be smaller than the buffer. -/
def binReadAll (n : Nat) (file : Option Bytes) : Option Bytes :=
  match file with
  | none => none
  | some content => if content.length < n then some content else none

def fill (buf content : Bytes) : Bytes := content ++ buf.drop content.length

def signatureFileSuffix : String := ".sig"
def rsassaPssSignatureSize : Nat := 512
def signaturePkDataMaxSize : Nat := 4096

structure SigCtx (Key : Type) where
  rootKey : Key
  signedKeys : List Key

section Keys

variable {Key Digest : Type} (lib : Crypto Key Digest)

def verifySignature (ctx : SigCtx Key) (data signature : Bytes) : Int :=
  match lib.hash data with
  | none => -1
  | some dataHash =>
    if lib.verify ctx.rootKey dataHash signature then 0
    else if ctx.signedKeys.any fun key => lib.verify key dataHash signature then 0
    else -1

structure KeyDir where
  path : String
  /-- The names that `crinitFileSeriesFromDir` finds for the two suffixes. -/
  derKeys : Option (List String)
  pemKeys : Option (List String)
  read : String → Option Bytes
  mallocOk : Bool := true
  staleDer : Bytes := []
  stalePem : Bytes := []

def KeyDir.file (d : KeyDir) (name : String) : String := d.path ++ "/" ++ name

def keyBytes (pemFmt : Bool) (content : Bytes) : Bytes :=
  if pemFmt then content ++ [0#8] else content

/-- The signature buffer is not cleared. -/
def loadKey (ctx : SigCtx Key) (d : KeyDir) (pemFmt : Bool) (sigBuf : Bytes) (name : String) :
    Option (Key × Bytes) :=
  if (d.file name).utf8ByteSize ≥ CText.pathMax - signatureFileSuffix.utf8ByteSize then none
  else match binReadAll signaturePkDataMaxSize (d.read (d.file name)) with
    | none => none
    | some content =>
      match binReadAll (rsassaPssSignatureSize + 1)
        (d.read (d.file name ++ signatureFileSuffix)) with
      | none => none
      | some sig =>
        if verifySignature lib ctx content (fill sigBuf sig) = -1 then none
        else
          -- an error of the parser is only printed
          match (lib.parse (keyBytes pemFmt content)).2 with
          | .none => none
          | .other => none
          | .rsa k => if lib.setPadding k then some (k, fill sigBuf sig) else none

def loadKeys (ctx : SigCtx Key) (d : KeyDir) (pemFmt : Bool) :
    List String → Bytes → Option (List Key)
  | [], _ => some []
  | name :: names, sigBuf =>
    match loadKey lib ctx d pemFmt sigBuf name with
    | none => none
    | some (k, sigBuf) => (loadKeys ctx d pemFmt names sigBuf).map (k :: ·)

def loadAndVerifySignedKeys (ctx : SigCtx Key) (d : KeyDir) : Int × SigCtx Key :=
  match d.derKeys, d.pemKeys with
  | some der, some pem =>
    if !d.mallocOk then (-1, ctx)
    else match loadKeys lib ctx d false der d.staleDer with
      | none => (-1, ctx)
      | some derCtx =>
        match loadKeys lib ctx d true pem d.stalePem with
        | none => (-1, ctx)
        | some pemCtx => (0, { ctx with signedKeys := derCtx ++ pemCtx })
  | _, _ => (-1, ctx)

def afterLoads (ctx : SigCtx Key) (dirs : List KeyDir) : SigCtx Key :=
  dirs.foldl (fun ctx d => (loadAndVerifySignedKeys lib ctx d).2) ctx

end Keys

/-- The list that `crinitParseConf` returns. Of a file without keys it has one element, in which
nothing was set. -/
inductive ConfList
  | unset
  | entries (kvs : List ConfKv)
  deriving DecidableEq, Repr

def ConfList.ofEntries (kvs : List ConfKv) : ConfList := if kvs = [] then .unset else .entries kvs

structure ParseEnv (Key : Type) where
  read : String → Option Bytes
  sigRequired : Bool
  ctx : SigCtx Key
  staleSig : Bytes := []
  /-- `ini_parse_string` with `crinitIniHandler`: the keys and values of a text, or an error. -/
  ini : Bytes → Option (List ConfKv)

section Parse

variable {Key Digest : Type} (lib : Crypto Key Digest)

/-- The text that `getdelim` leaves in the buffer, as a string: the file up to its first NUL. -/
def fileText (content : Bytes) : Bytes := content.takeWhile (· != 0#8)

def iniList (env : ParseEnv Key) (text : Bytes) : Option ConfList :=
  (env.ini text).map ConfList.ofEntries

/-- `getdelim` fails at once for an empty file. -/
def parseConf (env : ParseEnv Key) (filename : String) : Option ConfList :=
  match env.read filename with
  | none => none
  | some content =>
    if content = [] then none
    else if env.sigRequired then
      match binReadAll (rsassaPssSignatureSize + 1)
        (env.read (filename ++ signatureFileSuffix)) with
      | none => none
      | some sig =>
        if verifySignature lib env.ctx (fileText content) (fill env.staleSig sig) = -1 then none
        else iniList env (fileText content)
    else iniList env (fileText content)

end Parse

section Trust

variable {Key Digest : Type} (lib : Crypto Key Digest)

def Verified (ctx : SigCtx Key) (data signature : Bytes) : Prop :=
  ∃ digest signer, lib.hash data = some digest ∧ (signer = ctx.rootKey ∨ signer ∈ ctx.signedKeys) ∧
    lib.verify signer digest signature = true

variable {lib}

theorem verifySignature_iff {ctx : SigCtx Key} {data signature : Bytes} :
    verifySignature lib ctx data signature ≠ -1 ↔ Verified lib ctx data signature := by
  unfold verifySignature Verified
  cases lib.hash data with
  | none => simp
  | some digest =>
    by_cases root : lib.verify ctx.rootKey digest signature = true
    · simp only [root, if_true]
      exact iff_of_true (by decide) ⟨digest, ctx.rootKey, rfl, .inl rfl, root⟩
    · by_cases other : (ctx.signedKeys.any fun key => lib.verify key digest signature) = true
      · simp only [root, other, if_true, Bool.false_eq_true, if_false]
        obtain ⟨key, mem, valid⟩ := List.any_eq_true.1 other
        exact iff_of_true (by decide) ⟨digest, key, rfl, .inr mem, valid⟩
      · simp only [root, other, Bool.false_eq_true, if_false]
        refine iff_of_false (by decide) ?_
        rintro ⟨_, signer, same, rfl | mem, valid⟩
        · cases same
          exact root valid
        · cases same
          exact other (List.any_eq_true.2 ⟨signer, mem, valid⟩)

theorem binReadAll_some {n : Nat} {file : Option Bytes} {content : Bytes}
    (read : binReadAll n file = some content) :
    file = some content := by
  unfold binReadAll at read
  cases file with
  | none => cases read
  | some content =>
    dsimp only at read
    split_ifs at read
    exact read

def KeyFrom (lib : Crypto Key Digest) (ctx : SigCtx Key) (d : KeyDir) (pemFmt : Bool)
    (name : String) (k : Key) :
    Prop :=
  ∃ content sig stale, d.read (d.file name) = some content ∧
    d.read (d.file name ++ signatureFileSuffix) = some sig ∧
      Verified lib ctx content (fill stale sig) ∧
    (lib.parse (keyBytes pemFmt content)).2 = .rsa k

variable {ctx : SigCtx Key} {d : KeyDir} {pemFmt : Bool}

theorem loadKey_from {sigBuf sigBuf' : Bytes} {name : String} {k : Key}
    (loaded : loadKey lib ctx d pemFmt sigBuf name = some (k, sigBuf')) :
    KeyFrom lib ctx d pemFmt name k := by
  unfold loadKey at loaded
  split_ifs at loaded with long
  cases key : binReadAll signaturePkDataMaxSize (d.read (d.file name)) with
  | none => rw [key] at loaded; cases loaded
  | some content =>
    rw [key] at loaded
    dsimp only at loaded
    cases sign : binReadAll (rsassaPssSignatureSize + 1)
      (d.read (d.file name ++ signatureFileSuffix)) with
    | none => rw [sign] at loaded; cases loaded
    | some sig =>
      rw [sign] at loaded
      dsimp only at loaded
      split_ifs at loaded with failed
      refine ⟨content, sig, sigBuf, binReadAll_some key, binReadAll_some sign,
        verifySignature_iff.1 failed, ?_⟩
      cases parsed : (lib.parse (keyBytes pemFmt content)).2 with
      | none => rw [parsed] at loaded; cases loaded
      | other => rw [parsed] at loaded; cases loaded
      | rsa key =>
        rw [parsed] at loaded
        dsimp only at loaded
        split_ifs at loaded
        cases loaded
        rfl

theorem loadKeys_from {names : List String} {sigBuf : Bytes} {keys : List Key}
    (loaded : loadKeys lib ctx d pemFmt names sigBuf = some keys) :
    List.Forall₂ (KeyFrom lib ctx d pemFmt) names keys := by
  induction names generalizing sigBuf keys with
  | nil =>
    cases loaded
    exact .nil
  | cons name names ih =>
    unfold loadKeys at loaded
    cases first : loadKey lib ctx d pemFmt sigBuf name with
    | none => rw [first] at loaded; cases loaded
    | some r =>
      obtain ⟨k, sigBuf'⟩ := r
      rw [first] at loaded
      obtain ⟨rest, others, rfl⟩ := Option.map_eq_some_iff.1 loaded
      exact .cons (loadKey_from first) (ih others)

def KeyDir.Lists (d : KeyDir) (pemFmt : Bool) (name : String) : Prop :=
  ∃ names, (if pemFmt then d.pemKeys else d.derKeys) = some names ∧ name ∈ names

/-- A call fails and changes nothing, or every file of the directory gave one of the new keys. -/
theorem load_cases (lib : Crypto Key Digest) (ctx : SigCtx Key) (d : KeyDir) :
    loadAndVerifySignedKeys lib ctx d = (-1, ctx) ∨
    ∃ keys, loadAndVerifySignedKeys lib ctx d = (0, { ctx with signedKeys := keys }) ∧
      (∀ k ∈ keys, ∃ pemFmt name, d.Lists pemFmt name ∧ KeyFrom lib ctx d pemFmt name k) ∧
      ∀ pemFmt name, d.Lists pemFmt name → ∃ k, KeyFrom lib ctx d pemFmt name k := by
  unfold loadAndVerifySignedKeys
  cases ders : d.derKeys with
  | none => exact .inl rfl
  | some der =>
    cases pems : d.pemKeys with
    | none => exact .inl rfl
    | some pem =>
      dsimp only
      split_ifs with memory
      · exact .inl rfl
      cases first : loadKeys lib ctx d false der d.staleDer with
      | none => exact .inl rfl
      | some derCtx =>
        cases second : loadKeys lib ctx d true pem d.stalePem with
        | none => exact .inl rfl
        | some pemCtx =>
          have ofDer := loadKeys_from first
          have ofPem := loadKeys_from second
          refine .inr ⟨derCtx ++ pemCtx, rfl, fun k mem => ?_, fun pemFmt name lists => ?_⟩
          · rcases List.mem_append.1 mem with mem | mem
            · obtain ⟨name, listed, parsed⟩ := Collect.forall₂_right ofDer mem
              exact ⟨false, name, ⟨der, ders, listed⟩, parsed⟩
            · obtain ⟨name, listed, parsed⟩ := Collect.forall₂_right ofPem mem
              exact ⟨true, name, ⟨pem, pems, listed⟩, parsed⟩
          · obtain ⟨names, found, listed⟩ := lists
            cases pemFmt with
            | false =>
              cases ders.symm.trans found
              obtain ⟨k, -, parsed⟩ := Collect.forall₂_left ofDer listed
              exact ⟨k, parsed⟩
            | true =>
              cases pems.symm.trans found
              obtain ⟨k, -, parsed⟩ := Collect.forall₂_left ofPem listed
              exact ⟨k, parsed⟩

def BadKey (lib : Crypto Key Digest) (ctx : SigCtx Key) (d : KeyDir) (pemFmt : Bool)
    (name : String) : Prop :=
  ∀ content, d.read (d.file name) = some content →
    (∀ sig stale, d.read (d.file name ++ signatureFileSuffix) = some sig →
      ¬Verified lib ctx content (fill stale sig)) ∨
      (lib.parse (keyBytes pemFmt content)).1 ≠ 0 ∨
        ∀ k, (lib.parse (keyBytes pemFmt content)).2 ≠ .rsa k

theorem not_bad_of_from {name : String} {k : Key} (parsed : KeyFrom lib ctx d pemFmt name k) :
    ¬BadKey lib ctx d pemFmt name := by
  obtain ⟨content, sig, stale, key, sign, verified, rsa⟩ := parsed
  intro bad
  rcases bad content key with unsigned | failed | other
  · exact unsigned sig stale sign verified
  · rw [lib.freed _ failed] at rsa
    cases rsa
  · exact other k rsa

theorem load_rootKey (lib : Crypto Key Digest) (ctx : SigCtx Key) (d : KeyDir) :
    (loadAndVerifySignedKeys lib ctx d).2.rootKey = ctx.rootKey := by
  rcases load_cases lib ctx d with failed | ⟨keys, done, -⟩
  · rw [failed]
  · rw [done]

def AcceptedBy (lib : Crypto Key Digest) (start : SigCtx Key) (dirs : List KeyDir) (k : Key) :
    Prop :=
  ∃ before d after, dirs = before ++ d :: after ∧
    (loadAndVerifySignedKeys lib (afterLoads lib start before) d).1 = 0 ∧
    ∃ pemFmt name, d.Lists pemFmt name ∧ KeyFrom lib (afterLoads lib start before) d pemFmt name k

theorem afterLoads_concat (start : SigCtx Key) (dirs : List KeyDir) (d : KeyDir) :
    afterLoads lib start (dirs ++ [d]) =
      (loadAndVerifySignedKeys lib (afterLoads lib start dirs) d).2 := by
  unfold afterLoads
  rw [List.foldl_append]
  rfl

theorem afterLoads_rootKey (start : SigCtx Key) (dirs : List KeyDir) :
    (afterLoads lib start dirs).rootKey = start.rootKey := by
  induction dirs using List.reverseRecOn with
  | nil => rfl
  | append_singleton dirs d ih => rw [afterLoads_concat, load_rootKey, ih]

theorem accepted_of_mem {root : Key} (dirs : List KeyDir) {k : Key}
    (mem : k ∈ (afterLoads lib ⟨root, []⟩ dirs).signedKeys) : AcceptedBy lib ⟨root, []⟩ dirs k := by
  induction dirs using List.reverseRecOn with
  | nil => cases mem
  | append_singleton dirs d ih =>
    rw [afterLoads_concat] at mem
    rcases load_cases lib (afterLoads lib ⟨root, []⟩ dirs) d with failed | ⟨keys, done, each, -⟩
    · rw [failed] at mem
      obtain ⟨before, d', after, rfl, accepted⟩ := ih mem
      exact ⟨before, d', after ++ [d], by simp, accepted⟩
    · rw [done] at mem
      exact ⟨dirs, d, [], rfl, by rw [done], each k mem⟩

theorem parseConf_signed {env : ParseEnv Key} {filename : String} {c : ConfList}
    (required : env.sigRequired = true) (parsed : parseConf lib env filename = some c) :
    ∃ content sig, env.read filename = some content ∧
      env.read (filename ++ signatureFileSuffix) = some sig ∧
      Verified lib env.ctx (fileText content) (fill env.staleSig sig) ∧
        iniList env (fileText content) = some c := by
  unfold parseConf at parsed
  cases file : env.read filename with
  | none => rw [file] at parsed; cases parsed
  | some content =>
    rw [file] at parsed
    dsimp only at parsed
    split_ifs at parsed with empty
    cases sign : binReadAll (rsassaPssSignatureSize + 1)
      (env.read (filename ++ signatureFileSuffix)) with
    | none => rw [sign] at parsed; cases parsed
    | some sig =>
      rw [sign] at parsed
      dsimp only at parsed
      split_ifs at parsed with failed
      exact ⟨content, sig, rfl, binReadAll_some sign, verifySignature_iff.1 failed, parsed⟩

theorem chain_of_trust {Key Digest : Type} (lib : Crypto Key Digest) :
    (∀ (env : ParseEnv Key) filename c, env.sigRequired = true →
      parseConf lib env filename = some c →
      ∃ content sig, env.read filename = some content ∧
        env.read (filename ++ signatureFileSuffix) = some sig ∧
        Verified lib env.ctx (fileText content) (fill env.staleSig sig) ∧
        iniList env (fileText content) = some c) ∧
    (∀ root dirs, (afterLoads lib ⟨root, []⟩ dirs).rootKey = root ∧
      ∀ k ∈ (afterLoads lib ⟨root, []⟩ dirs).signedKeys, AcceptedBy lib ⟨root, []⟩ dirs k) ∧
    ∀ ctx d pemFmt name, d.Lists pemFmt name → BadKey lib ctx d pemFmt name →
      loadAndVerifySignedKeys lib ctx d = (-1, ctx) := by
  refine ⟨fun env filename c => parseConf_signed, fun root dirs =>
    ⟨afterLoads_rootKey ⟨root, []⟩ dirs, ?_⟩, ?_⟩
  · exact fun k => accepted_of_mem dirs
  intro ctx d pemFmt name lists bad
  rcases load_cases lib ctx d with failed | ⟨keys, -, -, all⟩
  · exact failed
  · obtain ⟨k, parsed⟩ := all pemFmt name lists
    exact absurd bad (not_bad_of_from parsed)

end Trust

def sampleCrypto : Crypto (BitVec 8) Bytes where
  hash := some
  verify := fun key digest signature => signature = key :: digest
  parse := fun bytes => match bytes with
    | [] => (-1, .none)
    | key :: _ => (0, .rsa key)
  freed := fun bytes failed => match bytes with
    | [] => rfl
    | _ :: _ => absurd rfl failed
  setPadding := fun _ => true

def sampleFiles (path : String) : Option Bytes :=
  if path = "/keys/a.der" then some [2#8]
  else if path = "/keys/a.der.sig" then some [1#8, 2#8]
  else if path = "/a.crinit" then some [65#8, 0#8, 66#8]
  else if path = "/a.crinit.sig" then some [2#8, 65#8]
  else none

def sampleKeys : KeyDir :=
  { path := "/keys", derKeys := some ["a.der"], pemKeys := some [], read := sampleFiles }

def sampleEnv : ParseEnv (BitVec 8) where
  read := sampleFiles
  sigRequired := true
  ctx := afterLoads sampleCrypto ⟨1#8, []⟩ [sampleKeys]
  ini := fun text => some [⟨"NAME", String.ofList (text.map fun b => Char.ofNat b.toNat)⟩]

theorem chain_of_trust_sample :
    parseConf sampleCrypto sampleEnv "/a.crinit" = some (.entries [⟨"NAME", "A"⟩]) ∧
    (∃ content sig, sampleEnv.read "/a.crinit" = some content ∧
      sampleEnv.read ("/a.crinit" ++ signatureFileSuffix) = some sig ∧
      Verified sampleCrypto sampleEnv.ctx (fileText content) (fill sampleEnv.staleSig sig) ∧
      iniList sampleEnv (fileText content) = some (.entries [⟨"NAME", "A"⟩])) ∧
    AcceptedBy sampleCrypto ⟨1#8, []⟩ [sampleKeys] 2#8 := by
  have parsed : parseConf sampleCrypto sampleEnv "/a.crinit" =
    some (.entries [⟨"NAME", "A"⟩]) := by decide
  exact ⟨parsed, (chain_of_trust sampleCrypto).1 sampleEnv "/a.crinit" _ rfl parsed,
    ((chain_of_trust sampleCrypto).2.1 1#8 [sampleKeys]).2 2#8 (by decide)⟩

end Crinit
