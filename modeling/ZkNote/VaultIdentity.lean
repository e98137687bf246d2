import Mathlib.Data.List.Basic
import ZkNote.ServerStore

namespace ZkNote.VaultIdentity
open ServerStore

structure KdfParams where
  algorithm : String
  salt : String
  memoryKib : UInt32
  iterations : UInt32
  parallelism : UInt32
  deriving DecidableEq, Repr

structure WrappedVaultKey where
  cipherSuite : String
  nonce : String
  ciphertext : String
  deriving DecidableEq, Repr

structure VaultBootstrap where
  cryptoVersion : UInt32
  kdf : KdfParams
  wrappedVaultKey : WrappedVaultKey
  recoveryWrappedVaultKey : WrappedVaultKey
  deriving DecidableEq, Repr

-- `Base64::decode_vec`, which accepts one spelling of each byte string only, and
-- the Blake2s256 digest.
structure IdentityCrates where
  decode : String → Option (List UInt8)
  canonical : ∀ a b bytes, decode a = some bytes → decode b = some bytes → a = b
  blake2s : List UInt8 → List UInt8

inductive InvalidBootstrap where
  | invalid
  deriving DecidableEq, Repr

def xchacha : String := "xchacha20poly1305"

def decodesTo (c : IdentityCrates) (length : Nat) (text : String) : Bool :=
  match c.decode text with
  | none => false
  | some bytes => decide (bytes.length = length)

def wrapperValid (c : IdentityCrates) (w : WrappedVaultKey) : Bool :=
  decide (w.cipherSuite = xchacha) && decodesTo c 24 w.nonce && decodesTo c 48 w.ciphertext

-- `8 * k.parallelism` cannot overflow: it is compared after the bound of 16.
def kdfValid (k : KdfParams) : Bool :=
  decide (k.algorithm = "argon2id" ∧ k.parallelism ≠ 0 ∧ k.parallelism ≤ 16 ∧ 8 * k.parallelism ≤ k.memoryKib ∧
    k.memoryKib ≤ 262144 ∧ k.iterations ≠ 0 ∧ k.iterations ≤ 16)

def saltValid (c : IdentityCrates) (salt : String) : Bool :=
  match c.decode salt with
  | none => false
  | some bytes => decide (8 ≤ bytes.length ∧ bytes.length ≤ 64)

def validateBootstrap (c : IdentityCrates) (b : VaultBootstrap) : Except InvalidBootstrap Unit :=
  if b.cryptoVersion = 1 ∧ kdfValid b.kdf ∧ saltValid c b.kdf.salt ∧ wrapperValid c b.wrappedVaultKey ∧
      wrapperValid c b.recoveryWrappedVaultKey then .ok ()
  else .error .invalid

def toBeBytes4 (n : Nat) : List UInt8 := [UInt8.ofNat (n / 2^24),UInt8.ofNat (n / 2^16),UInt8.ofNat (n / 2^8),UInt8.ofNat n]

def framed (field : List UInt8) : List UInt8 := toBeBytes4 field.length ++ field

def identityBytes (cryptoVersion : UInt32) (suite nonce ciphertext : List UInt8) : List UInt8 :=
  asBytes "zk-note-vault-id-v1" ++ toBeBytes4 cryptoVersion.toNat ++ framed suite ++ framed nonce ++ framed ciphertext

def hexLetter (n : Nat) : Char := if n < 10 then Char.ofNat (48+n) else Char.ofNat (87+n)

def hex (bytes : List UInt8) : List Char := bytes.flatMap (fun b => [hexLetter (b.toNat / 16),hexLetter (b.toNat % 16)])

def spelledFingerprint (digest : List UInt8) : String := "blake2s-v1:" ++ String.ofList (hex digest)

def vaultFingerprint (c : IdentityCrates) (b : VaultBootstrap) : Except InvalidBootstrap String := do
  validateBootstrap c b
  let w := b.recoveryWrappedVaultKey
  match c.decode w.nonce,c.decode w.ciphertext with
  | some nonce,some ciphertext =>
    return spelledFingerprint (c.blake2s (identityBytes b.cryptoVersion (asBytes w.cipherSuite) nonce ciphertext))
  | _,_ => .error .invalid

-- Web. A bootstrap is either the server's DTO or the three JSON texts of local
-- storage, here as `JSON.parse` reads them: absent keys are `none`.
structure KdfJson where
  algorithm : Option String
  salt : String
  memoryKibSnake : Option UInt32
  memoryKibCamel : Option UInt32
  iterations : UInt32
  parallelism : UInt32
  deriving DecidableEq, Repr

structure WrapperJson where
  cipherSuiteSnake : Option String
  cipherSuiteCamel : Option String
  nonce : String
  ciphertext : String
  deriving DecidableEq, Repr

structure VaultBootstrapData where
  wrappedVaultKey : WrapperJson
  kdfParams : KdfJson
  wrappedRecoveryKey : WrapperJson
  deriving DecidableEq, Repr

-- `a || b` on texts: an absent or empty one gives way.
def orText (a : Option String) (b : String) : String :=
  match a with
  | none => b
  | some text => if text = "" then b else text

def orNumber (a b : Option UInt32) : Option UInt32 :=
  match a with
  | none => b
  | some n => if n = 0 then b else some n

def wrapperDto (w : WrapperJson) : WrappedVaultKey :=
  ⟨orText w.cipherSuiteSnake (orText w.cipherSuiteCamel xchacha),w.nonce,w.ciphertext⟩

-- `none` where `Number(undefined)` is NaN, which equals nothing.
def toVaultBootstrapDto (data : VaultBootstrapData) : Option VaultBootstrap :=
  (orNumber data.kdfParams.memoryKibSnake data.kdfParams.memoryKibCamel).map (fun memoryKib =>
    { cryptoVersion := 1
      kdf := ⟨orText data.kdfParams.algorithm "argon2id",data.kdfParams.salt,memoryKib,data.kdfParams.iterations,data.kdfParams.parallelism⟩
      wrappedVaultKey := wrapperDto data.wrappedVaultKey
      recoveryWrappedVaultKey := wrapperDto data.wrappedRecoveryKey })

def wrapperJson (w : WrappedVaultKey) : WrapperJson := ⟨some w.cipherSuite,none,w.nonce,w.ciphertext⟩

def fromVaultBootstrapDto (dto : VaultBootstrap) : Except String VaultBootstrapData :=
  if dto.cryptoVersion ≠ 1 then .error s!"Unsupported crypto_version '{dto.cryptoVersion}', expected 1."
  else .ok
    { wrappedVaultKey := wrapperJson dto.wrappedVaultKey
      kdfParams := ⟨some dto.kdf.algorithm,dto.kdf.salt,some dto.kdf.memoryKib,none,dto.kdf.iterations,dto.kdf.parallelism⟩
      wrappedRecoveryKey := wrapperJson dto.recoveryWrappedVaultKey }

inductive WebBootstrap where
  | dto (b : VaultBootstrap)
  | data (d : VaultBootstrapData)

def WebBootstrap.read : WebBootstrap → Option VaultBootstrap
  | .dto b => some b
  | .data d => toVaultBootstrapDto d

def areBootstrapsEqual (a b : WebBootstrap) : Bool :=
  match a.read,b.read with
  | some dtoA,some dtoB =>
    decide (dtoA.cryptoVersion = dtoB.cryptoVersion) &&
    decide (dtoA.kdf.algorithm = dtoB.kdf.algorithm) &&
    decide (dtoA.kdf.salt = dtoB.kdf.salt) &&
    decide (dtoA.kdf.memoryKib = dtoB.kdf.memoryKib) &&
    decide (dtoA.kdf.iterations = dtoB.kdf.iterations) &&
    decide (dtoA.kdf.parallelism = dtoB.kdf.parallelism) &&
    decide (dtoA.wrappedVaultKey.cipherSuite = dtoB.wrappedVaultKey.cipherSuite) &&
    decide (dtoA.wrappedVaultKey.nonce = dtoB.wrappedVaultKey.nonce) &&
    decide (dtoA.wrappedVaultKey.ciphertext = dtoB.wrappedVaultKey.ciphertext) &&
    decide (dtoA.recoveryWrappedVaultKey.cipherSuite = dtoB.recoveryWrappedVaultKey.cipherSuite) &&
    decide (dtoA.recoveryWrappedVaultKey.nonce = dtoB.recoveryWrappedVaultKey.nonce) &&
    decide (dtoA.recoveryWrappedVaultKey.ciphertext = dtoB.recoveryWrappedVaultKey.ciphertext)
  | _,_ => false

-- Passphrase rotation. Argon2id and the XChaCha20-Poly1305 wrapping stay
-- parameters; `seed` is the randomness of the new nonce.
structure WrapCrypto where
  Kek : Type
  VaultKey : Type
  deriveKek : List UInt8 → KdfParams → Option Kek
  wrapVaultKey : VaultKey → Kek → Nat → Option WrappedVaultKey

def setNewPassphrase (w : WrapCrypto) (b : VaultBootstrap) (vaultKey : w.VaultKey) (newPassphrase : List UInt8)
    (newKdfParams : KdfParams) (seed : Nat) : Option VaultBootstrap := do
  let newKek ← w.deriveKek newPassphrase newKdfParams
  let newWrapped ← w.wrapVaultKey vaultKey newKek seed
  return {b with kdf := newKdfParams,wrappedVaultKey := newWrapped}

structure Rotation (w : WrapCrypto) where
  vaultKey : w.VaultKey
  newPassphrase : List UInt8
  newKdfParams : KdfParams
  seed : Nat

def rotateAll (w : WrapCrypto) : VaultBootstrap → List (Rotation w) → Option VaultBootstrap
  | b,[] => some b
  | b,r :: rest => (setNewPassphrase w b r.vaultKey r.newPassphrase r.newKdfParams r.seed).bind (fun b => rotateAll w b rest)

variable {c : IdentityCrates} {a b : VaultBootstrap} {w : WrapCrypto}

structure Accepted (c : IdentityCrates) (b : VaultBootstrap) : Prop where
  version : b.cryptoVersion = 1
  kdf : kdfValid b.kdf = true
  salt : saltValid c b.kdf.salt = true
  wrapper : wrapperValid c b.wrappedVaultKey = true
  recovery : wrapperValid c b.recoveryWrappedVaultKey = true

theorem accepted_iff : validateBootstrap c b = .ok () ↔ Accepted c b := by
  unfold validateBootstrap
  constructor
  · intro valid
    split at valid
    · rename_i parts
      exact ⟨parts.1,parts.2.1,parts.2.2.1,parts.2.2.2.1,parts.2.2.2.2⟩
    · cases valid
  · intro parts
    rw [if_pos ⟨parts.version,parts.kdf,parts.salt,parts.wrapper,parts.recovery⟩]

theorem wrapper_parts {k : WrappedVaultKey} (valid : wrapperValid c k = true) :
    k.cipherSuite = xchacha ∧ ∃ nonce ciphertext, c.decode k.nonce = some nonce ∧ nonce.length = 24 ∧
      c.decode k.ciphertext = some ciphertext ∧ ciphertext.length = 48 := by
  simp only [wrapperValid,decodesTo,Bool.and_eq_true,decide_eq_true_eq] at valid
  obtain ⟨⟨suite,nonceSized⟩,textSized⟩ := valid
  cases nonce : c.decode k.nonce with
  | none => simp [nonce] at nonceSized
  | some nonceBytes =>
      cases text : c.decode k.ciphertext with
      | none => simp [text] at textSized
      | some textBytes =>
          rw [nonce] at nonceSized
          rw [text] at textSized
          exact ⟨suite,nonceBytes,textBytes,rfl,of_decide_eq_true nonceSized,rfl,of_decide_eq_true textSized⟩

theorem kdf_parts {k : KdfParams} (valid : kdfValid k = true) : k.algorithm = "argon2id" ∧ k.memoryKib ≠ 0 := by
  simp only [kdfValid,decide_eq_true_eq] at valid
  obtain ⟨algorithm,positive,few,room,_⟩ := valid
  refine ⟨algorithm,?_⟩
  intro zero
  rw [zero] at room
  apply positive
  apply UInt32.toNat_inj.mp
  have few := UInt32.le_iff_toNat_le.mp few
  have room := UInt32.le_iff_toNat_le.mp room
  simp only [UInt32.toNat_mul] at room
  have eight : (8 : UInt32).toNat = 8 := rfl
  have most : (16 : UInt32).toNat = 16 := rfl
  have none : (0 : UInt32).toNat = 0 := rfl
  rw [eight,none] at room
  rw [most] at few
  rw [none]
  omega

-- How a browser holds a bootstrap.
def Shown (web : WebBootstrap) (b : VaultBootstrap) : Prop :=
  web = .dto b ∨ ∃ d, fromVaultBootstrapDto b = .ok d ∧ web = .data d

theorem orText_held (other : String) (present : text ≠ "") : orText (some text) other = text := if_neg present

theorem wrapper_read {k : WrappedVaultKey} (valid : wrapperValid c k = true) : wrapperDto (wrapperJson k) = k := by
  obtain ⟨suite,_⟩ := wrapper_parts valid
  have present : k.cipherSuite ≠ "" := by
    rw [suite]
    decide
  simp only [wrapperDto,wrapperJson,orText_held _ present]

theorem shown_read (valid : Accepted c b) (shown : Shown web b) : web.read = some b := by
  rcases shown with rfl | ⟨d,stored,rfl⟩
  · rfl
  · obtain ⟨algorithm,memory⟩ := kdf_parts valid.kdf
    have present : b.kdf.algorithm ≠ "" := by
      rw [algorithm]
      decide
    rw [fromVaultBootstrapDto,if_neg (by simp [valid.version])] at stored
    cases stored
    have held : orNumber (some b.kdf.memoryKib) none = some b.kdf.memoryKib := if_neg memory
    simp only [WebBootstrap.read,toVaultBootstrapDto,held,Option.map_some,orText_held _ present,wrapper_read valid.wrapper,
      wrapper_read valid.recovery]
    rw [← valid.version]

theorem equal_iff (readA : webA.read = some a) (readB : webB.read = some b) : areBootstrapsEqual webA webB = true ↔ a = b := by
  obtain ⟨versionA,⟨algA,saltA,memA,iterA,parA⟩,⟨suiteA,nonceA,textA⟩,⟨rsuiteA,rnonceA,rtextA⟩⟩ := a
  obtain ⟨versionB,⟨algB,saltB,memB,iterB,parB⟩,⟨suiteB,nonceB,textB⟩,⟨rsuiteB,rnonceB,rtextB⟩⟩ := b
  simp only [areBootstrapsEqual,readA,readB,Bool.and_eq_true,decide_eq_true_eq,VaultBootstrap.mk.injEq,KdfParams.mk.injEq,
    WrappedVaultKey.mk.injEq,and_assoc]

-- The message that is hashed gives its fields back.
theorem framed_inj {x y s t : List UInt8} (same : framed x ++ s = framed y ++ t) (length : x.length = y.length) : x = y ∧ s = t := by
  have framing : (framed x).length = (framed y).length := by simp [framed,toBeBytes4,length]
  obtain ⟨frame,rest⟩ := List.append_inj same framing
  rw [framed,framed,length] at frame
  exact ⟨List.append_cancel_left frame,rest⟩

theorem identity_inj {suite nonceA nonceB textA textB : List UInt8} (nonce : nonceA.length = nonceB.length) (text : textA.length = textB.length)
    (same : identityBytes 1 suite nonceA textA = identityBytes 1 suite nonceB textB) : nonceA = nonceB ∧ textA = textB := by
  simp only [identityBytes,List.append_assoc] at same
  have same := List.append_cancel_left (List.append_cancel_left (List.append_cancel_left same))
  obtain ⟨nonces,rest⟩ := framed_inj same nonce
  have rest : framed textA ++ [] = framed textB ++ [] := by simpa using rest
  exact ⟨nonces,(framed_inj rest text).1⟩

theorem hexLetter_inj : ∀ m < 16, ∀ n < 16, hexLetter m = hexLetter n → m = n := by decide

theorem hex_inj {x y : List UInt8} (same : hex x = hex y) : x = y := by
  induction x generalizing y with
  | nil =>
      cases y with
      | nil => rfl
      | cons _ _ => cases same
  | cons b rest ih =>
      cases y with
      | nil => cases same
      | cons d tail =>
          simp only [hex,List.flatMap_cons,List.cons_append,List.nil_append,List.cons.injEq] at same
          have smallB := b.toNat_lt
          have smallD := d.toNat_lt
          have high := hexLetter_inj _ (by omega) _ (by omega) same.1
          have low := hexLetter_inj _ (by omega) _ (by omega) same.2.1
          rw [ih same.2.2,UInt8.toNat_inj.mp (by omega : b.toNat = d.toNat)]

theorem spelled_inj {x y : List UInt8} (same : spelledFingerprint x = spelledFingerprint y) : x = y := by
  have letters := congrArg String.toList same
  simp only [spelledFingerprint,String.toList_append,String.toList_ofList] at letters
  exact hex_inj (List.append_cancel_left letters)

-- Blake2s tells the two messages apart if they differ.
def Collisionless (c : IdentityCrates) (a b : VaultBootstrap) : Prop :=
  ∀ nonceA textA nonceB textB, c.decode a.recoveryWrappedVaultKey.nonce = some nonceA → c.decode a.recoveryWrappedVaultKey.ciphertext = some textA →
    c.decode b.recoveryWrappedVaultKey.nonce = some nonceB → c.decode b.recoveryWrappedVaultKey.ciphertext = some textB →
    let one := identityBytes a.cryptoVersion (asBytes a.recoveryWrappedVaultKey.cipherSuite) nonceA textA
    let two := identityBytes b.cryptoVersion (asBytes b.recoveryWrappedVaultKey.cipherSuite) nonceB textB
    c.blake2s one = c.blake2s two → one = two

theorem fingerprint_same (validA : Accepted c a) (validB : Accepted c b) (same : a.recoveryWrappedVaultKey = b.recoveryWrappedVaultKey) :
    vaultFingerprint c a = vaultFingerprint c b := by
  simp only [vaultFingerprint,accepted_iff.mpr validA,accepted_iff.mpr validB,same,validA.version,validB.version]

theorem fingerprint_iff (validA : Accepted c a) (validB : Accepted c b) (collisionless : Collisionless c a b) :
    vaultFingerprint c a = vaultFingerprint c b ↔ a.recoveryWrappedVaultKey = b.recoveryWrappedVaultKey := by
  refine ⟨?_,fingerprint_same validA validB⟩
  intro same
  obtain ⟨suiteA,nonceA,textA,readNonceA,sizedNonceA,readTextA,sizedTextA⟩ := wrapper_parts validA.recovery
  obtain ⟨suiteB,nonceB,textB,readNonceB,sizedNonceB,readTextB,sizedTextB⟩ := wrapper_parts validB.recovery
  simp only [vaultFingerprint,accepted_iff.mpr validA,accepted_iff.mpr validB,bind,Except.bind,readNonceA,readTextA,readNonceB,readTextB,
    pure,Except.pure,Except.ok.injEq] at same
  have message := collisionless nonceA textA nonceB textB readNonceA readTextA readNonceB readTextB (spelled_inj same)
  simp only [validA.version,validB.version,suiteA,suiteB] at message
  obtain ⟨nonce,text⟩ := identity_inj (sizedNonceA.trans sizedNonceB.symm) (sizedTextA.trans sizedTextB.symm) message
  have nonceText := c.canonical _ _ nonceA readNonceA (nonce ▸ readNonceB)
  have cipherText := c.canonical _ _ textA readTextA (text ▸ readTextB)
  cases one : a.recoveryWrappedVaultKey with
  | mk suite nonce text =>
      cases two : b.recoveryWrappedVaultKey with
      | mk suite' nonce' text' =>
          rw [one,two] at nonceText cipherText
          rw [one] at suiteA
          rw [two] at suiteB
          simp_all

theorem rotated_parts (rotations : List (Rotation w)) (rotated : rotateAll w a rotations = some b) :
    b.recoveryWrappedVaultKey = a.recoveryWrappedVaultKey ∧ b.cryptoVersion = a.cryptoVersion := by
  induction rotations generalizing a with
  | nil =>
      cases rotated
      exact ⟨rfl,rfl⟩
  | cons r rest ih =>
      obtain ⟨middle,first,last⟩ := Option.bind_eq_some_iff.mp rotated
      obtain ⟨recovery,version⟩ := ih last
      simp only [setNewPassphrase,bind,Option.bind_eq_some_iff,pure,Option.some.injEq] at first
      obtain ⟨_,_,_,_,rfl⟩ := first
      exact ⟨recovery,version⟩

theorem bootstrap_ext (version : a.cryptoVersion = b.cryptoVersion) (kdf : a.kdf = b.kdf) (wrapped : a.wrappedVaultKey = b.wrappedVaultKey)
    (recovery : a.recoveryWrappedVaultKey = b.recoveryWrappedVaultKey) : a = b := by
  cases a
  cases b
  simp_all

-- Equality of all fields and identity of the recovery wrapper, against each
-- other and over passphrase rotations.
theorem identities_agree_iff (c : IdentityCrates) (a b : VaultBootstrap) (webA webB : WebBootstrap) (validA : validateBootstrap c a = .ok ())
    (validB : validateBootstrap c b = .ok ()) (shownA : Shown webA a) (shownB : Shown webB b) (collisionless : Collisionless c a b) :
    ((areBootstrapsEqual webA webB = true ↔ vaultFingerprint c a = vaultFingerprint c b) ↔
      (a.recoveryWrappedVaultKey = b.recoveryWrappedVaultKey → a.kdf = b.kdf ∧ a.wrappedVaultKey = b.wrappedVaultKey)) ∧
    ∀ (w : WrapCrypto) (rotations : List (Rotation w)), rotateAll w a rotations = some b →
      vaultFingerprint c b = vaultFingerprint c a ∧
      (areBootstrapsEqual webA webB = true ↔ a.kdf = b.kdf ∧ a.wrappedVaultKey = b.wrappedVaultKey) := by
  have acceptedA := accepted_iff.mp validA
  have acceptedB := accepted_iff.mp validB
  have version := acceptedA.version.trans acceptedB.version.symm
  have web := equal_iff (shown_read acceptedA shownA) (shown_read acceptedB shownB)
  have native := fingerprint_iff acceptedA acceptedB collisionless
  constructor
  · rw [web,native]
    constructor
    · intro agree recovery
      cases agree.mpr recovery
      exact ⟨rfl,rfl⟩
    · intro rest
      refine ⟨fun same => same ▸ rfl,?_⟩
      intro recovery
      obtain ⟨kdf,wrapped⟩ := rest recovery
      exact bootstrap_ext version kdf wrapped recovery
  · intro w rotations rotated
    obtain ⟨recovery,_⟩ := rotated_parts rotations rotated
    refine ⟨fingerprint_same acceptedB acceptedA recovery,?_⟩
    rw [web]
    refine ⟨fun same => same ▸ ⟨rfl,rfl⟩,?_⟩
    intro rest
    exact bootstrap_ext version rest.1 rest.2 recovery.symm

-- A vault, and the same one under a new passphrase. The stand-in decodes the
-- texts that occur here; its digest has no collisions.
def zeros24 : String := "AAAAAAAAAAAAAAAAAAAAAAAAAAAAAAAA"
def zeros48 : String := "AAAAAAAAAAAAAAAAAAAAAAAAAAAAAAAAAAAAAAAAAAAAAAAAAAAAAAAAAAAAAAAA"
def zeros12 : String := "AAAAAAAAAAAAAAAA"
def fresh12 : String := "BBBBBBBBBBBBBBBB"

def decodeKnown (text : String) : Option (List UInt8) :=
  if text = zeros24 then some (List.replicate 24 0)
  else if text = zeros48 then some (List.replicate 48 0)
  else if text = zeros12 then some (List.replicate 12 0)
  else if text = fresh12 then some [4,16,65,4,16,65,4,16,65,4,16,65]
  else none

theorem known_texts (read : decodeKnown text = some bytes) :
    (text = zeros24 ∧ bytes = List.replicate 24 0) ∨ (text = zeros48 ∧ bytes = List.replicate 48 0) ∨
    (text = zeros12 ∧ bytes = List.replicate 12 0) ∨ (text = fresh12 ∧ bytes = [4,16,65,4,16,65,4,16,65,4,16,65]) := by
  unfold decodeKnown at read
  split at read
  · exact .inl ⟨by assumption,(Option.some.inj read).symm⟩
  split at read
  · exact .inr (.inl ⟨by assumption,(Option.some.inj read).symm⟩)
  split at read
  · exact .inr (.inr (.inl ⟨by assumption,(Option.some.inj read).symm⟩))
  split at read
  · exact .inr (.inr (.inr ⟨by assumption,(Option.some.inj read).symm⟩))
  · cases read

def knownCrates : IdentityCrates where
  decode := decodeKnown
  canonical := by
    intro a b bytes readA readB
    rcases known_texts readA with ⟨rfl,rfl⟩ | ⟨rfl,rfl⟩ | ⟨rfl,rfl⟩ | ⟨rfl,rfl⟩ <;>
      rcases known_texts readB with ⟨rfl,other⟩ | ⟨rfl,other⟩ | ⟨rfl,other⟩ | ⟨rfl,other⟩ <;>
      first
        | rfl
        | cases other
  blake2s bytes := bytes

def zeroKey : WrappedVaultKey := ⟨xchacha,zeros24,zeros48⟩

def oldVault : VaultBootstrap := ⟨1,⟨"argon2id",zeros12,65536,3,1⟩,zeroKey,zeroKey⟩

def newKdf : KdfParams := ⟨"argon2id",fresh12,65536,3,1⟩

def newVault : VaultBootstrap := {oldVault with kdf := newKdf}

def plainWrap : WrapCrypto := ⟨Unit,Unit,fun _ _ => some (),fun _ _ _ => some zeroKey⟩

theorem no_collision (a b : VaultBootstrap) : Collisionless knownCrates a b := by
  intro nonceA textA nonceB textB _ _ _ _ one two same
  exact same

theorem same_vault_recognised :
    (areBootstrapsEqual (.dto oldVault) (.data ⟨wrapperJson zeroKey,⟨some "argon2id",zeros12,some 65536,none,3,1⟩,wrapperJson zeroKey⟩) = true ↔
      vaultFingerprint knownCrates oldVault = vaultFingerprint knownCrates oldVault) :=
  (identities_agree_iff knownCrates oldVault oldVault (.dto oldVault) (.data ⟨wrapperJson zeroKey,⟨some "argon2id",zeros12,some 65536,none,3,1⟩,wrapperJson zeroKey⟩)
    (by decide) (by decide) (.inl rfl) (.inr ⟨_,by decide,rfl⟩) (no_collision _ _)).1.mpr (fun _ => ⟨rfl,rfl⟩)

theorem rotated_vault_refused :
    validateBootstrap knownCrates oldVault = .ok () ∧ validateBootstrap knownCrates newVault = .ok () ∧
    rotateAll plainWrap oldVault [⟨(),[110,101,119],newKdf,0⟩] = some newVault ∧
    vaultFingerprint knownCrates newVault = vaultFingerprint knownCrates oldVault ∧
    areBootstrapsEqual (.dto oldVault) (.dto newVault) = false :=
  ⟨by decide,by decide,rfl,fingerprint_same (accepted_iff.mp (by decide)) (accepted_iff.mp (by decide)) rfl,by decide⟩

end ZkNote.VaultIdentity
