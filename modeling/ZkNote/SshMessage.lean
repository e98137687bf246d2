import ZkNote.ByteOffsets
import ZkNote.RequestHash
import ZkNote.SshFinality
import ZkNote.VaultIdentity

namespace ZkNote.SshMessage
open ServerStore SshAuth SshFinality RequestHash
open VaultIdentity (hexLetter hex)

-- An id is sixteen bytes; the model holds the text it is displayed as.
structure Uuid where
  bytes : List UInt8
  sized : bytes.length = 16

def Uuid.text (id : Uuid) : String :=
  String.ofList (hex (id.bytes.take 4) ++ '-' :: (hex ((id.bytes.drop 4).take 2) ++ '-' :: (hex ((id.bytes.drop 6).take 2) ++ '-' ::
    (hex ((id.bytes.drop 8).take 2) ++ '-' :: hex (id.bytes.drop 10)))))

-- `Uuid::as_bytes`.
def AsBytes (crates : SshCrates) : Prop := ∀ id : Uuid, crates.uuidBytes id.text = id.bytes

-- What the types of the fields let them hold.
structure Typed (c : SshChallenge) : Prop where
  account : ∀ account, c.request.accountId = some account → ∃ id : Uuid, account = id.text
  device : ∃ id : Uuid, c.request.deviceId = id.text
  challenge : ∃ id : Uuid, c.challengeId = id.text
  expires : c.expiresAt < 2^64

variable {crates : SshCrates} {c c' : SshChallenge} {s t : List UInt8}

theorem be_bytes_length (width n : Nat) : (toBeBytes width n).length = width := by
  rw [toBeBytes,List.length_reverse,le_bytes_length]

theorem be_bytes_inj (width : Nat) {m n : Nat} (small : m < 256^width) (other : n < 256^width)
    (same : toBeBytes width m = toBeBytes width n) : m = n :=
  le_bytes_inj width small other (List.reverse_inj.mp same)

theorem as_bytes_length (text : String) : (asBytes text).length = text.utf8ByteSize := by
  have size := ByteOffsets.ofList_size text.toList
  rw [String.ofList_toList] at size
  rw [size]
  exact ByteOffsets.bytes_length text.toList

-- The length in front says where a text ends.
theorem append_string_inj {a b : String} (small : a.utf8ByteSize < 2^32) (other : b.utf8ByteSize < 2^32)
    (same : appendString a ++ s = appendString b ++ t) : a = b ∧ s = t := by
  rw [appendString,appendString,List.append_assoc,List.append_assoc] at same
  obtain ⟨length,same⟩ := head_inj same (by rw [be_bytes_length,be_bytes_length])
  have length := be_bytes_inj 4 (by omega) (by omega) length
  obtain ⟨text,rest⟩ := head_inj same (by rw [as_bytes_length,as_bytes_length,length])
  exact ⟨as_bytes_inj text,rest⟩

theorem uuid_inj (uuids : AsBytes crates) {a b : String} (one : ∃ id : Uuid, a = id.text) (two : ∃ id : Uuid, b = id.text)
    (same : crates.uuidBytes a ++ s = crates.uuidBytes b ++ t) : a = b ∧ s = t := by
  obtain ⟨id,rfl⟩ := one
  obtain ⟨id',rfl⟩ := two
  rw [uuids,uuids] at same
  obtain ⟨bytes,rest⟩ := head_inj same (id.sized.trans id'.sized.symm)
  obtain ⟨_,_⟩ := id
  obtain ⟨_,_⟩ := id'
  cases bytes
  exact ⟨rfl,rest⟩

def accountPart (crates : SshCrates) (accountId : Option String) : List UInt8 :=
  match accountId with
  | some account => 1 :: crates.uuidBytes account
  | none => [0]

-- The tag says whether an account follows.
theorem account_inj (uuids : AsBytes crates) {a b : Option String} (one : ∀ account, a = some account → ∃ id : Uuid, account = id.text)
    (two : ∀ account, b = some account → ∃ id : Uuid, account = id.text)
    (same : accountPart crates a ++ s = accountPart crates b ++ t) : a = b ∧ s = t := by
  cases a with
  | none =>
      cases b with
      | none => exact ⟨rfl,(List.cons.inj same).2⟩
      | some account => exact absurd (List.cons.inj same).1 (by decide)
  | some account =>
      cases b with
      | none => exact absurd (List.cons.inj same).1 (by decide)
      | some account' =>
          obtain ⟨is,rest⟩ := uuid_inj uuids (one account rfl) (two account' rfl) (List.cons.inj same).2
          exact ⟨congrArg some is,rest⟩

-- A challenge that is signed, and the parts of its message.
structure Message (crates : SshCrates) (c : SshChallenge) (nonce : List UInt8) : Prop where
  version : c.request.version = sshAuthVersion
  audience : c.request.audience.utf8ByteSize ≤ 2048
  fingerprint : c.request.fingerprint.utf8ByteSize = 50
  length : nonce.length = 32
  canonical : crates.encodeBase64Url nonce = c.nonce

def Message.bytes (crates : SshCrates) (c : SshChallenge) (nonce : List UInt8) : List UInt8 :=
  appendString sshAuthDomain ++ (toBeBytes 4 c.request.version ++ (appendString c.request.audience ++ (appendString c.request.fingerprint ++
    (accountPart crates c.request.accountId ++ (crates.uuidBytes c.request.deviceId ++ (crates.uuidBytes c.challengeId ++
      (nonce ++ toBeBytes 8 c.expiresAt)))))))

theorem signed_message {bytes : List UInt8} (signed : signingBytes crates c = some bytes) : ∃ nonce, Message crates c nonce ∧ bytes = Message.bytes crates c nonce := by
  unfold signingBytes at signed
  dsimp only at signed
  split at signed
  · cases signed
  · rename_i sizes
    split at signed
    · cases signed
    · split at signed
      · rename_i digest nonce _ _
        split at signed
        · cases signed
        · rename_i checks
          cases signed
          simp only [not_or,not_not] at sizes checks
          obtain ⟨version,_,_,_,_,length,_,_,canonical,audience,_⟩ := checks
          refine ⟨nonce,⟨version,Nat.le_of_not_lt audience,sizes.1,length,canonical⟩,?_⟩
          rw [Message.bytes]
          simp only [List.append_assoc]
          rfl
      · cases signed

theorem message_inj (uuids : AsBytes crates) {nonce nonce' : List UInt8} (typed : Typed c) (typed' : Typed c') (message : Message crates c nonce)
    (message' : Message crates c' nonce') (same : Message.bytes crates c nonce = Message.bytes crates c' nonce') : c = c' := by
  have audience := message.audience
  have audience' := message'.audience
  have fingerprint := message.fingerprint
  have fingerprint' := message'.fingerprint
  rw [Message.bytes,Message.bytes,message.version,message'.version] at same
  have same := List.append_cancel_left (List.append_cancel_left same)
  obtain ⟨sameAudience,same⟩ := append_string_inj (by omega) (by omega) same
  obtain ⟨sameFingerprint,same⟩ := append_string_inj (by omega) (by omega) same
  obtain ⟨sameAccount,same⟩ := account_inj uuids typed.account typed'.account same
  obtain ⟨sameDevice,same⟩ := uuid_inj uuids typed.device typed'.device same
  obtain ⟨sameChallenge,same⟩ := uuid_inj uuids typed.challenge typed'.challenge same
  obtain ⟨sameNonce,same⟩ := head_inj same (message.length.trans message'.length.symm)
  have sameExpires := be_bytes_inj 8 typed.expires typed'.expires same
  have nonces : c.nonce = c'.nonce := by rw [← message.canonical,← message'.canonical,sameNonce]
  have version := message.version.trans message'.version.symm
  obtain ⟨⟨_,_,_,_,_⟩,_,_,_⟩ := c
  obtain ⟨⟨_,_,_,_,_⟩,_,_,_⟩ := c'
  dsimp only at sameAudience sameFingerprint sameAccount sameDevice sameChallenge sameExpires nonces version
  subst sameAudience sameFingerprint sameAccount sameDevice sameChallenge sameExpires nonces version
  rfl

-- A signature that a key's owner made for the bytes of a challenge.
def Authorises (crates : SshCrates) (publicKey signature : String) (c : SshChallenge) : Prop :=
  ∃ message, signingBytes crates c = some message ∧ verifySignature crates publicKey message signature = true

theorem signed_challenge_unique {bytes : List UInt8} (uuids : AsBytes crates) (typed : Typed c) (signed : signingBytes crates c = some bytes) :
    (∀ c', Typed c' → (signingBytes crates c' = some bytes ↔ c' = c)) ∧
    ∀ publicKey signature, (∀ message, verifySignature crates publicKey message signature = true ↔ message = bytes) →
      ∀ c', Typed c' → (Authorises crates publicKey signature c' ↔ c' = c) := by
  have unique : ∀ c', Typed c' → (signingBytes crates c' = some bytes ↔ c' = c) := by
    intro c' typed'
    constructor
    · intro signed'
      obtain ⟨nonce,message,is⟩ := signed_message signed
      obtain ⟨nonce',message',is'⟩ := signed_message signed'
      exact message_inj uuids typed' typed message' message (is'.symm.trans is)
    · intro same
      rw [same,signed]
  refine ⟨unique,?_⟩
  intro publicKey signature only c' typed'
  rw [← unique c' typed']
  constructor
  · rintro ⟨message,signed',verified⟩
    rw [signed',(only message).mp verified]
  · intro signed'
    exact ⟨bytes,signed',(only bytes).mpr rfl⟩

theorem hex_letter : ∀ n < 16, hexLetter n ≠ '-' ∧ hexValue (hexLetter n) = n := by decide

theorem hex_no_dash (bytes : List UInt8) : (hex bytes).filter (· ≠ '-') = hex bytes := by
  rw [List.filter_eq_self]
  intro x inside
  obtain ⟨b,_,inside⟩ := List.mem_flatMap.mp inside
  have high := (hex_letter (b.toNat/16) (Nat.div_lt_of_lt_mul b.toNat_lt)).1
  have low := (hex_letter (b.toNat%16) (Nat.mod_lt _ (by decide))).1
  rcases List.mem_pair.mp inside with rfl | rfl
  · simpa using high
  · simpa using low

theorem hex_pairs (bytes : List UInt8) : hexPairs (hex bytes) = bytes := by
  induction bytes with
  | nil => rfl
  | cons b rest ih =>
      have high := (hex_letter (b.toNat/16) (Nat.div_lt_of_lt_mul b.toNat_lt)).2
      have low := (hex_letter (b.toNat%16) (Nat.mod_lt _ (by decide))).2
      show UInt8.ofNat (16*hexValue (hexLetter (b.toNat/16))+hexValue (hexLetter (b.toNat%16))) :: hexPairs (hex rest) = b :: rest
      rw [high,low,Nat.div_add_mod,UInt8.ofNat_toNat,ih]

theorem hex_append (front back : List UInt8) : hex front ++ hex back = hex (front ++ back) := List.flatMap_append.symm

theorem cut_again (n k : Nat) (bytes : List UInt8) : (bytes.drop n).take k ++ bytes.drop (n+k) = bytes.drop n := by
  rw [← List.drop_drop,List.take_append_drop]

theorem standIn_bytes : AsBytes SshCrates.standIn := by
  intro id
  show hexPairs (id.text.toList.filter (· ≠ '-')) = id.bytes
  have dash : decide ('-' ≠ '-') = false := rfl
  rw [Uuid.text,String.toList_ofList]
  simp only [List.filter_append,List.filter_cons,hex_no_dash,dash,Bool.false_eq_true,if_false,hex_append]
  rw [hex_pairs,cut_again 8 2,cut_again 6 2,cut_again 4 2,List.take_append_drop]

def uuidOf (last : UInt8) : Uuid := ⟨List.replicate 15 0 ++ [last],rfl⟩

-- Keys whose signatures are good for one message and no other.
def signedOnly (bytes : List UInt8) : SshCrates := {SshCrates.standIn with verifies := fun _ message _ => message == bytes}

theorem signed_only_verifies (bytes message : List UInt8) :
    verifySignature (signedOnly bytes) ("ssh-ed25519 " ++ firstDigest) message firstDigest = true ↔ message = bytes := by
  obtain ⟨key,parsed⟩ : ∃ key, parsePublicKey (signedOnly bytes) ("ssh-ed25519 " ++ firstDigest) = some key :=
    Option.isSome_iff_exists.mp (show (parsePublicKey SshCrates.standIn ("ssh-ed25519 " ++ firstDigest)).isSome = true by decide +kernel)
  have decoded : ((signedOnly bytes).decodeBase64Url firstDigest).bind (signedOnly bytes).signatureFrom = some ⟨"ssh-ed25519",zeros⟩ :=
    show (SshCrates.standIn.decodeBase64Url firstDigest).bind SshCrates.standIn.signatureFrom = some ⟨"ssh-ed25519",zeros⟩ by decide +kernel
  have short : ¬firstDigest.utf8ByteSize > 1024 := by decide +kernel
  have verifies : (signedOnly bytes).verifies key message ⟨"ssh-ed25519",zeros⟩ = (message == bytes) := rfl
  simp [verifySignature,parsed,decoded,short,verifies]

-- The bytes of the lost machine's challenge are those of no other one, and what its
-- key signed authorises no other one.
theorem lost_machine_signed : ∃ bytes, signingBytes (signedOnly bytes) (proof firstDigest "e1").challenge = some bytes ∧
    (∀ c', Typed c' → (signingBytes (signedOnly bytes) c' = some bytes ↔ c' = (proof firstDigest "e1").challenge)) ∧
    ∀ c', Typed c' →
      (Authorises (signedOnly bytes) ("ssh-ed25519 " ++ firstDigest) firstDigest c' ↔ c' = (proof firstDigest "e1").challenge) := by
  have typed : Typed (proof firstDigest "e1").challenge := by
    refine ⟨?_,⟨uuidOf 0xdd,by decide⟩,⟨uuidOf 0xe1,by decide⟩,by decide⟩
    intro account none
    cases none
  obtain ⟨bytes,signed⟩ : ∃ bytes, signingBytes SshCrates.standIn (proof firstDigest "e1").challenge = some bytes :=
    Option.isSome_iff_exists.mp (by decide +kernel)
  have signed : signingBytes (signedOnly bytes) (proof firstDigest "e1").challenge = some bytes := signed
  have uuids : AsBytes (signedOnly bytes) := standIn_bytes
  obtain ⟨unique,authorised⟩ := signed_challenge_unique uuids typed signed
  exact ⟨bytes,signed,unique,authorised _ _ (signed_only_verifies bytes)⟩

end ZkNote.SshMessage
