import ZkNote.ChunkFormat
import ZkNote.LocalEdits

namespace ZkNote.AttachmentCrypto
open ByteFields Fallible Protocol ChunkFormat
open LocalEdits (objectKindAttachmentManifest)

def keyLen : Nat := 32
def attachmentChunkVersionV1 : UInt32 := 1

-- `VaultKey`, `ObjectKey` and `AttachmentKey` are made alike.
structure SecretKey where
  bytes : List UInt8
  sized : bytes.length = keyLen

structure Nonce where
  bytes : List UInt8
  sized : bytes.length = nonceLen

inductive CryptoError where
  | invalidKeyLength (expected actual : Nat)
  | invalidEncoding (message : String)
  | decryptionFailed
  | aeadFailure (message : String)
  | unsupportedVersion (version : UInt32)
  deriving DecidableEq, Repr

def CryptoError.display : CryptoError → String
  | .invalidKeyLength expected actual => s!"invalid key length: expected {expected} bytes, got {actual} bytes"
  | .invalidEncoding message => s!"invalid encoding: {message}"
  | .decryptionFailed => "cryptographic authentication or decryption failed"
  | .aeadFailure message => s!"AEAD operation failed: {message}"
  | .unsupportedVersion version => s!"unsupported cryptographic envelope version: {version}"

-- XChaCha20-Poly1305, whose tag has sixteen bytes.
structure Cipher where
  encrypt : (key nonce aad msg : List UInt8) → Except String (List UInt8)
  decrypt : (key nonce aad ciphertext : List UInt8) → Option (List UInt8)

structure Cipher.Lawful (cipher : Cipher) : Prop where
  opens : ∀ key nonce aad msg sealed_, cipher.encrypt key nonce aad msg = .ok sealed_ → cipher.decrypt key nonce aad sealed_ = some msg
  tagged : ∀ key nonce aad msg sealed_, cipher.encrypt key nonce aad msg = .ok sealed_ → sealed_.length = msg.length+16

structure CryptoCrates where
  base64 : Base64
  cipher : Cipher

structure CryptoCrates.Lawful (crates : CryptoCrates) : Prop where
  base64 : crates.base64.Lawful
  cipher : crates.cipher.Lawful

def SecretKey.fromSlice (slice : List UInt8) : Except CryptoError SecretKey :=
  if sized : slice.length = keyLen then .ok ⟨slice,sized⟩ else .error (.invalidKeyLength keyLen slice.length)

section
variable (crates : CryptoCrates)

-- A nonce and a ciphertext, both in Base64.
def sealAs {α : Type} (container : (nonce ciphertext : String) → α) (nonce : Nonce) (key : SecretKey) (aad msg : List UInt8) : Except CryptoError α :=
  match crates.cipher.encrypt key.bytes nonce.bytes aad msg with
  | .error e => .error (.aeadFailure e)
  | .ok ciphertext => .ok (container (crates.base64.encodeString nonce.bytes) (crates.base64.encodeString ciphertext))

def openWith (readNonce : String → Except String (List UInt8)) (key : SecretKey) (nonce ciphertext : String) (aad : List UInt8) :
    Except CryptoError (List UInt8) := do
  let nonceBytes ← (readNonce nonce).mapError (fun e => .invalidEncoding s!"invalid nonce base64: {e}")
  if nonceBytes.length ≠ nonceLen then .error (.invalidKeyLength nonceLen nonceBytes.length) else do
  let ciphertextBytes ← (crates.base64.decodeVec ciphertext).mapError (fun e => .invalidEncoding s!"invalid ciphertext base64: {e}")
  match crates.cipher.decrypt key.bytes nonceBytes aad ciphertextBytes with
  | none => .error .decryptionFailed
  | some plaintext => .ok plaintext

def buildChunkAad (version : UInt32) (attachmentId : String) (chunkIndex totalChunks : UInt32) : List UInt8 :=
  utf8 "zk-attachment-chunk-aad:" ++ bytesOf32 version ++ utf8 ":" ++ utf8 attachmentId ++ utf8 ":" ++ bytesOf32 chunkIndex ++ utf8 ":" ++
    bytesOf32 totalChunks

def encryptChunk (nonce : Nonce) (plaintext : List UInt8) (attachmentKey : SecretKey) (attachmentId : String) (chunkIndex totalChunks : UInt32) :
    Except CryptoError EncryptedChunk :=
  sealAs crates (EncryptedChunk.mk attachmentChunkVersionV1 attachmentId chunkIndex totalChunks) nonce attachmentKey
    (buildChunkAad attachmentChunkVersionV1 attachmentId chunkIndex totalChunks) plaintext

def decryptChunk (chunk : EncryptedChunk) (attachmentKey : SecretKey) : Except CryptoError (List UInt8) :=
  if chunk.version ≠ attachmentChunkVersionV1 then .error (.unsupportedVersion chunk.version) else
  openWith crates (crates.base64.decode nonceLen) attachmentKey chunk.nonce chunk.ciphertext
    (buildChunkAad chunk.version chunk.attachmentId chunk.chunkIndex chunk.totalChunks)

def buildAad (envelopeVersion : UInt32) (objectId : String) (objectKind : UInt16) : List UInt8 :=
  utf8 "zk-envelope-aad:" ++ bytesOf32 envelopeVersion ++ utf8 ":" ++ utf8 objectId ++ utf8 ":" ++ bytesOf16 objectKind

def encryptObjectPayload (nonce : Nonce) (plaintext : List UInt8) (objectKey : SecretKey) (envelopeVersion : UInt32) (objectId : String)
    (objectKind : UInt16) : Except CryptoError EncryptedPayloadContainer :=
  sealAs crates EncryptedPayloadContainer.mk nonce objectKey (buildAad envelopeVersion objectId objectKind) plaintext

def decryptObjectPayload (container : EncryptedPayloadContainer) (objectKey : SecretKey) (envelopeVersion : UInt32) (objectId : String)
    (objectKind : UInt16) : Except CryptoError (List UInt8) :=
  openWith crates crates.base64.decodeVec objectKey container.nonce container.ciphertext (buildAad envelopeVersion objectId objectKind)

def wrapAttachmentKey (nonce : Nonce) (attachmentKey vaultKey : SecretKey) (envelopeVersion : UInt32) (attachmentId : String) :
    Except CryptoError EncryptedKeyContainer :=
  sealAs crates EncryptedKeyContainer.mk nonce vaultKey (buildAad envelopeVersion attachmentId objectKindAttachmentManifest) attachmentKey.bytes

def unwrapAttachmentKey (container : EncryptedKeyContainer) (vaultKey : SecretKey) (envelopeVersion : UInt32) (attachmentId : String) :
    Except CryptoError SecretKey := do
  let keyBytes ← openWith crates (crates.base64.decode nonceLen) vaultKey container.nonce container.ciphertext
    (buildAad envelopeVersion attachmentId objectKindAttachmentManifest)
  SecretKey.fromSlice keyBytes

end

section
variable {crates : CryptoCrates} {nonce : Nonce} {key : SecretKey} {aad msg : List UInt8}

theorem from_slice (key : SecretKey) : SecretKey.fromSlice key.bytes = .ok key := by
  unfold SecretKey.fromSlice
  rw [dif_pos key.sized]

theorem sealed_as {α : Type} {container : (nonce ciphertext : String) → α} {made : α} (done : sealAs crates container nonce key aad msg = .ok made) :
    ∃ ciphertext, crates.cipher.encrypt key.bytes nonce.bytes aad msg = .ok ciphertext ∧
      made = container (crates.base64.encodeString nonce.bytes) (crates.base64.encodeString ciphertext) := by
  unfold sealAs at done
  split at done
  · cases done
  · rename_i ciphertext is
    cases done
    exact ⟨ciphertext,is,rfl⟩

-- What one key has sealed it opens.
theorem sealed_opens (lawful : crates.Lawful) {ciphertext : List UInt8} {readNonce : String → Except String (List UInt8)}
    (reads : readNonce (crates.base64.encodeString nonce.bytes) = .ok nonce.bytes)
    (is : crates.cipher.encrypt key.bytes nonce.bytes aad msg = .ok ciphertext) :
    openWith crates readNonce key (crates.base64.encodeString nonce.bytes) (crates.base64.encodeString ciphertext) aad = .ok msg := by
  unfold openWith
  rw [reads,lawful.base64.decodeVec]
  show (if nonce.bytes.length ≠ nonceLen then _ else _) = _
  rw [if_neg (not_not.mpr nonce.sized)]
  show (match crates.cipher.decrypt key.bytes nonce.bytes aad ciphertext with | none => _ | some plaintext => _) = _
  rw [lawful.cipher.opens _ _ _ _ _ is]

theorem seal_refused {α : Type} {container : (nonce ciphertext : String) → α} {e : CryptoError}
    (failed : sealAs crates container nonce key aad msg = .error e) :
    ∃ text, crates.cipher.encrypt key.bytes nonce.bytes aad msg = .error text ∧ e = .aeadFailure text := by
  unfold sealAs at failed
  split at failed
  · rename_i text refused
    cases failed
    exact ⟨text,refused,rfl⟩
  · cases failed

theorem reads_nonce (lawful : crates.Lawful) (nonce : Nonce) :
    crates.base64.decode nonceLen (crates.base64.encodeString nonce.bytes) = .ok nonce.bytes :=
  lawful.base64.decode _ _ (Nat.le_of_eq nonce.sized)

-- Chunks, payloads and wrapped keys open to what was sealed in them.
theorem chunk_decrypted (lawful : crates.Lawful) {attachmentId : String} {chunkIndex totalChunks : UInt32} {chunk : EncryptedChunk}
    (done : encryptChunk crates nonce msg key attachmentId chunkIndex totalChunks = .ok chunk) : decryptChunk crates chunk key = .ok msg := by
  obtain ⟨_,is,rfl⟩ := sealed_as done
  rw [decryptChunk,if_neg (by simp),sealed_opens lawful (reads_nonce lawful nonce) is]

theorem payload_decrypted (lawful : crates.Lawful) {version : UInt32} {objectId : String} {objectKind : UInt16} {payload : EncryptedPayloadContainer}
    (done : encryptObjectPayload crates nonce msg key version objectId objectKind = .ok payload) :
    decryptObjectPayload crates payload key version objectId objectKind = .ok msg := by
  obtain ⟨_,is,rfl⟩ := sealed_as done
  exact sealed_opens lawful (lawful.base64.decodeVec nonce.bytes) is

theorem attachment_key_unwrapped (lawful : crates.Lawful) {attachmentKey : SecretKey} {version : UInt32} {attachmentId : String}
    {wrapped : EncryptedKeyContainer} (done : wrapAttachmentKey crates nonce attachmentKey key version attachmentId = .ok wrapped) :
    unwrapAttachmentKey crates wrapped key version attachmentId = .ok attachmentKey := by
  obtain ⟨_,is,rfl⟩ := sealed_as done
  unfold unwrapAttachmentKey
  rw [sealed_opens lawful (reads_nonce lawful nonce) is]
  exact from_slice attachmentKey

end

end ZkNote.AttachmentCrypto
