import ZkNote.AttachmentCrypto

namespace ZkNote.ObjectEnvelopes
open Fallible Protocol ChunkFormat AttachmentCrypto

section
variable (crates : CryptoCrates)

def wrapObjectKey (nonce : Nonce) (objectKey vaultKey : SecretKey) (envelopeVersion : UInt32) (objectId : String) (objectKind : UInt16) :
    Except CryptoError EncryptedKeyContainer :=
  sealAs crates EncryptedKeyContainer.mk nonce vaultKey (buildAad envelopeVersion objectId objectKind) objectKey.bytes

def unwrapObjectKey (container : EncryptedKeyContainer) (vaultKey : SecretKey) (envelopeVersion : UInt32) (objectId : String)
    (objectKind : UInt16) : Except CryptoError SecretKey := do
  let plaintext ← openWith crates crates.base64.decodeVec vaultKey container.nonce container.ciphertext
    (buildAad envelopeVersion objectId objectKind)
  SecretKey.fromSlice plaintext

-- What `OsRng` gives for one envelope.
structure EnvelopeDraw where
  objectKey : SecretKey
  wrapNonce : Nonce
  payloadNonce : Nonce

def encryptEnvelope (draw : EnvelopeDraw) (plaintext : List UInt8) (vaultKey : SecretKey) (objectId : String) (objectKind : UInt16) :
    Except CryptoError EncryptedEnvelope := do
  let wrappedKey ← wrapObjectKey crates draw.wrapNonce draw.objectKey vaultKey envelopeVersionV1 objectId objectKind
  let payload ← encryptObjectPayload crates draw.payloadNonce plaintext draw.objectKey envelopeVersionV1 objectId objectKind
  return ⟨envelopeVersionV1,objectId,objectKind,wrappedKey,payload⟩

def decryptEnvelope (envelope : EncryptedEnvelope) (vaultKey : SecretKey) : Except CryptoError (List UInt8) :=
  if envelope.envelopeVersion ≠ envelopeVersionV1 then .error (.unsupportedVersion envelope.envelopeVersion) else do
  let objectKey ← unwrapObjectKey crates envelope.wrappedKey vaultKey envelope.envelopeVersion envelope.objectId envelope.objectKind
  decryptObjectPayload crates envelope.payload objectKey envelope.envelopeVersion envelope.objectId envelope.objectKind

end

variable {crates : CryptoCrates} {nonce : Nonce} {draw : EnvelopeDraw} {plaintext : List UInt8} {objectKey vaultKey : SecretKey}
  {version : UInt32} {objectId : String} {objectKind : UInt16} {envelope : EncryptedEnvelope} {e : CryptoError}

theorem key_unwrapped (lawful : crates.Lawful) {container : EncryptedKeyContainer}
    (done : wrapObjectKey crates nonce objectKey vaultKey version objectId objectKind = .ok container) :
    unwrapObjectKey crates container vaultKey version objectId objectKind = .ok objectKey := by
  obtain ⟨ciphertext,is,rfl⟩ := sealed_as done
  have opened := sealed_opens lawful (lawful.base64.decodeVec nonce.bytes) is
  unfold unwrapObjectKey
  rw [opened]
  exact from_slice objectKey

-- What an envelope that was made names, and that it opens under the same key.
theorem envelope_opens (lawful : crates.Lawful) (done : encryptEnvelope crates draw plaintext vaultKey objectId objectKind = .ok envelope) :
    envelope.envelopeVersion = envelopeVersionV1 ∧ envelope.objectId = objectId ∧ envelope.objectKind = objectKind ∧
      decryptEnvelope crates envelope vaultKey = .ok plaintext := by
  obtain ⟨wrappedKey,wrapped,done⟩ := bind_done done
  obtain ⟨payload,sealedPayload,done⟩ := bind_done done
  cases done
  refine ⟨rfl,rfl,rfl,?_⟩
  unfold decryptEnvelope
  rw [if_neg (by simp),key_unwrapped lawful wrapped]
  exact payload_decrypted lawful sealedPayload

-- Only the cipher can refuse an envelope.
theorem envelope_refused (failed : encryptEnvelope crates draw plaintext vaultKey objectId objectKind = .error e) :
    ∃ key nonce aad msg text, crates.cipher.encrypt key nonce aad msg = .error text ∧ e = .aeadFailure text := by
  rcases bind_failed failed with failed | ⟨wrappedKey,_,failed⟩
  · exact ⟨_,_,_,_,seal_refused failed⟩
  · rcases bind_failed failed with failed | ⟨payload,_,failed⟩
    · exact ⟨_,_,_,_,seal_refused failed⟩
    · cases failed

end ZkNote.ObjectEnvelopes
