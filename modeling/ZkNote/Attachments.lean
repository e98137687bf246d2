import ZkNote.AttachmentCrypto
import ZkNote.PlaintextNotes
import ZkNote.VaultIdentity

namespace ZkNote.Attachments
open Fallible Protocol ChunkFormat AttachmentCrypto PlaintextNotes
open LocalEdits (objectKindAttachmentManifest AttachmentCodec)

def defaultChunkSize : Nat := 4*1024*1024
def maxAttachmentSize : Nat := 100*1024*1024

structure AttachmentManifest where
  attachmentId : String
  name : String
  mime : String
  size : Nat
  chunkCount : UInt32
  chunkSize : UInt32
  contentHash : Option String
  deriving DecidableEq, Repr

inductive AttachmentError where
  | fileTooLarge (max actual : Nat)
  | chunkOutOfOrder (expected actual : UInt32)
  | chunkCountMismatch (expected actual : UInt32)
  | sizeMismatch (expected actual : Nat)
  | hashMismatch (expected actual : String)
  | attachmentIdMismatch (expected actual : String)
  | io (message : String)
  deriving DecidableEq, Repr

inductive CoreError where
  | serialization (message : String)
  | crypto (error : CryptoError)
  | attachment (error : AttachmentError)
  deriving DecidableEq, Repr

def AttachmentError.display : AttachmentError → String
  | .fileTooLarge max actual => s!"attachment exceeds maximum size ({actual} > {max} bytes)"
  | .chunkOutOfOrder expected actual => s!"attachment chunk out of order (expected chunk {expected}, got {actual})"
  | .chunkCountMismatch expected actual => s!"attachment chunk count mismatch (expected {expected} chunks, got {actual})"
  | .sizeMismatch expected actual => s!"attachment size mismatch (expected {expected} bytes, decrypted {actual} bytes)"
  | .hashMismatch expected actual => s!"attachment content hash mismatch (expected {expected}, computed {actual})"
  | .attachmentIdMismatch expected actual => s!"attachment ID mismatch (expected {expected}, got {actual})"
  | .io message => s!"attachment I/O failure: {message}"

def CoreError.display : CoreError → String
  | .serialization message => s!"note validation error: note serialization error: {message}"
  | .crypto error => s!"crypto error: {error.display}"
  | .attachment error => s!"attachment error: {error.display}"

-- What the attachment layer takes from elsewhere: the ciphers, BLAKE2b-512, and
-- serde_json on manifests.
structure AttachmentCrates extends CryptoCrates where
  blake2b512 : List UInt8 → List UInt8
  toJson : AttachmentManifest → Except String (List UInt8)
  fromJson : List UInt8 → Except String AttachmentManifest

structure AttachmentCrates.Lawful (crates : AttachmentCrates) : Prop where
  crypto : crates.toCryptoCrates.Lawful
  json : ∀ manifest bytes, crates.toJson manifest = .ok bytes → crates.fromJson bytes = .ok manifest

def calculateChunkCount (size chunkSize : Nat) : UInt32 := if size = 0 then 1 else ((size+chunkSize-1) / chunkSize).toUInt32

-- A chunk size of zero, which divides by zero, cannot be built.
structure AttachmentEncryptParams where
  attachmentId : String
  name : String
  mime : String
  chunkSize : Nat
  positive : 0 < chunkSize

-- `Read`: an error, or between one byte and as many as there is room for; nothing
-- only at the end.
structure Reader where
  contents : List UInt8
  gives : Nat → Except String Nat
  calls : Nat

def Reader.read (r : Reader) (room : Nat) : Except String (List UInt8 × Reader) :=
  match r.gives r.calls with
  | .error e => .error e
  | .ok most =>
    let n := min (max most 1) room
    .ok (r.contents.take n,{r with contents := r.contents.drop n,calls := r.calls+1})

-- The inner loop. Each round but the last reads something, so there are at most
-- as many as there is room.
def fillChunk : (rounds room : Nat) → Reader → Except String (List UInt8 × Reader)
  | 0,_,r => .ok ([],r)
  | rounds+1,room,r =>
    if room = 0 then .ok ([],r) else do
    let (got,r) ← r.read room
    if got = [] then .ok ([],r) else do
    let (more,r) ← fillChunk rounds (room-got.length) r
    return (got ++ more,r)

section
variable (crates : AttachmentCrates)

def computeContentHash (bytes : List UInt8) : String := String.ofList (VaultIdentity.hex (crates.blake2b512 bytes))

-- The loop's variables; the hasher and the count of bytes are the bytes so far.
structure Stream (σ : Type) where
  reader : Reader
  hashed : List UInt8
  chunkIndex : Nat
  sink : σ

section
variable {σ : Type} (nonces : Nat → Nonce) (params : AttachmentEncryptParams) (key : SecretKey) (chunkCount : UInt32)
  (onChunk : σ → EncryptedChunk → Except CoreError σ)

def streamChunks : (left : Nat) → Stream σ → Except CoreError (Stream σ)
  | 0,st => .ok st
  | left+1,st => do
    let (chunk,reader) ← (fillChunk params.chunkSize params.chunkSize st.reader).mapError (.attachment ∘ .io)
    if chunk = [] ∧ 0 < st.chunkIndex then .ok {st with reader := reader} else do
    let hashed := st.hashed ++ chunk
    if maxAttachmentSize < hashed.length then .error (.attachment (.fileTooLarge maxAttachmentSize hashed.length)) else do
    let encrypted ← (encryptChunk crates.toCryptoCrates (nonces st.chunkIndex) chunk key params.attachmentId st.chunkIndex.toUInt32
      chunkCount).mapError .crypto
    let sink ← onChunk st.sink encrypted
    streamChunks left ⟨reader,hashed,st.chunkIndex+1,sink⟩

end

def encryptAttachmentStreamWithSink {σ : Type} (nonces : Nat → Nonce) (reader : Reader) (totalSize : Nat) (params : AttachmentEncryptParams)
    (key : SecretKey) (onChunk : σ → EncryptedChunk → Except CoreError σ) (sink : σ) : Except CoreError (AttachmentManifest × σ) :=
  if maxAttachmentSize < totalSize then .error (.attachment (.fileTooLarge maxAttachmentSize totalSize)) else
  let chunkCount := calculateChunkCount totalSize params.chunkSize
  if totalSize = 0 then do
    let encrypted ← (encryptChunk crates.toCryptoCrates (nonces 0) [] key params.attachmentId 0 1).mapError .crypto
    let sink ← onChunk sink encrypted
    return (⟨params.attachmentId,params.name,params.mime,0,1,params.chunkSize.toUInt32,some (computeContentHash crates [])⟩,sink)
  else do
    let st ← streamChunks crates nonces params key chunkCount onChunk chunkCount.toNat ⟨reader,[],0,sink⟩
    if st.hashed.length ≠ totalSize then .error (.attachment (.sizeMismatch totalSize st.hashed.length)) else
    return (⟨params.attachmentId,params.name,params.mime,totalSize,chunkCount,params.chunkSize.toUInt32,some (computeContentHash crates st.hashed)⟩,
      st.sink)

def encryptAttachmentStream (nonces : Nat → Nonce) (reader : Reader) (totalSize : Nat) (params : AttachmentEncryptParams) (key : SecretKey) :
    Except CoreError (AttachmentManifest × List EncryptedChunk) :=
  encryptAttachmentStreamWithSink crates nonces reader totalSize params key (fun chunks chunk => .ok (chunks ++ [chunk])) []

-- A file that nobody changes while it is read.
structure SourceFile where
  fileName : Option String
  contents : List UInt8
  gives : Nat → Except String Nat

def encryptAttachmentFile (nonces : Nat → Nonce) (source : SourceFile) (attachmentId : String) (key : SecretKey) (name mime : Option String)
    (chunkSize : Option { n : Nat // 0 < n }) : Except CoreError (AttachmentManifest × List EncryptedChunk) :=
  let resolvedChunkSize : { n : Nat // 0 < n } := chunkSize.getD ⟨defaultChunkSize,by decide⟩
  let params : AttachmentEncryptParams := ⟨attachmentId,name.getD (source.fileName.getD "attachment.bin"),
    mime.getD "application/octet-stream",resolvedChunkSize.1,resolvedChunkSize.2⟩
  encryptAttachmentStream crates nonces ⟨source.contents,source.gives,0⟩ source.contents.length params key

def encryptAttachmentManifest (payloadNonce wrapNonce : Nonce) (manifest : AttachmentManifest) (attachmentKey vaultKey : SecretKey) :
    Except CoreError EncryptedEnvelope := do
  let manifestJson ← (crates.toJson manifest).mapError .serialization
  let payload ← (encryptObjectPayload crates.toCryptoCrates payloadNonce manifestJson attachmentKey envelopeVersionV1 manifest.attachmentId
    objectKindAttachmentManifest).mapError .crypto
  let wrappedKey ← (wrapAttachmentKey crates.toCryptoCrates wrapNonce attachmentKey vaultKey envelopeVersionV1 manifest.attachmentId).mapError .crypto
  return ⟨envelopeVersionV1,manifest.attachmentId,objectKindAttachmentManifest,wrappedKey,payload⟩

def decryptAttachmentManifest (envelope : EncryptedEnvelope) (vaultKey : SecretKey) : Except CoreError (AttachmentManifest × SecretKey) :=
  if envelope.envelopeVersion ≠ envelopeVersionV1 then .error (.crypto (.unsupportedVersion envelope.envelopeVersion)) else
  if envelope.objectKind ≠ objectKindAttachmentManifest then
    .error (.serialization s!"expected object kind ATTACHMENT_MANIFEST ({objectKindAttachmentManifest}), got {envelope.objectKind}")
  else do
  let attachmentKey ← (unwrapAttachmentKey crates.toCryptoCrates envelope.wrappedKey vaultKey envelope.envelopeVersion envelope.objectId).mapError .crypto
  let plaintextBytes ← (decryptObjectPayload crates.toCryptoCrates envelope.payload attachmentKey envelope.envelopeVersion envelope.objectId
    envelope.objectKind).mapError .crypto
  let manifest ← (crates.fromJson plaintextBytes).mapError .serialization
  if manifest.attachmentId ≠ envelope.objectId then .error (.attachment (.attachmentIdMismatch envelope.objectId manifest.attachmentId)) else
  return (manifest,attachmentKey)

-- A fresh key and fresh nonces.
structure Entropy where
  attachmentKey : SecretKey
  nonces : Nat → Nonce
  payloadNonce : Nonce
  wrapNonce : Nonce

-- The attachment layer as `cmd_attach` and `cmd_detach` call it: of the file's
-- encryption they keep the manifest.
def attachmentCodec (entropy : Nat → Entropy) : AttachmentCodec SecretKey PlaintextNote SourceFile where
  attachments note := note.attachments
  withAttachments note attachments updatedAt := {note with attachments := attachments,updatedAt := updatedAt}
  encryptManifest seed file attachmentId customName customMime vaultKey :=
    let drawn := entropy seed
    (do
      let (manifest,_chunks) ← encryptAttachmentFile crates drawn.nonces file attachmentId drawn.attachmentKey customName customMime none
      encryptAttachmentManifest crates drawn.payloadNonce drawn.wrapNonce manifest drawn.attachmentKey vaultKey).mapError CoreError.display

end

end ZkNote.Attachments
