import ZkNote.Attachments
import ZkNote.IndexedDb
import ZkNote.ServerBlobs
import ZkNote.WebMerge

namespace ZkNote.AttachmentManager
open Fallible Protocol KeyedTable LocalStorage ChunkFormat AttachmentCrypto Attachments IndexedDb ServerBlobs
open LocalEdits (objectKindAttachmentManifest)

structure AttachmentManifestDto where
  attachmentId : String
  name : String
  mime : String
  size : Nat
  chunkCount : Nat
  chunkSize : Nat
  contentHash : Option String
  deriving DecidableEq, Repr

inductive WasmError where
  | crypto (message : String)
  | invalidPayload (message : String)
  deriving DecidableEq, Repr

def WasmError.display : WasmError → String
  | .crypto message => s!"cryptographic error: {message}"
  | .invalidPayload message => s!"invalid payload: {message}"

-- The page's crates: what serde_json says of a number that is too large, and how
-- the server's error prints.
structure PageCrates extends AttachmentCrates where
  outOfRange : AttachmentManifestDto → String
  errorText : ErrorResponse → String

def AttachmentManifestDto.parse (crates : PageCrates) (dto : AttachmentManifestDto) : Except String AttachmentManifest :=
  if dto.size < 2^64 ∧ dto.chunkCount < 2^32 ∧ dto.chunkSize < 2^32 then
    .ok ⟨dto.attachmentId,dto.name,dto.mime,dto.size,dto.chunkCount.toUInt32,dto.chunkSize.toUInt32,dto.contentHash⟩
  else .error (crates.outOfRange dto)

def AttachmentManifestDto.ofManifest (manifest : AttachmentManifest) : AttachmentManifestDto :=
  ⟨manifest.attachmentId,manifest.name,manifest.mime,manifest.size,manifest.chunkCount.toNat,manifest.chunkSize.toNat,manifest.contentHash⟩

-- `worker/vault-handler.ts` and the session behind it, whose `usize` has 32 bits.
section
variable (crates : PageCrates) (session : Option SecretKey)

def lockedMessage : String := "Vault is locked. Unlock the vault to perform this operation."

def readKey (attachmentKeyBase64 : String) : Except String SecretKey := do
  let keyBytes ← (crates.base64.decodeVec attachmentKeyBase64).mapError (fun e => (WasmError.crypto e).display)
  (SecretKey.fromSlice keyBytes).mapError (fun e => (WasmError.crypto e.display).display)

def encryptAttachmentChunk (nonce : Nonce) (chunkBytes : List UInt8) (attachmentId : String) (chunkIndex totalChunks : Nat)
    (attachmentKeyBase64 : String) : Except String (List UInt8) :=
  if session.isNone then .error lockedMessage else do
  let attachmentKey ← readKey crates attachmentKeyBase64
  let encrypted ← (encryptChunk crates.toCryptoCrates nonce chunkBytes attachmentKey attachmentId chunkIndex.toUInt32 totalChunks.toUInt32).mapError
    (fun e => (WasmError.crypto e.display).display)
  (encrypted.toBytes crates.base64).mapError (fun e => (WasmError.crypto e.display).display)

def decryptAttachmentChunk (chunkBinary : List UInt8) (attachmentKeyBase64 : String) : Except String (List UInt8) :=
  if session.isNone then .error lockedMessage else do
  let attachmentKey ← readKey crates attachmentKeyBase64
  match EncryptedChunk.fromBytes crates.base64 32 chunkBinary with
  | none => .error "unreachable"
  | some parsed => do
  let chunk ← parsed.mapError (fun e => (WasmError.invalidPayload e.display).display)
  (decryptChunk crates.toCryptoCrates chunk attachmentKey).mapError (fun e => (WasmError.crypto s!"chunk decryption failed: {e.display}").display)

def encryptManifest (payloadNonce wrapNonce : Nonce) (dto : AttachmentManifestDto) (attachmentKeyBase64 : String) : Except String EncryptedEnvelope :=
  match session with
  | none => .error lockedMessage
  | some key => do
  let manifest ← (dto.parse crates).mapError (fun e => (WasmError.invalidPayload e).display)
  let attachmentKey ← readKey crates attachmentKeyBase64
  (encryptAttachmentManifest crates.toAttachmentCrates payloadNonce wrapNonce manifest attachmentKey key).mapError
    (fun e => (WasmError.crypto e.display).display)

def decryptManifest (envelope : EncryptedEnvelope) : Except String (AttachmentManifestDto × String) :=
  match session with
  | none => .error lockedMessage
  | some key => do
  let (manifest,attachmentKey) ← (decryptAttachmentManifest crates.toAttachmentCrates envelope key).mapError
    (fun e => (WasmError.crypto s!"manifest decryption failed: {e.display}").display)
  return (.ofManifest manifest,crates.base64.encodeString attachmentKey.bytes)

end

-- One tab with its database, and the server's blobs. `faults` says which of the
-- calls that the manager awaits come back with an error and nothing done.
structure Tab where
  db : WebDb
  blobs : BlobTable
  faults : Nat → Option String
  calls : Nat

def Script (α : Type) := Tab → Except String α × Tab

instance : Monad Script where
  pure a := fun tab => (.ok a,tab)
  bind x f := fun tab =>
    match x tab with
    | (.ok a,tab) => f a tab
    | (.error e,tab) => (.error e,tab)

section
variable {α : Type}

def check (result : Except String α) : Script α := fun tab => (result,tab)

def call (step : Tab → Except String (α × WebDb × BlobTable)) : Script α := fun tab =>
  match tab.faults tab.calls with
  | some e => (.error e,{tab with calls := tab.calls+1})
  | none =>
    match step tab with
    | .error e => (.error e,{tab with calls := tab.calls+1})
    | .ok (a,db,blobs) => (.ok a,{tab with db := db,blobs := blobs,calls := tab.calls+1})

-- A request to the worker, which touches neither store.
def ask (answer : Except String α) : Script α := call (fun tab => answer.map (fun a => (a,tab.db,tab.blobs)))

def onDb (step : WebDb → α × WebDb) : Script α := call (fun tab => .ok ((step tab.db).1,(step tab.db).2,tab.blobs))

end

def putBlob (blobId : String) (data : List UInt8) (createdAt : String) : Script Unit :=
  onDb (fun db => ((),{db with blobs := db.blobs.upsert ⟨blobId,data,data.length,createdAt⟩}))

def getBlob (blobId : String) : Script (Option (List UInt8)) := onDb (fun db => ((db.blobs.find blobId).map (·.data),db))

structure AttachmentFileSource where
  name : String
  type : String
  bytes : List UInt8

structure AttachmentManagerConfig where
  serverUrl : Option String
  authToken : Option String
  chunkSize : Option Nat

-- The account that the server finds for a token, its limits, and the clock.
structure Manager where
  crates : PageCrates
  session : Option SecretKey
  config : AttachmentManagerConfig
  account : (authToken : String) → Except ErrorResponse String
  limits : BlobConfig
  clock : (chunkIndex : Nat) → String

-- What one upload draws. The id is a UUID.
structure UploadDraw where
  attachmentId : String
  short : attachmentId.utf8ByteSize < 2^16
  attachmentKey : SecretKey
  nonces : Nat → Nonce
  payloadNonce : Nonce
  wrapNonce : Nonce
  mutationId : String
  now : String

def blobIdOf (attachmentId : String) (chunkIndex : Nat) : String := s!"{attachmentId}_{chunkIndex}"

-- `toFixed(1)` of a number of MiB.
def mebibytes (size : Nat) : String :=
  let tenths := (size*20+2^20) / 2^21
  s!"{tenths / 10}.{tenths % 10}"

section
variable (m : Manager)

-- `config.serverUrl && config.authToken`.
def AttachmentManagerConfig.online (config : AttachmentManagerConfig) : Option String :=
  match config.serverUrl,config.authToken with
  | some url,some token => if url = "" ∨ token = "" then none else some token
  | _,_ => none

def request {α : Type} (token : String) (failed : ErrorResponse → String) (handler : BlobTable → String → Except ErrorResponse (α × BlobTable)) :
    Script α :=
  call (fun tab =>
    match m.account token with
    | .error e => .error (failed e)
    | .ok account =>
      match handler tab.blobs account with
      | .error e => .error (failed e)
      | .ok (a,blobs) => .ok (a,tab.db,blobs))

def uploadCiphertextBlobToServer (token blobId : String) (chunkBinary : List UInt8) : Script Nat :=
  request m token (fun e => s!"Blob upload failed ({e.status}): {m.crates.errorText e}")
    (fun blobs account => putBlobHandler blobs account blobId m.limits chunkBinary)

def downloadCiphertextBlobFromServer (token blobId : String) : Script (List UInt8) :=
  request m token (fun e => s!"Failed to fetch blob '{blobId}' from server ({e.status})")
    (fun blobs account => (getBlobHandler blobs account blobId).map (fun data => (data,blobs)))

-- `fullBuffer.slice(start, end)`.
def chunkAt (bytes : List UInt8) (chunkSize chunkIndex : Nat) : List UInt8 :=
  (bytes.take (min (chunkIndex*chunkSize+chunkSize) bytes.length)).drop (chunkIndex*chunkSize)

def uploadChunks (draw : UploadDraw) (bytes : List UInt8) (chunkSize totalChunks : Nat) (attachmentKeyBase64 : String) :
    (left chunkIndex : Nat) → Script Unit
  | 0,_ => pure ()
  | left+1,chunkIndex => do
    let chunkBytes := if bytes.length = 0 then [] else chunkAt bytes chunkSize chunkIndex
    let chunkBinary ← ask (encryptAttachmentChunk m.crates m.session (draw.nonces chunkIndex) chunkBytes draw.attachmentId chunkIndex totalChunks
      attachmentKeyBase64)
    let blobId := blobIdOf draw.attachmentId chunkIndex
    putBlob blobId chunkBinary (m.clock chunkIndex)
    match m.config.online with
    | none => pure ()
    | some token => do
      let _ ← uploadCiphertextBlobToServer m token blobId chunkBinary
    uploadChunks draw bytes chunkSize totalChunks attachmentKeyBase64 left (chunkIndex+1)

-- Zero counts as missing.
def AttachmentManagerConfig.chunkSizeOrDefault (config : AttachmentManagerConfig) : Nat :=
  match config.chunkSize with
  | none | some 0 => defaultChunkSize
  | some chunkSize => chunkSize

def totalChunksOf (size chunkSize : Nat) : Nat := if size = 0 then 1 else (size+chunkSize-1) / chunkSize

def uploadAttachment (draw : UploadDraw) (file : AttachmentFileSource) : Script AttachmentManifestDto :=
  if maxAttachmentSize < file.bytes.length then
    check (.error s!"Attachment size ({mebibytes file.bytes.length} MiB) exceeds maximum allowed size (100 MiB)")
  else do
  let chunkSize := m.config.chunkSizeOrDefault
  let totalChunks := totalChunksOf file.bytes.length chunkSize
  let attachmentKeyBase64 ← ask (.ok (m.crates.base64.encodeString draw.attachmentKey.bytes))
  let fullBuffer ← ask (.ok file.bytes)
  let contentHash ← ask (.ok (computeContentHash m.crates.toAttachmentCrates fullBuffer))
  uploadChunks m draw fullBuffer chunkSize totalChunks attachmentKeyBase64 totalChunks 0
  let manifest : AttachmentManifestDto := ⟨draw.attachmentId,WebMerge.orElse file.name "attachment",WebMerge.orElse file.type "application/octet-stream",
    file.bytes.length,totalChunks,chunkSize,some contentHash⟩
  let envelope ← ask (encryptManifest m.crates m.session draw.payloadNonce draw.wrapNonce manifest attachmentKeyBase64)
  onDb (fun db => ((),db.putObject ⟨draw.attachmentId,objectKindAttachmentManifest,1,0,false,envelope,draw.now⟩))
  onDb (fun db => ((),db.enqueueMutation ⟨draw.mutationId,draw.attachmentId,0,objectKindAttachmentManifest,.upsert,envelope,draw.now,0,.pending⟩))
  return manifest

structure DownloadedAttachment where
  bytes : List UInt8
  name : String
  mime : String
  size : Nat
  deriving DecidableEq, Repr

-- The local database first, then the server, whose answer is kept.
def fetchChunk (blobId : String) (chunkIndex : Nat) : Script (List UInt8) := do
  match ← getBlob blobId with
  | some chunkBinary => return chunkBinary
  | none =>
    match m.config.online with
    | none => check (.error s!"Ciphertext blob '{blobId}' not available locally or offline.")
    | some token => do
      let chunkBinary ← downloadCiphertextBlobFromServer m token blobId
      putBlob blobId chunkBinary (m.clock chunkIndex)
      return chunkBinary

def downloadChunks (attachmentId attachmentKeyBase64 : String) : (left chunkIndex : Nat) → Script (List (List UInt8))
  | 0,_ => pure []
  | left+1,chunkIndex => do
    let chunkBinary ← fetchChunk m (blobIdOf attachmentId chunkIndex) chunkIndex
    let plaintextChunk ← ask (decryptAttachmentChunk m.crates m.session chunkBinary attachmentKeyBase64)
    let others ← downloadChunks attachmentId attachmentKeyBase64 left (chunkIndex+1)
    return plaintextChunk :: others

def downloadAttachment (attachmentId : String) : Script DownloadedAttachment := do
  match ← onDb (fun db => (db.getObject attachmentId,db)) with
  | none => check (.error s!"Attachment manifest '{attachmentId}' not found.")
  | some stored =>
    if stored.isDeleted then check (.error s!"Attachment manifest '{attachmentId}' not found.") else do
    let (manifest,attachmentKeyBase64) ← ask (decryptManifest m.crates m.session stored.envelope)
    let decryptedChunks ← downloadChunks m manifest.attachmentId attachmentKeyBase64 manifest.chunkCount 0
    let fullDecrypted := decryptedChunks.flatten
    match manifest.contentHash with
    | none => pure ()
    | some contentHash =>
      if contentHash = "" then pure () else do
      let actualHash ← ask (.ok (computeContentHash m.crates.toAttachmentCrates fullDecrypted))
      if actualHash ≠ contentHash then check (.error "Attachment integrity verification failed: hash mismatch.") else pure ()
    return ⟨fullDecrypted,manifest.name,manifest.mime,manifest.size⟩

end

end ZkNote.AttachmentManager
