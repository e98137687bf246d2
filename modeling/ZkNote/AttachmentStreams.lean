import ZkNote.Attachments

namespace ZkNote.AttachmentStreams
open Fallible Protocol ChunkFormat AttachmentCrypto Attachments

section
variable (crates : AttachmentCrates)

-- The buffer of one chunk is made before the first read. `vec!` panics on more
-- bytes than the allocator grants, and then there is no result.
def encryptStreamWithin {σ : Type} (capacity : Nat) (nonces : Nat → Nonce) (reader : Reader) (totalSize : Nat) (params : AttachmentEncryptParams)
    (key : SecretKey) (onChunk : σ → EncryptedChunk → Except CoreError σ) (sink : σ) : Option (Except CoreError (AttachmentManifest × σ)) :=
  if totalSize ≤ maxAttachmentSize ∧ totalSize ≠ 0 ∧ capacity < params.chunkSize then none
  else some (encryptAttachmentStreamWithSink crates nonces reader totalSize params key onChunk sink)

-- `Write`.
structure Writer (ω : Type) where
  writeAll : ω → List UInt8 → Except String ω
  flush : ω → Except String ω

-- `Vec<u8>`.
def vec : Writer (List UInt8) := ⟨fun w piece => .ok (w ++ piece),.ok⟩

-- The loop's variables; the hasher and the count of bytes are the bytes so far.
structure Opening (ω : Type) where
  expectedChunkIndex : UInt32
  expectedTotalChunks : Option UInt32
  opened : List UInt8
  written : ω

def checkTotal (expectedTotalChunks : Option UInt32) (chunk : EncryptedChunk) : Except CoreError UInt32 :=
  match expectedTotalChunks with
  | none => .ok chunk.totalChunks
  | some expected =>
    if chunk.totalChunks ≠ expected then .error (.attachment (.chunkCountMismatch expected chunk.totalChunks)) else .ok expected

def checkChunk (manifest : Option AttachmentManifest) (chunk : EncryptedChunk) : Except CoreError Unit :=
  match manifest with
  | none => .ok ()
  | some m =>
    if chunk.attachmentId ≠ m.attachmentId then .error (.attachment (.attachmentIdMismatch m.attachmentId chunk.attachmentId)) else
    if chunk.totalChunks ≠ m.chunkCount then .error (.attachment (.chunkCountMismatch m.chunkCount chunk.totalChunks)) else .ok ()

def checkContents (manifest : Option AttachmentManifest) (opened : List UInt8) : Except CoreError Unit :=
  match manifest with
  | none => .ok ()
  | some m =>
    if opened.length ≠ m.size then .error (.attachment (.sizeMismatch m.size opened.length)) else
    match m.contentHash with
    | none => .ok ()
    | some expectedHash =>
      if computeContentHash crates opened ≠ expectedHash then .error (.attachment (.hashMismatch expectedHash (computeContentHash crates opened)))
      else .ok ()

section
variable {ω : Type} (key : SecretKey) (manifest : Option AttachmentManifest) (writer : Writer ω)

def decryptNext (st : Opening ω) (chunk : EncryptedChunk) : Except CoreError (Opening ω) :=
  if chunk.chunkIndex ≠ st.expectedChunkIndex then .error (.attachment (.chunkOutOfOrder st.expectedChunkIndex chunk.chunkIndex)) else do
  let expected ← checkTotal st.expectedTotalChunks chunk
  checkChunk manifest chunk
  let plaintext ← (decryptChunk crates.toCryptoCrates chunk key).mapError .crypto
  let written ← (writer.writeAll st.written plaintext).mapError (.attachment ∘ .io)
  return ⟨st.expectedChunkIndex+1,some expected,st.opened ++ plaintext,written⟩

def decryptAttachmentStreamWithSource (chunks : List EncryptedChunk) (w : ω) : Except CoreError (Nat × ω) := do
  let st ← chunks.foldlM (decryptNext crates key manifest writer) ⟨0,none,[],w⟩
  match st.expectedTotalChunks with
  | none => .error (.attachment (.chunkCountMismatch 1 0))
  | some total =>
    if st.expectedChunkIndex ≠ total then .error (.attachment (.chunkCountMismatch total st.expectedChunkIndex)) else do
    checkContents crates manifest st.opened
    let written ← (writer.flush st.written).mapError (.attachment ∘ .io)
    return (st.opened.length,written)

end

end

end ZkNote.AttachmentStreams
