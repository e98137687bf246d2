import ZkNote.Base64Text
import ZkNote.ObjectEnvelopes

namespace ZkNote.SealedMetadata
open Fallible ByteFields Protocol ChunkFormat AttachmentCrypto ObjectEnvelopes
open LocalEdits (objectKindAttachmentManifest)

-- What a ciphertext is bound to; `vault.rs` seals keys under no metadata at all.
inductive Metadata where
  | object (version : UInt32) (objectId : String) (objectKind : UInt16)
  | chunk (version : UInt32) (attachmentId : String) (chunkIndex totalChunks : UInt32)
  | vaultKey
  deriving DecidableEq

def Metadata.aad : Metadata → List UInt8
  | .object version objectId objectKind => buildAad version objectId objectKind
  | .chunk version attachmentId chunkIndex totalChunks => buildChunkAad version attachmentId chunkIndex totalChunks
  | .vaultKey => []

theorem bytes32_inj {m n : UInt32} (same : bytesOf32 m = bytesOf32 n) : m = n := by
  rw [← value32 m,← value32 n,same]

theorem bytes16_inj {m n : UInt16} (same : bytesOf16 m = bytesOf16 n) : m = n := by
  rw [← value16 m,← value16 n,same]

-- The widths on both sides of the id are fixed, so its own length is too.
theorem build_aad_inj {version version' : UInt32} {objectId objectId' : String} {objectKind objectKind' : UInt16}
    (same : buildAad version objectId objectKind = buildAad version' objectId' objectKind') :
    version = version' ∧ objectId = objectId' ∧ objectKind = objectKind' := by
  simp only [buildAad,List.append_assoc] at same
  have rest := List.append_cancel_left same
  obtain ⟨versions,rest⟩ := List.append_inj rest rfl
  have rest := List.append_cancel_left rest
  simp only [← List.append_assoc] at rest
  obtain ⟨rest,kinds⟩ := List.append_inj' rest rfl
  exact ⟨bytes32_inj versions,utf8_inj (List.append_cancel_right rest),bytes16_inj kinds⟩

theorem build_chunk_aad_inj {version version' : UInt32} {attachmentId attachmentId' : String} {chunkIndex chunkIndex' totalChunks totalChunks' : UInt32}
    (same : buildChunkAad version attachmentId chunkIndex totalChunks = buildChunkAad version' attachmentId' chunkIndex' totalChunks') :
    version = version' ∧ attachmentId = attachmentId' ∧ chunkIndex = chunkIndex' ∧ totalChunks = totalChunks' := by
  simp only [buildChunkAad,List.append_assoc] at same
  have rest := List.append_cancel_left same
  obtain ⟨versions,rest⟩ := List.append_inj rest rfl
  have rest := List.append_cancel_left rest
  simp only [← List.append_assoc] at rest
  obtain ⟨rest,totals⟩ := List.append_inj' rest rfl
  obtain ⟨rest,indices⟩ := List.append_inj' (List.append_cancel_right rest) rfl
  exact ⟨bytes32_inj versions,utf8_inj (List.append_cancel_right rest),bytes32_inj indices,bytes32_inj totals⟩

-- The labels already differ in their fourth letter.
theorem aads_disjoint (version version' : UInt32) (objectId attachmentId : String) (objectKind : UInt16) (chunkIndex totalChunks : UInt32) :
    buildAad version objectId objectKind ≠ buildChunkAad version' attachmentId chunkIndex totalChunks := by
  intro same
  have fourth := congrArg (fun bytes => bytes[3]?) same
  simp only [buildAad,buildChunkAad,List.append_assoc] at fourth
  rw [List.getElem?_append_left (by decide),List.getElem?_append_left (by decide)] at fourth
  exact absurd fourth (by decide)

theorem aad_inj {m n : Metadata} (same : m.aad = n.aad) : m = n := by
  have labelled : ∀ version objectId objectKind, buildAad version objectId objectKind ≠ [] := by
    intro version objectId objectKind empty
    have length := congrArg List.length empty
    simp [buildAad,length16] at length
  have chunkLabelled : ∀ version attachmentId chunkIndex totalChunks, buildChunkAad version attachmentId chunkIndex totalChunks ≠ [] := by
    intro version attachmentId chunkIndex totalChunks empty
    have length := congrArg List.length empty
    simp [buildChunkAad,length32] at length
  cases m with
  | object version objectId objectKind =>
      cases n with
      | object =>
          obtain ⟨rfl,rfl,rfl⟩ := build_aad_inj same
          rfl
      | chunk => exact absurd same (aads_disjoint _ _ _ _ _ _ _)
      | vaultKey => exact absurd same (labelled _ _ _)
  | chunk version attachmentId chunkIndex totalChunks =>
      cases n with
      | object => exact absurd same.symm (aads_disjoint _ _ _ _ _ _ _)
      | chunk =>
          obtain ⟨rfl,rfl,rfl,rfl⟩ := build_chunk_aad_inj same
          rfl
      | vaultKey => exact absurd same (chunkLabelled _ _ _ _)
  | vaultKey =>
      cases n with
      | object => exact absurd same.symm (labelled _ _ _)
      | chunk => exact absurd same.symm (chunkLabelled _ _ _ _)
      | vaultKey => rfl

-- One use of the cipher for sealing.
structure Sealing where
  key : SecretKey
  nonce : Nonce
  metadata : Metadata
  msg : List UInt8

def Sealing.ciphertext (cipher : Cipher) (s : Sealing) : Except String (List UInt8) :=
  cipher.encrypt s.key.bytes s.nonce.bytes s.metadata.aad s.msg

-- The functions of the crate that seal something.
inductive Call where
  | wrapObjectKey (nonce : Nonce) (objectKey vaultKey : SecretKey) (envelopeVersion : UInt32) (objectId : String) (objectKind : UInt16)
  | encryptObjectPayload (nonce : Nonce) (plaintext : List UInt8) (objectKey : SecretKey) (envelopeVersion : UInt32) (objectId : String)
      (objectKind : UInt16)
  | encryptEnvelope (draw : EnvelopeDraw) (plaintext : List UInt8) (vaultKey : SecretKey) (objectId : String) (objectKind : UInt16)
  | encryptChunk (nonce : Nonce) (plaintext : List UInt8) (attachmentKey : SecretKey) (attachmentId : String) (chunkIndex totalChunks : UInt32)
  | wrapAttachmentKey (nonce : Nonce) (attachmentKey vaultKey : SecretKey) (envelopeVersion : UInt32) (attachmentId : String)
  | wrapVaultKey (nonce : Nonce) (vaultKey wrappingKey : SecretKey)

def Call.sealings : Call → List Sealing
  | .wrapObjectKey nonce objectKey vaultKey version objectId objectKind => [⟨vaultKey,nonce,.object version objectId objectKind,objectKey.bytes⟩]
  | .encryptObjectPayload nonce plaintext objectKey version objectId objectKind => [⟨objectKey,nonce,.object version objectId objectKind,plaintext⟩]
  | .encryptEnvelope draw plaintext vaultKey objectId objectKind =>
      [⟨vaultKey,draw.wrapNonce,.object envelopeVersionV1 objectId objectKind,draw.objectKey.bytes⟩,
        ⟨draw.objectKey,draw.payloadNonce,.object envelopeVersionV1 objectId objectKind,plaintext⟩]
  | .encryptChunk nonce plaintext attachmentKey attachmentId chunkIndex totalChunks =>
      [⟨attachmentKey,nonce,.chunk attachmentChunkVersionV1 attachmentId chunkIndex totalChunks,plaintext⟩]
  | .wrapAttachmentKey nonce attachmentKey vaultKey version attachmentId =>
      [⟨vaultKey,nonce,.object version attachmentId objectKindAttachmentManifest,attachmentKey.bytes⟩]
  | .wrapVaultKey nonce vaultKey wrappingKey => [⟨wrappingKey,nonce,.vaultKey,vaultKey.bytes⟩]

-- An ideal cipher opens only what was sealed, with all that it was sealed under,
-- and no two sealings give one ciphertext.
structure Ideal (cipher : Cipher) (made : List Sealing) : Prop where
  authentic : ∀ key nonce aad ciphertext msg, cipher.decrypt key nonce aad ciphertext = some msg →
    ∃ s ∈ made, s.key.bytes = key ∧ s.nonce.bytes = nonce ∧ s.metadata.aad = aad ∧ s.msg = msg ∧ s.ciphertext cipher = .ok ciphertext
  apart : ∀ s ∈ made, ∀ t ∈ made, ∀ ciphertext, s.nonce.bytes = t.nonce.bytes → s.ciphertext cipher = .ok ciphertext →
    t.ciphertext cipher = .ok ciphertext → s.key.bytes = t.key.bytes ∧ s.metadata.aad = t.metadata.aad ∧ s.msg = t.msg

section
variable {crates : CryptoCrates} {made : List Sealing} {key : SecretKey} {nonceText ciphertextText : String} {msg : List UInt8}
  {readNonce : String → Except String (List UInt8)}

-- The two texts of a container show the nonce and the ciphertext of a sealing.
def Shows (crates : CryptoCrates) (readNonce : String → Except String (List UInt8)) (s : Sealing) (nonce ciphertext : String) : Prop :=
  ∃ bytes, readNonce nonce = .ok s.nonce.bytes ∧ crates.base64.decodeVec ciphertext = .ok bytes ∧ s.ciphertext crates.cipher = .ok bytes

theorem opened_sealing (metadata : Metadata) (ideal : Ideal crates.cipher made)
    (opens : openWith crates readNonce key nonceText ciphertextText metadata.aad = .ok msg) :
    ∃ s ∈ made, s.key.bytes = key.bytes ∧ s.metadata = metadata ∧ s.msg = msg ∧ Shows crates readNonce s nonceText ciphertextText := by
  unfold openWith at opens
  obtain ⟨nonceBytes,readsNonce,opens⟩ := bind_done opens
  split at opens
  · cases opens
  obtain ⟨ciphertext,reads,opens⟩ := bind_done opens
  split at opens
  · cases opens
  rename_i plaintext decrypted
  cases opens
  obtain ⟨s,inside,sameKey,sameNonce,sameAad,sameMsg,gave⟩ := ideal.authentic _ _ _ _ _ decrypted
  refine ⟨s,inside,sameKey,aad_inj sameAad,sameMsg,ciphertext,?_,mapped_done reads,gave⟩
  rw [sameNonce]
  exact mapped_done readsNonce

theorem shown_once (ideal : Ideal crates.cipher made) {s t : Sealing} (first : s ∈ made) (second : t ∈ made)
    (one : Shows crates readNonce s nonceText ciphertextText) (two : Shows crates readNonce t nonceText ciphertextText) : s.metadata = t.metadata := by
  obtain ⟨bytes,nonceRead,read,gave⟩ := one
  obtain ⟨bytes',nonceRead',read',gave'⟩ := two
  cases read.symm.trans read'
  exact aad_inj (ideal.apart s first t second bytes (Except.ok.inj (nonceRead.symm.trans nonceRead')) gave gave').2.1

theorem seal_shows (base64 : crates.base64.Lawful) {α : Type} {container : (nonce ciphertext : String) → α} {result : α} (s : Sealing)
    (reads : readNonce (crates.base64.encodeString s.nonce.bytes) = .ok s.nonce.bytes)
    (done : sealAs crates container s.nonce s.key s.metadata.aad s.msg = .ok result) :
    ∃ nonceText ciphertextText, result = container nonceText ciphertextText ∧ Shows crates readNonce s nonceText ciphertextText := by
  obtain ⟨ciphertext,gave,is⟩ := sealed_as done
  exact ⟨_,_,is,ciphertext,reads,base64.decodeVec ciphertext,gave⟩

end

section
variable {crates : CryptoCrates} {made : List Sealing} {vaultKey key : SecretKey} {plaintext : List UInt8}

theorem from_slice_bytes {bytes : List UInt8} (done : SecretKey.fromSlice bytes = .ok key) : key.bytes = bytes := by
  unfold SecretKey.fromSlice at done
  split at done
  · cases done
    rfl
  · cases done

-- Both sealings in an envelope that opens were made for the metadata it names.
theorem envelope_sealings (ideal : Ideal crates.cipher made) {envelope : EncryptedEnvelope}
    (opens : decryptEnvelope crates envelope vaultKey = .ok plaintext) :
    ∃ s ∈ made, ∃ t ∈ made,
      s.key.bytes = vaultKey.bytes ∧ s.metadata = .object envelope.envelopeVersion envelope.objectId envelope.objectKind ∧ s.msg = t.key.bytes ∧
      t.metadata = .object envelope.envelopeVersion envelope.objectId envelope.objectKind ∧ t.msg = plaintext ∧
      Shows crates crates.base64.decodeVec s envelope.wrappedKey.nonce envelope.wrappedKey.ciphertext ∧
      Shows crates crates.base64.decodeVec t envelope.payload.nonce envelope.payload.ciphertext := by
  unfold decryptEnvelope at opens
  split at opens
  · cases opens
  obtain ⟨objectKey,unwrapped,opens⟩ := bind_done opens
  obtain ⟨keyBytes,opened,sized⟩ := bind_done unwrapped
  obtain ⟨s,first,sameKey,sameMetadata,sameMsg,shows⟩ := opened_sealing (.object _ _ _) ideal opened
  obtain ⟨t,second,otherKey,otherMetadata,otherMsg,shows'⟩ := opened_sealing (.object _ _ _) ideal opens
  exact ⟨s,first,t,second,sameKey,sameMetadata,by rw [sameMsg,otherKey,from_slice_bytes sized],otherMetadata,otherMsg,shows,shows'⟩

theorem chunk_sealing (ideal : Ideal crates.cipher made) {chunk : EncryptedChunk} (opens : decryptChunk crates chunk key = .ok plaintext) :
    ∃ s ∈ made, s.key.bytes = key.bytes ∧ s.metadata = .chunk chunk.version chunk.attachmentId chunk.chunkIndex chunk.totalChunks ∧ s.msg = plaintext ∧
      Shows crates (crates.base64.decode nonceLen) s chunk.nonce chunk.ciphertext := by
  unfold decryptChunk at opens
  split at opens
  · cases opens
  exact opened_sealing (.chunk _ _ _ _) ideal opens

end

theorem metadata_bound :
    (∀ version objectId objectKind version' objectId' objectKind',
      buildAad version objectId objectKind = buildAad version' objectId' objectKind' → version = version' ∧ objectId = objectId' ∧ objectKind = objectKind') ∧
    (∀ version attachmentId chunkIndex totalChunks version' attachmentId' chunkIndex' totalChunks',
      buildChunkAad version attachmentId chunkIndex totalChunks = buildChunkAad version' attachmentId' chunkIndex' totalChunks' →
      version = version' ∧ attachmentId = attachmentId' ∧ chunkIndex = chunkIndex' ∧ totalChunks = totalChunks') ∧
    (∀ version objectId objectKind version' attachmentId chunkIndex totalChunks,
      buildAad version objectId objectKind ≠ buildChunkAad version' attachmentId chunkIndex totalChunks) ∧
    ∀ (crates : CryptoCrates) (calls : List Call), crates.base64.Lawful → Ideal crates.cipher (calls.flatMap Call.sealings) →
      -- What opens was sealed for the metadata it names.
      (∀ envelope vaultKey plaintext, decryptEnvelope crates envelope vaultKey = .ok plaintext →
        ∃ s ∈ calls.flatMap Call.sealings, ∃ t ∈ calls.flatMap Call.sealings, s.key.bytes = vaultKey.bytes ∧ s.msg = t.key.bytes ∧ t.msg = plaintext ∧
          s.metadata = .object envelope.envelopeVersion envelope.objectId envelope.objectKind ∧ t.metadata = s.metadata) ∧
      (∀ chunk key plaintext, decryptChunk crates chunk key = .ok plaintext →
        ∃ s ∈ calls.flatMap Call.sealings, s.key.bytes = key.bytes ∧ s.msg = plaintext ∧
          s.metadata = .chunk chunk.version chunk.attachmentId chunk.chunkIndex chunk.totalChunks) ∧
      -- A container that was made opens with the metadata given there, whatever is put around it.
      (∀ draw given vaultKey objectId objectKind made envelope key opened, .encryptEnvelope draw given vaultKey objectId objectKind ∈ calls →
        encryptEnvelope crates draw given vaultKey objectId objectKind = .ok made →
        envelope.wrappedKey = made.wrappedKey ∨ envelope.payload = made.payload → decryptEnvelope crates envelope key = .ok opened →
        envelope.envelopeVersion = envelopeVersionV1 ∧ envelope.objectId = objectId ∧ envelope.objectKind = objectKind) ∧
      ∀ nonce given attachmentKey attachmentId chunkIndex totalChunks made chunk key opened,
        .encryptChunk nonce given attachmentKey attachmentId chunkIndex totalChunks ∈ calls →
        encryptChunk crates nonce given attachmentKey attachmentId chunkIndex totalChunks = .ok made →
        chunk.nonce = made.nonce ∧ chunk.ciphertext = made.ciphertext → decryptChunk crates chunk key = .ok opened →
        chunk.version = attachmentChunkVersionV1 ∧ chunk.attachmentId = attachmentId ∧ chunk.chunkIndex = chunkIndex ∧ chunk.totalChunks = totalChunks := by
  refine ⟨fun _ _ _ _ _ _ => build_aad_inj,fun _ _ _ _ _ _ _ _ => build_chunk_aad_inj,fun _ _ _ _ _ _ _ => aads_disjoint _ _ _ _ _ _ _,?_⟩
  intro crates calls base64 ideal
  refine ⟨?_,?_,?_,?_⟩
  · intro envelope vaultKey plaintext opens
    obtain ⟨s,first,t,second,sameKey,sameMetadata,inner,otherMetadata,otherMsg,_⟩ := envelope_sealings ideal opens
    exact ⟨s,first,t,second,sameKey,inner,otherMsg,sameMetadata,otherMetadata.trans sameMetadata.symm⟩
  · intro chunk key plaintext opens
    obtain ⟨s,inside,sameKey,sameMetadata,sameMsg,_⟩ := chunk_sealing ideal opens
    exact ⟨s,inside,sameKey,sameMsg,sameMetadata⟩
  · intro draw given vaultKey objectId objectKind made envelope key opened called done taken opens
    have inside : ∀ s ∈ Call.sealings (.encryptEnvelope draw given vaultKey objectId objectKind), s ∈ calls.flatMap Call.sealings :=
      fun s inside => List.mem_flatMap.mpr ⟨_,called,inside⟩
    obtain ⟨s,first,t,second,_,sameMetadata,_,otherMetadata,_,shows,shows'⟩ := envelope_sealings ideal opens
    obtain ⟨wrappedKey,wrapped,done⟩ := bind_done done
    obtain ⟨payload,sealedPayload,done⟩ := bind_done done
    cases done
    rcases taken with taken | taken
    · obtain ⟨_,_,rfl,original⟩ := seal_shows base64 ⟨vaultKey,draw.wrapNonce,.object envelopeVersionV1 objectId objectKind,draw.objectKey.bytes⟩
        (base64.decodeVec _) wrapped
      rw [taken] at shows
      have same := sameMetadata.symm.trans (shown_once ideal first (inside _ List.mem_cons_self) shows original)
      exact Metadata.object.inj same
    · obtain ⟨_,_,rfl,original⟩ := seal_shows base64 ⟨draw.objectKey,draw.payloadNonce,.object envelopeVersionV1 objectId objectKind,given⟩
        (base64.decodeVec _) sealedPayload
      rw [taken] at shows'
      have same := otherMetadata.symm.trans (shown_once ideal second (inside _ (List.mem_cons_of_mem _ List.mem_cons_self)) shows' original)
      exact Metadata.object.inj same
  · intro nonce given attachmentKey attachmentId chunkIndex totalChunks made chunk key opened called done taken opens
    obtain ⟨s,first,_,sameMetadata,_,shows⟩ := chunk_sealing ideal opens
    obtain ⟨_,_,rfl,original⟩ := seal_shows base64 ⟨attachmentKey,nonce,.chunk attachmentChunkVersionV1 attachmentId chunkIndex totalChunks,given⟩
      (base64.decode _ _ (Nat.le_of_eq nonce.sized)) done
    rw [taken.1,taken.2] at shows
    have same := sameMetadata.symm.trans (shown_once ideal first (List.mem_flatMap.mpr ⟨_,called,List.mem_cons_self⟩) shows original)
    exact Metadata.chunk.inj same

-- A cipher that looks every ciphertext up among the sealings, and Base64 itself.
def ledger (made : List Sealing) : Cipher where
  encrypt _ nonce _ msg := .ok (msg ++ nonce.take 16)
  decrypt key nonce aad ciphertext :=
    (made.find? (fun s => s.key.bytes = key ∧ s.nonce.bytes = nonce ∧ s.metadata.aad = aad ∧ ciphertext = s.msg ++ nonce.take 16)).map Sealing.msg

def padded : Base64 where
  encodeString bytes := String.ofList (Base64Text.encode bytes)
  decode room text := match Base64Text.decode text.toList with
    | some bytes => if bytes.length ≤ room then .ok bytes else .error "invalid Base64 length"
    | none => .error "invalid Base64 encoding"
  decodeVec text := match Base64Text.decode text.toList with
    | some bytes => .ok bytes
    | none => .error "invalid Base64 encoding"

theorem padded_lawful : padded.Lawful := by
  refine ⟨fun bytes room fits => ?_,fun bytes => ?_⟩
  · dsimp only [padded]
    rw [String.toList_ofList,Base64Text.decode_encode]
    exact if_pos fits
  · dsimp only [padded]
    rw [String.toList_ofList,Base64Text.decode_encode]

def keyOf (byte : UInt8) : SecretKey := ⟨List.replicate 32 byte,List.length_replicate⟩
def nonceOf (byte : UInt8) : Nonce := ⟨List.replicate 24 byte,List.length_replicate⟩

-- An envelope and a chunk of one id, which has a colon in it.
def twoCalls : List Call :=
  [.encryptEnvelope ⟨keyOf 1,nonceOf 1,nonceOf 2⟩ [104] (keyOf 0) "a:b" 1,.encryptChunk (nonceOf 3) [105] (keyOf 2) "a:b" 0 2]

def ledgerCrates : CryptoCrates := ⟨padded,ledger (twoCalls.flatMap Call.sealings)⟩

theorem ledger_ideal : Ideal ledgerCrates.cipher (twoCalls.flatMap Call.sealings) := by
  constructor
  · intro key nonce aad ciphertext msg opened
    obtain ⟨s,found,rfl⟩ := Option.map_eq_some_iff.mp opened
    have fits := List.find?_some found
    rw [decide_eq_true_eq] at fits
    obtain ⟨rfl,rfl,rfl,rfl⟩ := fits
    exact ⟨s,List.mem_of_find?_eq_some found,rfl,rfl,rfl,rfl,rfl⟩
  · intro s first t second ciphertext same _ _
    simp only [twoCalls,Call.sealings,List.flatMap_cons,List.flatMap_nil,List.cons_append,List.nil_append,List.mem_cons,List.not_mem_nil,or_false]
      at first second
    rcases first with rfl | rfl | rfl <;> rcases second with rfl | rfl | rfl
    all_goals first | exact ⟨rfl,rfl,rfl⟩ | exact absurd same (by decide)

def madeEnvelope : EncryptedEnvelope :=
  ⟨1,"a:b",1,⟨padded.encodeString (nonceOf 1).bytes,padded.encodeString ((keyOf 1).bytes ++ (nonceOf 1).bytes.take 16)⟩,
    ⟨padded.encodeString (nonceOf 2).bytes,padded.encodeString ([104] ++ (nonceOf 2).bytes.take 16)⟩⟩

def movedEnvelope : EncryptedEnvelope := ⟨1,"a",2,madeEnvelope.wrappedKey,madeEnvelope.payload⟩

theorem moved_envelope_refused :
    decryptEnvelope ledgerCrates madeEnvelope (keyOf 0) = .ok [104] ∧
    ¬∃ opened, decryptEnvelope ledgerCrates movedEnvelope (keyOf 0) = .ok opened := by
  refine ⟨by rfl,?_⟩
  rintro ⟨opened,opens⟩
  have bound := (metadata_bound.2.2.2 ledgerCrates twoCalls padded_lawful ledger_ideal).2.2.1 ⟨keyOf 1,nonceOf 1,nonceOf 2⟩ [104] (keyOf 0) "a:b" 1
    madeEnvelope movedEnvelope _ _ List.mem_cons_self rfl (.inl rfl) opens
  exact absurd bound.2.1 (by decide)

end ZkNote.SealedMetadata
