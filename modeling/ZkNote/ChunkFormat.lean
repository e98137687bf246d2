import ZkNote.ByteFields
import ZkNote.Fallible

namespace ZkNote.ChunkFormat
open ByteFields Fallible

inductive ChunkFormatError where
  | truncated (expected actual : Nat)
  | invalidMagic
  | invalidUtf8
  | invalidEncoding (message : String)
  deriving DecidableEq, Repr

def ChunkFormatError.display : ChunkFormatError → String
  | .truncated expected actual => s!"truncated chunk buffer: expected at least {expected} bytes, got {actual}"
  | .invalidMagic => "invalid binary chunk magic bytes (expected 'ZKCK')"
  | .invalidUtf8 => "attachment ID in binary chunk is not valid UTF-8"
  | .invalidEncoding message => s!"invalid chunk encoding: {message}"

structure EncryptedChunk where
  version : UInt32
  attachmentId : String
  chunkIndex : UInt32
  totalChunks : UInt32
  nonce : String
  ciphertext : String
  deriving DecidableEq, Repr

-- Standard padded Base64; `decode` writes into a buffer of the given size.
structure Base64 where
  encodeString : List UInt8 → String
  decode : (room : Nat) → String → Except String (List UInt8)
  decodeVec : String → Except String (List UInt8)

structure Base64.Lawful (base64 : Base64) : Prop where
  decode : ∀ bytes room, bytes.length ≤ room → base64.decode room (base64.encodeString bytes) = .ok bytes
  decodeVec : ∀ bytes, base64.decodeVec (base64.encodeString bytes) = .ok bytes

def chunkBinaryMagic : List UInt8 := [0x5a,0x4b,0x43,0x4b]

def nonceLen : Nat := 24

def utf8 (text : String) : List UInt8 := text.toByteArray.data.toList

def fromUtf8 (bytes : List UInt8) : Option String := String.fromUTF8? ⟨bytes.toArray⟩

namespace EncryptedChunk

-- The lengths of the id and the ciphertext are cut to two and to four bytes.
def toBytes (base64 : Base64) (chunk : EncryptedChunk) : Except ChunkFormatError (List UInt8) := do
  let nonce ← (base64.decode nonceLen chunk.nonce).mapError (fun e => .invalidEncoding s!"invalid nonce base64: {e}")
  let ct ← (base64.decodeVec chunk.ciphertext).mapError (fun e => .invalidEncoding s!"invalid ciphertext base64: {e}")
  let id := utf8 chunk.attachmentId
  return chunkBinaryMagic ++ (bytesOf32 chunk.version ++ (bytesOf16 id.length.toUInt16 ++ (id ++ (bytesOf32 chunk.chunkIndex ++
    (bytesOf32 chunk.totalChunks ++ (nonce ++ (bytesOf32 ct.length.toUInt32 ++ ct)))))))

-- `usize` has `width` bits and its sums wrap; an index out of bounds panics, and
-- then there is no result.
def fromBytes (base64 : Base64) (width : Nat) (bytes : List UInt8) : Option (Except ChunkFormatError EncryptedChunk) :=
  if bytes.length < 46 then some (.error (.truncated 46 bytes.length)) else do
  let magic ← slice bytes 0 4
  if magic ≠ chunkBinaryMagic then some (.error .invalidMagic) else do
  let version ← word32 bytes 4
  let idLen ← word16 bytes 8
  let idEnd := (10+idLen.toNat) % 2^width
  let fixedEnd := (idEnd+8+24+4) % 2^width
  if bytes.length < fixedEnd then some (.error (.truncated fixedEnd bytes.length)) else do
  let id ← slice bytes 10 idEnd
  match fromUtf8 id with
  | none => some (.error .invalidUtf8)
  | some attachmentId => do
  let chunkIndex ← word32 bytes idEnd
  let totalChunks ← word32 bytes (idEnd+4)
  let nonce ← slice bytes (idEnd+8) (idEnd+8+24)
  let ctLen ← word32 bytes (idEnd+32)
  let ctEnd := (idEnd+36+ctLen.toNat) % 2^width
  if bytes.length < ctEnd then some (.error (.truncated ctEnd bytes.length)) else do
  let ct ← slice bytes (idEnd+36) ctEnd
  return .ok ⟨version,attachmentId,chunkIndex,totalChunks,base64.encodeString nonce,base64.encodeString ct⟩

end EncryptedChunk

theorem from_utf8 (text : String) : fromUtf8 (utf8 text) = some text := by
  unfold fromUtf8 utf8 String.fromUTF8?
  rw [dif_pos text.isValidUTF8]
  rfl

theorem utf8_inj {a b : String} (same : utf8 a = utf8 b) : a = b := by
  have read := from_utf8 a
  rw [same,from_utf8 b] at read
  exact (Option.some.inj read).symm

theorem utf8_length (text : String) : (utf8 text).length = text.utf8ByteSize := rfl

-- The fields of a chunk, one after another.
def layout (version : UInt32) (idLen : UInt16) (id : List UInt8) (chunkIndex totalChunks : UInt32) (nonce : List UInt8) (ctLen : UInt32)
    (ct : List UInt8) : List UInt8 :=
  chunkBinaryMagic ++ (bytesOf32 version ++ (bytesOf16 idLen ++ (id ++ (bytesOf32 chunkIndex ++ (bytesOf32 totalChunks ++
    (nonce ++ (bytesOf32 ctLen ++ ct)))))))

section
variable (version : UInt32) (idLen : UInt16) (id : List UInt8) (chunkIndex totalChunks : UInt32) (nonce : List UInt8) (ctLen : UInt32)
  (ct : List UInt8)

theorem layout_length (sized : nonce.length = nonceLen) :
    (layout version idLen id chunkIndex totalChunks nonce ctLen ct).length = 46+id.length+ct.length := by
  have magic : chunkBinaryMagic.length = 4 := rfl
  simp only [layout,List.length_append,length16,length32,magic,sized,nonceLen]
  omega

-- The fields before the id stand at fixed places.
theorem layout_front :
    slice (layout version idLen id chunkIndex totalChunks nonce ctLen ct) 0 4 = some chunkBinaryMagic ∧
    word32 (layout version idLen id chunkIndex totalChunks nonce ctLen ct) 4 = some version ∧
    word16 (layout version idLen id chunkIndex totalChunks nonce ctLen ct) 8 = some idLen ∧
    slice (layout version idLen id chunkIndex totalChunks nonce ctLen ct) 10 (10+id.length) = some id := by
  have eight : 8 = (chunkBinaryMagic ++ bytesOf32 version).length := rfl
  have ten : 10 = (chunkBinaryMagic ++ (bytesOf32 version ++ bytesOf16 idLen)).length := rfl
  have len := word16_field (chunkBinaryMagic ++ bytesOf32 version) (id ++ (bytesOf32 chunkIndex ++ (bytesOf32 totalChunks ++
    (nonce ++ (bytesOf32 ctLen ++ ct))))) idLen eight
  have text := slice_field (chunkBinaryMagic ++ (bytesOf32 version ++ bytesOf16 idLen)) id (bytesOf32 chunkIndex ++ (bytesOf32 totalChunks ++
    (nonce ++ (bytesOf32 ctLen ++ ct)))) ten (congrArg (· + id.length) ten)
  have four : 4 = chunkBinaryMagic.length := rfl
  simp only [List.append_assoc] at len text
  refine ⟨?_,word32_field chunkBinaryMagic _ version four,len,text⟩
  exact slice_field [] chunkBinaryMagic _ (show 0 = [].length from rfl) (show 4 = [].length+chunkBinaryMagic.length from rfl)

-- The others come after it.
theorem layout_back (sized : nonce.length = nonceLen) :
    word32 (layout version idLen id chunkIndex totalChunks nonce ctLen ct) (10+id.length) = some chunkIndex ∧
    word32 (layout version idLen id chunkIndex totalChunks nonce ctLen ct) (10+id.length+4) = some totalChunks ∧
    slice (layout version idLen id chunkIndex totalChunks nonce ctLen ct) (10+id.length+8) (10+id.length+8+24) = some nonce ∧
    word32 (layout version idLen id chunkIndex totalChunks nonce ctLen ct) (10+id.length+32) = some ctLen ∧
    slice (layout version idLen id chunkIndex totalChunks nonce ctLen ct) (10+id.length+36) (46+id.length+ct.length) = some ct := by
  let front := chunkBinaryMagic ++ (bytesOf32 version ++ (bytesOf16 idLen ++ id))
  have frontLength : front.length = 10+id.length := by
    have magic : chunkBinaryMagic.length = 4 := rfl
    simp only [front,List.length_append,length16,length32,magic]
    omega
  have whole : layout version idLen id chunkIndex totalChunks nonce ctLen ct =
      front ++ (bytesOf32 chunkIndex ++ (bytesOf32 totalChunks ++ (nonce ++ (bytesOf32 ctLen ++ ct)))) := by
    simp only [layout,front,List.append_assoc]
  rw [whole]
  have atTotal : 10+id.length+4 = (front ++ bytesOf32 chunkIndex).length := by
    rw [List.length_append,frontLength,length32]
  have atNonce : 10+id.length+8 = (front ++ (bytesOf32 chunkIndex ++ bytesOf32 totalChunks)).length := by
    simp only [List.length_append,frontLength,length32]
  have atCtLen : 10+id.length+32 = (front ++ (bytesOf32 chunkIndex ++ (bytesOf32 totalChunks ++ nonce))).length := by
    simp only [List.length_append,frontLength,length32,sized,nonceLen]
  have atCt : 10+id.length+36 = (front ++ (bytesOf32 chunkIndex ++ (bytesOf32 totalChunks ++ (nonce ++ bytesOf32 ctLen)))).length := by
    simp only [List.length_append,frontLength,length32,sized,nonceLen]
  have total := word32_field (front ++ bytesOf32 chunkIndex) (nonce ++ (bytesOf32 ctLen ++ ct)) totalChunks atTotal
  have nonceAt := slice_field (front ++ (bytesOf32 chunkIndex ++ bytesOf32 totalChunks)) nonce (bytesOf32 ctLen ++ ct) atNonce
    (show 10+id.length+8+24 = _ by rw [← atNonce,sized,nonceLen])
  have len := word32_field (front ++ (bytesOf32 chunkIndex ++ (bytesOf32 totalChunks ++ nonce))) ct ctLen atCtLen
  have text := slice_field (front ++ (bytesOf32 chunkIndex ++ (bytesOf32 totalChunks ++ (nonce ++ bytesOf32 ctLen)))) ct [] atCt
    (show 46+id.length+ct.length = _ by rw [← atCt]; omega)
  simp only [List.append_assoc,List.append_nil] at total nonceAt len text
  exact ⟨word32_field front _ chunkIndex frontLength.symm,total,nonceAt,len,text⟩

end

-- What was written comes back, where no length is cut and no sum wraps.
theorem read_back {base64 : Base64} (lawful : base64.Lawful) (width : Nat) (chunk : EncryptedChunk) {nonce ct : List UInt8}
    (sized : nonce.length = nonceLen) (nonceIs : chunk.nonce = base64.encodeString nonce) (ctIs : chunk.ciphertext = base64.encodeString ct)
    (shortId : chunk.attachmentId.utf8ByteSize < 2^16) (shortCt : ct.length < 2^32)
    (fits : chunk.attachmentId.utf8ByteSize+ct.length+46 < 2^width) :
    ∃ bytes, chunk.toBytes base64 = .ok bytes ∧ EncryptedChunk.fromBytes base64 width bytes = some (.ok chunk) := by
  obtain ⟨version,attachmentId,chunkIndex,totalChunks,_,_⟩ := chunk
  dsimp only at nonceIs ctIs shortId fits
  subst nonceIs
  subst ctIs
  have decoded := lawful.decode nonce nonceLen (Nat.le_of_eq sized)
  have idLen : (utf8 attachmentId).length = attachmentId.utf8ByteSize := utf8_length attachmentId
  generalize idIs : utf8 attachmentId = id at idLen
  have idWord : id.length.toUInt16.toNat = id.length := UInt16.toNat_ofNat_of_lt' (show _ < 2^16 by omega)
  have ctWord : ct.length.toUInt32.toNat = ct.length := UInt32.toNat_ofNat_of_lt' (show _ < 2^32 by omega)
  obtain ⟨magicAt,versionAt,lenAt,idAt⟩ := layout_front version id.length.toUInt16 id chunkIndex totalChunks nonce ct.length.toUInt32 ct
  obtain ⟨indexAt,totalAt,nonceAt,ctLenAt,ctAt⟩ := layout_back version id.length.toUInt16 id chunkIndex totalChunks nonce ct.length.toUInt32 ct sized
  have size := layout_length version id.length.toUInt16 id chunkIndex totalChunks nonce ct.length.toUInt32 ct sized
  refine ⟨layout version id.length.toUInt16 id chunkIndex totalChunks nonce ct.length.toUInt32 ct,?_,?_⟩
  · unfold EncryptedChunk.toBytes
    rw [decoded,lawful.decodeVec,idIs]
    rfl
  · have idEnd : (10+id.length) % 2^width = 10+id.length := Nat.mod_eq_of_lt (by omega)
    have fixedEnd : (10+id.length+8+24+4) % 2^width = 46+id.length := (Nat.mod_eq_of_lt (by omega)).trans (by omega)
    have ctEnd : (10+id.length+36+ct.length) % 2^width = 46+id.length+ct.length := (Nat.mod_eq_of_lt (by omega)).trans (by omega)
    unfold EncryptedChunk.fromBytes
    simp only [magicAt,versionAt,lenAt,idWord,idEnd,fixedEnd,idAt,indexAt,totalAt,nonceAt,ctLenAt,ctWord,ctEnd,ctAt,size,Option.bind_eq_bind,
      Option.bind_some,ne_eq,not_true,if_false]
    rw [if_neg (by omega),if_neg (by omega),← idIs,from_utf8]
    dsimp only
    rw [if_neg (by omega)]
    rfl

end ZkNote.ChunkFormat
