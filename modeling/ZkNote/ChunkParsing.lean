import ZkNote.Base64Text
import ZkNote.ChunkFormat

namespace ZkNote.ChunkParsing
open ByteFields Fallible ChunkFormat

-- What the crate's documentation says beyond `Lawful`: the decoder fills at most
-- the room it has, and refuses every spelling that its encoder does not write.
structure Strict (base64 : Base64) : Prop extends base64.Lawful where
  room : ∀ text room bytes, base64.decode room text = .ok bytes → bytes.length ≤ room
  spelling : ∀ text room bytes, base64.decode room text = .ok bytes → base64.encodeString bytes = text
  spellingVec : ∀ text bytes, base64.decodeVec text = .ok bytes → base64.encodeString bytes = text

-- Base64 itself.
def strictBase64 : Base64 where
  encodeString bytes := String.ofList (Base64Text.encode bytes)
  decode room text :=
    match Base64Text.decode text.toList with
    | none => .error "invalid Base64 encoding"
    | some bytes => if bytes.length ≤ room then .ok bytes else .error "invalid Base64 length"
  decodeVec text :=
    match Base64Text.decode text.toList with
    | none => .error "invalid Base64 encoding"
    | some bytes => .ok bytes

theorem base64_strict : Strict strictBase64 := by
  have written : ∀ bytes : List UInt8, Base64Text.decode (strictBase64.encodeString bytes).toList = some bytes := by
    intro bytes
    show Base64Text.decode (String.ofList (Base64Text.encode bytes)).toList = _
    rw [String.toList_ofList,Base64Text.decode_encode]
  have spelled : ∀ (text : String) (bytes : List UInt8), Base64Text.decode text.toList = some bytes → strictBase64.encodeString bytes = text := by
    intro text bytes read
    show String.ofList (Base64Text.encode bytes) = text
    rw [(Base64Text.encode_decode read).1,String.ofList_toList]
  have cases_ : ∀ (room : Nat) (text : String) (bytes : List UInt8), strictBase64.decode room text = .ok bytes →
      Base64Text.decode text.toList = some bytes ∧ bytes.length ≤ room := by
    intro room text bytes read
    dsimp only [strictBase64] at read
    split at read
    · cases read
    · rename_i found is
      split at read
      · rename_i fits
        cases read
        exact ⟨is,fits⟩
      · cases read
  refine ⟨⟨?_,?_⟩,fun text room bytes read => (cases_ room text bytes read).2,
    fun text room bytes read => spelled text bytes (cases_ room text bytes read).1,?_⟩
  · intro bytes room fits
    dsimp only [strictBase64] at written ⊢
    rw [written bytes]
    exact if_pos fits
  · intro bytes
    dsimp only [strictBase64] at written ⊢
    rw [written bytes]
  · intro text bytes read
    dsimp only [strictBase64] at read
    split at read
    · cases read
    · rename_i found is
      cases read
      exact spelled text bytes is

-- How far a buffer goes along with the format.
inductive Shape : List UInt8 → Prop where
  | short {bytes} (few : bytes.length < 46) : Shape bytes
  | foreign {bytes} (long : 46 ≤ bytes.length) {magic} (found : slice bytes 0 4 = some magic) (other : magic ≠ chunkBinaryMagic) : Shape bytes
  | cut {bytes} (long : 46 ≤ bytes.length) (magic : slice bytes 0 4 = some chunkBinaryMagic) {version} (versionAt : word32 bytes 4 = some version)
      {idLen} (lenAt : word16 bytes 8 = some idLen) (few : bytes.length < 46+idLen.toNat) : Shape bytes
  | whole (version : UInt32) (idLen : UInt16) {id : List UInt8} (chunkIndex totalChunks : UInt32) {nonce : List UInt8} (ctLen : UInt32)
      (tail : List UInt8) (named : id.length = idLen.toNat) (sized : nonce.length = nonceLen) :
      Shape (layout version idLen id chunkIndex totalChunks nonce ctLen tail)

theorem shape (bytes : List UInt8) : Shape bytes := by
  by_cases long : 46 ≤ bytes.length
  · obtain ⟨magic,rest,rfl,four⟩ := cut_at (show 4 ≤ bytes.length by omega)
    have found : slice (magic ++ rest) 0 4 = some magic := slice_field [] magic rest (show 0 = [].length from rfl)
      (show 4 = [].length+magic.length by rw [four]; rfl)
    by_cases ours : magic = chunkBinaryMagic
    · subst ours
      have left := long
      rw [List.length_append,four] at left
      obtain ⟨part,rest,rfl,wide⟩ := cut_at (show 4 ≤ rest.length by omega)
      obtain ⟨version,rfl⟩ := bytes32_of wide
      rw [List.length_append,wide] at left
      obtain ⟨part,rest,rfl,wide⟩ := cut_at (show 2 ≤ rest.length by omega)
      obtain ⟨idLen,rfl⟩ := bytes16_of wide
      rw [List.length_append,wide] at left
      by_cases few : rest.length < 36+idLen.toNat
      · have versionAt := word32_field chunkBinaryMagic (bytesOf16 idLen ++ rest) version (show 4 = chunkBinaryMagic.length from rfl)
        have lenAt := word16_field (chunkBinaryMagic ++ bytesOf32 version) rest idLen (show 8 = (chunkBinaryMagic ++ bytesOf32 version).length from rfl)
        rw [List.append_assoc] at lenAt
        refine .cut long found versionAt lenAt ?_
        simp only [List.length_append,four,length32,length16]
        omega
      · obtain ⟨id,rest,rfl,named⟩ := cut_at (show idLen.toNat ≤ rest.length by omega)
        rw [List.length_append,named] at few
        obtain ⟨part,rest,rfl,wide⟩ := cut_at (show 4 ≤ rest.length by omega)
        obtain ⟨chunkIndex,rfl⟩ := bytes32_of wide
        rw [List.length_append,wide] at few
        obtain ⟨part,rest,rfl,wide⟩ := cut_at (show 4 ≤ rest.length by omega)
        obtain ⟨totalChunks,rfl⟩ := bytes32_of wide
        rw [List.length_append,wide] at few
        obtain ⟨nonce,rest,rfl,sized⟩ := cut_at (show nonceLen ≤ rest.length by unfold nonceLen; omega)
        rw [List.length_append,sized,nonceLen] at few
        obtain ⟨part,tail,rfl,wide⟩ := cut_at (show 4 ≤ rest.length by omega)
        obtain ⟨ctLen,rfl⟩ := bytes32_of wide
        exact .whole version idLen chunkIndex totalChunks ctLen tail named sized
    · exact .foreign long found ours
  · exact .short (by omega)

section
variable (base64 : Base64) {width : Nat} {bytes id nonce tail : List UInt8} {version chunkIndex totalChunks ctLen : UInt32} {idLen : UInt16}

theorem from_short (few : bytes.length < 46) : EncryptedChunk.fromBytes base64 width bytes = some (.error (.truncated 46 bytes.length)) :=
  if_pos few

theorem from_foreign (long : 46 ≤ bytes.length) {magic : List UInt8} (found : slice bytes 0 4 = some magic) (other : magic ≠ chunkBinaryMagic) :
    EncryptedChunk.fromBytes base64 width bytes = some (.error .invalidMagic) := by
  unfold EncryptedChunk.fromBytes
  rw [if_neg (by omega),found]
  exact if_pos other

theorem from_cut (wide : 2^17 ≤ 2^width) (long : 46 ≤ bytes.length) (magic : slice bytes 0 4 = some chunkBinaryMagic)
    (versionAt : word32 bytes 4 = some version) (lenAt : word16 bytes 8 = some idLen) (few : bytes.length < 46+idLen.toNat) :
    EncryptedChunk.fromBytes base64 width bytes = some (.error (.truncated (46+idLen.toNat) bytes.length)) := by
  have small := idLen.toNat_lt
  have idEnd : (10+idLen.toNat) % 2^width = 10+idLen.toNat := Nat.mod_eq_of_lt (by omega)
  have fixedEnd : (10+idLen.toNat+8+24+4) % 2^width = 46+idLen.toNat := (Nat.mod_eq_of_lt (by omega)).trans (by omega)
  unfold EncryptedChunk.fromBytes
  rw [if_neg (by omega)]
  simp only [magic,versionAt,lenAt,idEnd,fixedEnd,Option.bind_eq_bind,Option.bind_some,ne_eq,not_true,if_false]
  rw [if_pos few]

-- Past the fixed fields, only the ciphertext's length is left to check.
theorem from_whole (wide : 2^17 ≤ 2^width) (named : id.length = idLen.toNat) (sized : nonce.length = nonceLen) :
    EncryptedChunk.fromBytes base64 width (layout version idLen id chunkIndex totalChunks nonce ctLen tail) =
      match fromUtf8 id with
      | none => some (.error .invalidUtf8)
      | some attachmentId =>
        let ctEnd := (46+id.length+ctLen.toNat) % 2^width
        if 46+id.length+tail.length < ctEnd then some (.error (.truncated ctEnd (46+id.length+tail.length))) else
        if 46+id.length ≤ ctEnd then
          some (.ok ⟨version,attachmentId,chunkIndex,totalChunks,base64.encodeString nonce,base64.encodeString (tail.take (ctEnd-(46+id.length)))⟩)
        else none := by
  have small := idLen.toNat_lt
  obtain ⟨magicAt,versionAt,lenAt,idAt⟩ := layout_front version idLen id chunkIndex totalChunks nonce ctLen tail
  obtain ⟨indexAt,totalAt,nonceAt,ctLenAt,_⟩ := layout_back version idLen id chunkIndex totalChunks nonce ctLen tail sized
  have size := layout_length version idLen id chunkIndex totalChunks nonce ctLen tail sized
  have idEnd : (10+id.length) % 2^width = 10+id.length := Nat.mod_eq_of_lt (by omega)
  have fixedEnd : (46+id.length) % 2^width = 46+id.length := Nat.mod_eq_of_lt (by omega)
  have ctStart : 10+id.length+36 = 46+id.length := by omega
  unfold EncryptedChunk.fromBytes
  simp only [magicAt,versionAt,lenAt,← named,idEnd,fixedEnd,idAt,indexAt,totalAt,nonceAt,ctLenAt,ctStart,size,Option.bind_eq_bind,
    Option.bind_some,ne_eq,not_true,if_false]
  rw [if_neg (by omega),if_neg (by omega)]
  cases fromUtf8 id with
  | none => rfl
  | some attachmentId =>
      have whole : layout version idLen id chunkIndex totalChunks nonce ctLen tail = (chunkBinaryMagic ++ (bytesOf32 version ++ (bytesOf16 idLen ++
          (id ++ (bytesOf32 chunkIndex ++ (bytesOf32 totalChunks ++ (nonce ++ bytesOf32 ctLen))))))) ++ tail := by
        simp only [layout,List.append_assoc]
      dsimp only
      split
      · rfl
      · rename_i within
        rw [whole,slice_back _ tail (by simp only [List.length_append,length16,length32,sized,nonceLen,chunkBinaryMagic,List.length_cons,List.length_nil]; omega)
          (by rw [← whole,size]; omega)]
        split <;> rfl

end

-- The sums of lengths that the decoder forms on its way, before they are cut to
-- the size of a word.
def lengthSums (bytes : List UInt8) : List Nat :=
  if bytes.length < 46 ∨ slice bytes 0 4 ≠ some chunkBinaryMagic then [] else
  match word16 bytes 8 with
  | none => []
  | some idLen =>
    let fixed := [10+idLen.toNat,10+idLen.toNat+8+24+4]
    if bytes.length < 10+idLen.toNat+8+24+4 then fixed else
    match (slice bytes 10 (10+idLen.toNat)).bind fromUtf8,word32 bytes (10+idLen.toNat+32) with
    | some _,some ctLen => fixed ++ [10+idLen.toNat+36,10+idLen.toNat+36+ctLen.toNat]
    | _,_ => fixed

-- The decoder returns, and no sum has wrapped.
def Safe (base64 : Base64) (width : Nat) (bytes : List UInt8) : Prop :=
  (EncryptedChunk.fromBytes base64 width bytes).isSome = true ∧ ∀ n ∈ lengthSums bytes, n < 2^width

-- The fixed fields are there and the id can be read, and the ciphertext's end is
-- past what a word of `width` bits counts.
def Overlong (width : Nat) (bytes : List UInt8) : Prop :=
  slice bytes 0 4 = some chunkBinaryMagic ∧ ∃ idLen id attachmentId ctLen, word16 bytes 8 = some idLen ∧ 46+idLen.toNat ≤ bytes.length ∧
    slice bytes 10 (10+idLen.toNat) = some id ∧ fromUtf8 id = some attachmentId ∧ word32 bytes (42+idLen.toNat) = some ctLen ∧
    2^width ≤ 46+idLen.toNat+ctLen.toNat

section
variable (version : UInt32) (idLen : UInt16) (id : List UInt8) (chunkIndex totalChunks : UInt32) (nonce : List UInt8) (ctLen : UInt32)
  (tail : List UInt8)

theorem overlong_layout (width : Nat) (named : id.length = idLen.toNat) (sized : nonce.length = nonceLen) :
    Overlong width (layout version idLen id chunkIndex totalChunks nonce ctLen tail) ↔
      (fromUtf8 id).isSome = true ∧ 2^width ≤ 46+id.length+ctLen.toNat := by
  obtain ⟨magicAt,_,lenAt,idAt⟩ := layout_front version idLen id chunkIndex totalChunks nonce ctLen tail
  obtain ⟨_,_,_,ctLenAt,_⟩ := layout_back version idLen id chunkIndex totalChunks nonce ctLen tail sized
  have size := layout_length version idLen id chunkIndex totalChunks nonce ctLen tail sized
  have place : 10+id.length+32 = 42+idLen.toNat := by omega
  rw [place] at ctLenAt
  rw [named] at idAt
  constructor
  · rintro ⟨_,idLen',id',text,ctLen',lenAt',_,idAt',reads,ctLenAt',exceeds⟩
    cases lenAt.symm.trans lenAt'
    cases idAt.symm.trans idAt'
    cases ctLenAt.symm.trans ctLenAt'
    exact ⟨by rw [reads]; rfl,by omega⟩
  · rintro ⟨reads,exceeds⟩
    obtain ⟨text,reads⟩ := Option.isSome_iff_exists.mp reads
    exact ⟨magicAt,idLen,id,text,ctLen,lenAt,by omega,idAt,reads,ctLenAt,by omega⟩

theorem sums_layout (named : id.length = idLen.toNat) (sized : nonce.length = nonceLen) {n : Nat}
    (inside : n ∈ lengthSums (layout version idLen id chunkIndex totalChunks nonce ctLen tail)) :
    n ≤ 46+id.length ∨ (fromUtf8 id).isSome = true ∧ n = 46+id.length+ctLen.toNat := by
  obtain ⟨magicAt,_,lenAt,idAt⟩ := layout_front version idLen id chunkIndex totalChunks nonce ctLen tail
  obtain ⟨_,_,_,ctLenAt,_⟩ := layout_back version idLen id chunkIndex totalChunks nonce ctLen tail sized
  have size := layout_length version idLen id chunkIndex totalChunks nonce ctLen tail sized
  unfold lengthSums at inside
  rw [if_neg (by simp only [magicAt,ne_eq,not_true,or_false]; omega),lenAt] at inside
  dsimp only at inside
  rw [if_neg (by omega),← named,idAt,ctLenAt,Option.bind_some] at inside
  cases reads : fromUtf8 id with
  | none =>
      rw [reads] at inside
      simp only [List.mem_cons,List.not_mem_nil,or_false] at inside
      exact .inl (by omega)
  | some text =>
      rw [reads] at inside
      simp only [List.mem_append,List.mem_cons,List.not_mem_nil,or_false] at inside
      rcases inside with (rfl | rfl) | rfl | rfl
      · exact .inl (by omega)
      · exact .inl (by omega)
      · exact .inl (by omega)
      · exact .inr ⟨rfl,by omega⟩

end

section
variable (base64 : Base64) {width : Nat} {bytes : List UInt8}

theorem safe_iff (wide : 2^32 ≤ 2^width) (bytes : List UInt8) : Safe base64 width bytes ↔ ¬Overlong width bytes := by
  have enough : 2^17 ≤ 2^width := by omega
  cases shape bytes with
  | short few =>
      refine iff_of_true ⟨by rw [from_short base64 few]; rfl,?_⟩ ?_
      · intro n inside
        rw [lengthSums,if_pos (.inl few)] at inside
        cases inside
      · rintro ⟨_,idLen,_,_,_,_,long,_⟩
        omega
  | foreign long found other =>
      refine iff_of_true ⟨by rw [from_foreign base64 long found other]; rfl,?_⟩ ?_
      · intro n inside
        rw [lengthSums,if_pos (.inr (fun ours => other (Option.some.inj (found.symm.trans ours))))] at inside
        cases inside
      · rintro ⟨ours,_⟩
        exact other (Option.some.inj (found.symm.trans ours))
  | @cut _ long magic version versionAt idLen lenAt few =>
      have small := idLen.toNat_lt
      refine iff_of_true ⟨by rw [from_cut base64 enough long magic versionAt lenAt few]; rfl,?_⟩ ?_
      · intro n inside
        rw [lengthSums,if_neg (by simp only [magic,ne_eq,not_true,or_false]; omega),lenAt] at inside
        dsimp only at inside
        rw [if_pos (by omega)] at inside
        simp only [List.mem_cons,List.not_mem_nil,or_false] at inside
        omega
      · rintro ⟨_,idLen',_,_,_,lenAt',long',_⟩
        cases lenAt.symm.trans lenAt'
        omega
  | @whole version idLen id chunkIndex totalChunks nonce ctLen tail named sized =>
      have small := idLen.toNat_lt
      have ctSmall := ctLen.toNat_lt
      rw [overlong_layout version idLen id chunkIndex totalChunks nonce ctLen tail width named sized]
      unfold Safe
      rw [from_whole base64 enough named sized]
      cases reads : fromUtf8 id with
      | none =>
          refine iff_of_true ⟨rfl,fun n inside => ?_⟩ (fun both => by cases both.1)
          rcases sums_layout _ _ _ _ _ _ _ _ named sized inside with low | ⟨some_,_⟩
          · omega
          · rw [reads] at some_
            cases some_
      | some attachmentId =>
          by_cases wraps : 2^width ≤ 46+id.length+ctLen.toNat
          · -- The wrapped end stands before the start: neither check can fail, and the slice does.
            have ctEnd : (46+id.length+ctLen.toNat) % 2^width < 46+id.length := by
              rw [Nat.mod_eq_sub_mod wraps]
              exact Nat.lt_of_le_of_lt (Nat.mod_le _ _) (by omega)
            refine iff_of_false (fun safe => ?_) (fun fine => fine ⟨rfl,wraps⟩)
            dsimp only at safe
            rw [if_neg (by omega),if_neg (by omega)] at safe
            cases safe.1
          · have ctEnd : (46+id.length+ctLen.toNat) % 2^width = 46+id.length+ctLen.toNat := Nat.mod_eq_of_lt (by omega)
            refine iff_of_true ⟨?_,fun n inside => ?_⟩ (fun both => wraps both.2)
            · dsimp only
              rw [ctEnd,if_pos (show 46+id.length ≤ 46+id.length+ctLen.toNat by omega)]
              split <;> rfl
            · rcases sums_layout _ _ _ _ _ _ _ _ named sized inside with low | ⟨_,rfl⟩
              · omega
              · omega

end

-- On a 64-bit host nothing can go wrong; on a 32-bit one the ciphertext's length
-- can send the slice's end round to before its start.
theorem decoding_safe_iff (base64 : Base64) (bytes : List UInt8) :
    Safe base64 64 bytes ∧ (Safe base64 32 bytes ↔ ¬Overlong 32 bytes) := by
  refine ⟨(safe_iff base64 (by decide) bytes).mpr ?_,safe_iff base64 (by decide) bytes⟩
  rintro ⟨_,idLen,_,_,ctLen,_,_,_,_,_,exceeds⟩
  have small := idLen.toNat_lt
  have ctSmall := ctLen.toNat_lt
  omega

-- A header that announces the largest ciphertext, and ends.
def endless : List UInt8 := layout 1 0 [] 0 1 (List.replicate 24 0) 0xffffffff []

theorem endless_panics : EncryptedChunk.fromBytes strictBase64 32 endless = none ∧ ¬Safe strictBase64 32 endless := by
  have panics : EncryptedChunk.fromBytes strictBase64 32 endless = none := by decide +kernel
  refine ⟨panics,fun safe => ?_⟩
  have returns := safe.1
  rw [panics] at returns
  cases returns

-- The encoder cuts none of the chunk's lengths, and its nonce has the size that
-- the format gives it.
def Regular (base64 : Base64) (chunk : EncryptedChunk) : Prop :=
  chunk.attachmentId.utf8ByteSize < 2^16 ∧ (∀ nonce, base64.decode nonceLen chunk.nonce = .ok nonce → nonce.length = nonceLen) ∧
    ∀ ct, base64.decodeVec chunk.ciphertext = .ok ct → ct.length < 2^32

-- Nothing stands after the ciphertext.
def Exact (bytes : List UInt8) : Prop :=
  ∃ idLen ctLen, word16 bytes 8 = some idLen ∧ word32 bytes (42+idLen.toNat) = some ctLen ∧ bytes.length = 46+idLen.toNat+ctLen.toNat

-- A text is read from its own bytes and from no others.
theorem utf8_back {id : List UInt8} {text : String} (reads : fromUtf8 id = some text) : utf8 text = id := by
  unfold fromUtf8 String.fromUTF8? at reads
  split at reads
  · cases reads
    rfl
  · cases reads

theorem exact_layout (version chunkIndex totalChunks ctLen : UInt32) (tail : List UInt8) {idLen : UInt16} {id nonce : List UInt8}
    (named : id.length = idLen.toNat) (sized : nonce.length = nonceLen) :
    Exact (layout version idLen id chunkIndex totalChunks nonce ctLen tail) ↔ tail.length = ctLen.toNat := by
  obtain ⟨_,_,lenAt,_⟩ := layout_front version idLen id chunkIndex totalChunks nonce ctLen tail
  obtain ⟨_,_,_,ctLenAt,_⟩ := layout_back version idLen id chunkIndex totalChunks nonce ctLen tail sized
  have size := layout_length version idLen id chunkIndex totalChunks nonce ctLen tail sized
  rw [show 10+id.length+32 = 42+idLen.toNat by omega] at ctLenAt
  constructor
  · rintro ⟨idLen',ctLen',lenAt',ctLenAt',full⟩
    cases lenAt.symm.trans lenAt'
    cases ctLenAt.symm.trans ctLenAt'
    omega
  · intro full
    exact ⟨idLen,ctLen,lenAt,ctLenAt,by omega⟩

section
variable {base64 : Base64} {width : Nat} {bytes : List UInt8} {chunk : EncryptedChunk}

theorem written_bytes (written : chunk.toBytes base64 = .ok bytes) :
    ∃ nonce ct, base64.decode nonceLen chunk.nonce = .ok nonce ∧ base64.decodeVec chunk.ciphertext = .ok ct ∧
      bytes = layout chunk.version (utf8 chunk.attachmentId).length.toUInt16 (utf8 chunk.attachmentId) chunk.chunkIndex chunk.totalChunks nonce
        ct.length.toUInt32 ct := by
  unfold EncryptedChunk.toBytes at written
  obtain ⟨nonce,nonceIs,written⟩ := bind_done written
  obtain ⟨ct,ctIs,written⟩ := bind_done written
  cases written
  exact ⟨nonce,ct,mapped_done nonceIs,mapped_done ctIs,rfl⟩

-- A buffer that is accepted has every field where the format has it, and at least
-- the ciphertext that it announces.
theorem accepted_layout (wide : 2^32 ≤ 2^width) (accepted : EncryptedChunk.fromBytes base64 width bytes = some (.ok chunk)) :
    ∃ idLen nonce ctLen tail, (utf8 chunk.attachmentId).length = UInt16.toNat idLen ∧ nonce.length = nonceLen ∧
      46+idLen.toNat+UInt32.toNat ctLen < 2^width ∧ ctLen.toNat ≤ tail.length ∧
      bytes = layout chunk.version idLen (utf8 chunk.attachmentId) chunk.chunkIndex chunk.totalChunks nonce ctLen tail ∧
      chunk.nonce = base64.encodeString nonce ∧ chunk.ciphertext = base64.encodeString (tail.take ctLen.toNat) := by
  have enough : 2^17 ≤ 2^width := by omega
  cases shape bytes with
  | short few =>
      rw [from_short base64 few] at accepted
      cases accepted
  | foreign long found other =>
      rw [from_foreign base64 long found other] at accepted
      cases accepted
  | cut long magic versionAt lenAt few =>
      rw [from_cut base64 enough long magic versionAt lenAt few] at accepted
      cases accepted
  | @whole version idLen id chunkIndex totalChunks nonce ctLen tail named sized =>
      have small := idLen.toNat_lt
      have ctSmall := ctLen.toNat_lt
      rw [from_whole base64 enough named sized] at accepted
      cases reads : fromUtf8 id with
      | none =>
          rw [reads] at accepted
          cases accepted
      | some attachmentId =>
          rw [reads] at accepted
          dsimp only at accepted
          split at accepted
          · cases accepted
          rename_i within
          split at accepted
          · rename_i ordered
            have fits : 46+id.length+ctLen.toNat < 2^width := by
              apply Nat.lt_of_not_le
              intro wraps
              rw [Nat.mod_eq_sub_mod wraps] at ordered
              have least := Nat.mod_le (46+id.length+ctLen.toNat-2^width) (2^width)
              omega
            rw [Nat.mod_eq_of_lt fits] at accepted within
            cases accepted
            have spelled := utf8_back reads
            rw [spelled]
            refine ⟨idLen,nonce,ctLen,tail,named,sized,by omega,by omega,rfl,rfl,?_⟩
            rw [show 46+id.length+ctLen.toNat-(46+id.length) = ctLen.toNat by omega]
          · cases accepted

-- What was written comes back exactly when no length was cut; what was accepted is
-- written again exactly when nothing stood after the ciphertext.
theorem round_trips_iff (strict : Strict base64) (host : width = 32 ∨ width = 64) :
    (∀ chunk bytes, EncryptedChunk.toBytes base64 chunk = .ok bytes →
      (EncryptedChunk.fromBytes base64 width bytes = some (.ok chunk) ↔ Regular base64 chunk ∧ bytes.length < 2^width)) ∧
    ∀ bytes chunk, EncryptedChunk.fromBytes base64 width bytes = some (.ok chunk) →
      (EncryptedChunk.toBytes base64 chunk = .ok bytes ↔ Exact bytes) := by
  have wide : 2^32 ≤ 2^width := by rcases host with rfl | rfl <;> decide
  refine ⟨fun chunk bytes written => ?_,fun bytes chunk accepted => ?_⟩
  · obtain ⟨nonce,ct,nonceIs,ctIs,is⟩ := written_bytes written
    constructor
    · intro accepted
      obtain ⟨idLen,nonce',ctLen,tail,named,sized,fits,enough,found,nonceSpelled,ctSpelled⟩ := accepted_layout wide accepted
      have ctSmall := ctLen.toNat_lt
      have taken : (tail.take ctLen.toNat).length = ctLen.toNat := List.length_take_of_le enough
      have sameNonce : nonce = nonce' := by
        rw [nonceSpelled,strict.decode nonce' nonceLen (Nat.le_of_eq sized)] at nonceIs
        exact (Except.ok.inj nonceIs).symm
      have sameCt : ct = tail.take ctLen.toNat := by
        rw [ctSpelled,strict.decodeVec] at ctIs
        exact (Except.ok.inj ctIs).symm
      subst sameNonce
      have ctSize : ct.length = ctLen.toNat := by rw [sameCt,taken]
      refine ⟨⟨?_,fun other otherIs => ?_,fun other otherIs => ?_⟩,?_⟩
      · rw [← utf8_length,named]
        exact idLen.toNat_lt
      · rw [nonceIs] at otherIs
        cases otherIs
        exact sized
      · rw [ctIs] at otherIs
        cases otherIs
        omega
      · rw [is,layout_length _ _ _ _ _ _ _ _ sized,named,ctSize]
        omega
    · rintro ⟨⟨shortId,sized,shortCt⟩,fits⟩
      have sized := sized nonce nonceIs
      rw [is,layout_length _ _ _ _ _ _ _ _ sized,utf8_length] at fits
      obtain ⟨bytes',written',back⟩ := read_back strict.toLawful width chunk sized (strict.spelling _ _ _ nonceIs).symm
        (strict.spellingVec _ _ ctIs).symm shortId (shortCt ct ctIs) (by omega)
      cases written.symm.trans written'
      exact back
  · obtain ⟨idLen,nonce,ctLen,tail,named,sized,fits,enough,rfl,nonceSpelled,ctSpelled⟩ := accepted_layout wide accepted
    have size := layout_length chunk.version idLen (utf8 chunk.attachmentId) chunk.chunkIndex chunk.totalChunks nonce ctLen tail sized
    have taken : (tail.take ctLen.toNat).length = ctLen.toNat := List.length_take_of_le enough
    have again : chunk.toBytes base64 = .ok (layout chunk.version (utf8 chunk.attachmentId).length.toUInt16 (utf8 chunk.attachmentId)
        chunk.chunkIndex chunk.totalChunks nonce (tail.take ctLen.toNat).length.toUInt32 (tail.take ctLen.toNat)) := by
      unfold EncryptedChunk.toBytes
      rw [nonceSpelled,ctSpelled,strict.decode nonce nonceLen (Nat.le_of_eq sized),strict.decodeVec]
      rfl
    rw [again,exact_layout _ _ _ _ _ named sized]
    constructor
    · intro same
      have lengths := congrArg List.length (Except.ok.inj same)
      rw [layout_length _ _ _ _ _ _ _ _ sized,size,taken] at lengths
      omega
    · intro full
      rw [List.take_of_length_le (Nat.le_of_eq full),full,named,Nat.toUInt16,Nat.toUInt32,UInt16.ofNat_toNat,UInt32.ofNat_toNat]

end

def shortNonce : EncryptedChunk := ⟨1,"note",0,1,"AAAA","AAAA"⟩

def spareByte : List UInt8 := layout 1 0 [] 0 1 (List.replicate 24 0) 0 [7]

theorem chunk_round_trips_real :
    (∀ chunk bytes, EncryptedChunk.toBytes strictBase64 chunk = .ok bytes →
      (EncryptedChunk.fromBytes strictBase64 64 bytes = some (.ok chunk) ↔ Regular strictBase64 chunk ∧ bytes.length < 2^64)) ∧
    ∀ bytes chunk, EncryptedChunk.fromBytes strictBase64 64 bytes = some (.ok chunk) →
      (EncryptedChunk.toBytes strictBase64 chunk = .ok bytes ↔ Exact bytes) :=
  round_trips_iff base64_strict (.inr rfl)

-- A nonce of three bytes is written, and its chunk is not read; a byte too many is
-- read, and not written.
theorem chunk_not_read_back :
    (∃ bytes, shortNonce.toBytes strictBase64 = .ok bytes ∧ EncryptedChunk.fromBytes strictBase64 64 bytes ≠ some (.ok shortNonce)) ∧
    ∃ chunk, EncryptedChunk.fromBytes strictBase64 64 spareByte = some (.ok chunk) ∧ chunk.toBytes strictBase64 ≠ .ok spareByte := by
  refine ⟨⟨_,rfl,?_⟩,⟨_,rfl,?_⟩⟩
  · decide +kernel
  · decide +kernel

end ZkNote.ChunkParsing
