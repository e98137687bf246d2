import ZkNote.AttachmentReadback
import ZkNote.StreamOpening

namespace ZkNote.StreamRoundTrip
open Fallible Protocol ChunkFormat AttachmentCrypto Attachments AttachmentStreams StreamOpening
open AttachmentManager (chunkAt totalChunksOf)
open AttachmentReadback (piecesOf pieces_taken pieces_whole piece_small piece_empty count_positive)

variable {crates : AttachmentCrates} {key : SecretKey} {params : AttachmentEncryptParams} {nonces : Nat → Nonce} {bytes : List UInt8}
  {count : UInt32} {manifest : AttachmentManifest} {σ ω : Type}

-- A reader that gives what it holds, in pieces of whatever length.
structure Gives (r : Reader) : Prop where
  reads : ∀ call, ∃ most, r.gives call = .ok most

theorem taken_rest (xs : List UInt8) {n room : Nat} (within : n ≤ room) :
    xs.take n ++ (xs.drop n).take (room-(xs.take n).length) = xs.take room ∧ (xs.drop n).drop (room-(xs.take n).length) = xs.drop room := by
  by_cases long : n ≤ xs.length
  · have sum : n+(room-n) = room := by omega
    rw [List.length_take,Nat.min_eq_left long,← List.take_add,List.drop_drop,sum]
    exact ⟨rfl,rfl⟩
  · have short : xs.length ≤ n := by omega
    rw [List.drop_of_length_le short,List.take_nil,List.drop_nil,List.append_nil,List.take_of_length_le short,
      List.take_of_length_le (short.trans within),List.drop_of_length_le (short.trans within)]
    exact ⟨rfl,rfl⟩

-- The inner loop fills its room, or takes what there is.
theorem fill_chunk {r : Reader} (gives : Gives r) (rounds room : Nat) (enough : room ≤ rounds) :
    ∃ r', fillChunk rounds room r = .ok (r.contents.take room,r') ∧ r'.contents = r.contents.drop room ∧ Gives r' := by
  induction rounds generalizing room r with
  | zero =>
      obtain rfl : room = 0 := by omega
      exact ⟨r,by rw [List.take_zero]; rfl,rfl,gives⟩
  | succ rounds ih =>
      unfold fillChunk
      split
      · rename_i full
        subst full
        exact ⟨r,by rw [List.take_zero],rfl,gives⟩
      · rename_i space
        obtain ⟨most,given⟩ := gives.reads r.calls
        have least : 1 ≤ min (max most 1) room := by omega
        have within : min (max most 1) room ≤ room := by omega
        have read : r.read room = .ok (r.contents.take (min (max most 1) room),
            {r with contents := r.contents.drop (min (max most 1) room),calls := r.calls+1}) := by
          unfold Reader.read
          rw [given]
        generalize min (max most 1) room = n at least within read
        rw [read]
        dsimp only [bind,Except.bind]
        split
        · rename_i ended
          have empty : r.contents = [] := (List.take_eq_nil_iff.mp ended).resolve_left (by omega)
          exact ⟨{r with contents := r.contents.drop n,calls := r.calls+1},by rw [empty,List.take_nil],by simp [empty],⟨gives.reads⟩⟩
        · rename_i some
          have progress := List.length_pos_of_ne_nil some
          obtain ⟨r',filled,rest,still⟩ := ih (r := {r with contents := r.contents.drop n,calls := r.calls+1}) ⟨gives.reads⟩
            (room-(r.contents.take n).length) (by omega)
          obtain ⟨taken,left⟩ := taken_rest r.contents within
          refine ⟨r',?_,rest.trans left,still⟩
          rw [filled]
          exact congrArg (fun got => Except.ok (got,r')) taken

-- The cipher takes every message that is not too long for its counter.
def Seals (cipher : Cipher) : Prop :=
  ∀ (key : SecretKey) (nonce : Nonce) (aad msg : List UInt8), msg.length < 2^38 → ∃ sealed_, cipher.encrypt key.bytes nonce.bytes aad msg = .ok sealed_

-- The chunks of one piece after the other.
inductive SealedFrom (crates : AttachmentCrates) (nonces : Nat → Nonce) (key : SecretKey) (attachmentId : String) (count : UInt32) :
    Nat → List (List UInt8) → List EncryptedChunk → Prop where
  | nil (i : Nat) : SealedFrom crates nonces key attachmentId count i [] []
  | cons {i : Nat} {piece : List UInt8} {chunk : EncryptedChunk} {pieces : List (List UInt8)} {chunks : List EncryptedChunk}
      (made : encryptChunk crates.toCryptoCrates (nonces i) piece key attachmentId i.toUInt32 count = .ok chunk)
      (rest : SealedFrom crates nonces key attachmentId count (i+1) pieces chunks) :
      SealedFrom crates nonces key attachmentId count i (piece :: pieces) (chunk :: chunks)

theorem seal_chunk (seals : Seals crates.cipher) (nonce : Nonce) (attachmentId : String) (index : UInt32) {piece : List UInt8}
    (small : piece.length ≤ maxAttachmentSize) :
    ∃ chunk, encryptChunk crates.toCryptoCrates nonce piece key attachmentId index count = .ok chunk := by
  have limit : maxAttachmentSize = 104857600 := rfl
  obtain ⟨sealed_,is⟩ := seals key nonce (buildChunkAad attachmentChunkVersionV1 attachmentId index count) piece (by omega)
  unfold encryptChunk sealAs
  rw [is]
  exact ⟨_,rfl⟩

theorem piece_at (bytes : List UInt8) (chunkSize i : Nat) : chunkAt bytes chunkSize i = (bytes.drop (i*chunkSize)).take chunkSize := by
  rw [chunkAt,← List.take_eq_take_min,List.drop_take,Nat.add_sub_cancel_left]

-- The outer loop, from any of its turns on.
theorem stream_seals (seals : Seals crates.cipher) (small : bytes.length ≤ maxAttachmentSize) {onChunk : σ → EncryptedChunk → Except CoreError σ}
    {keep : σ → EncryptedChunk → σ} (keeps : ∀ sink chunk, onChunk sink chunk = .ok (keep sink chunk)) (left i : Nat) {reader : Reader} (sink : σ)
    (gives : Gives reader) (here : reader.contents = bytes.drop (i*params.chunkSize)) (more : ∀ k < left, (i+k)*params.chunkSize < bytes.length) :
    ∃ chunks reader', streamChunks crates nonces params key count onChunk left ⟨reader,bytes.take (i*params.chunkSize),i,sink⟩ =
        .ok ⟨reader',bytes.take ((i+left)*params.chunkSize),i+left,chunks.foldl keep sink⟩ ∧
      SealedFrom crates nonces key params.attachmentId count i ((List.range' i left).map (chunkAt bytes params.chunkSize)) chunks := by
  induction left generalizing i reader sink with
  | zero => exact ⟨[],reader,rfl,.nil i⟩
  | succ left ih =>
      obtain ⟨reader',filled,rest,still⟩ := fill_chunk gives params.chunkSize params.chunkSize (Nat.le_refl _)
      have piece : reader.contents.take params.chunkSize = chunkAt bytes params.chunkSize i := by rw [here,piece_at]
      rw [piece] at filled
      have first := more 0 (Nat.succ_pos left)
      rw [Nat.add_zero] at first
      have some : chunkAt bytes params.chunkSize i ≠ [] := by
        intro none
        have length := congrArg List.length none
        rw [piece_at,List.length_take,List.length_drop,List.length_nil] at length
        have positive := params.positive
        omega
      have next : (i+1)*params.chunkSize = i*params.chunkSize+params.chunkSize := Nat.succ_mul i params.chunkSize
      have hashed : bytes.take (i*params.chunkSize) ++ chunkAt bytes params.chunkSize i = bytes.take ((i+1)*params.chunkSize) := by
        rw [piece_at,← List.take_add,next]
      obtain ⟨chunk,made⟩ : ∃ chunk, encryptChunk crates.toCryptoCrates (nonces i) (chunkAt bytes params.chunkSize i) key params.attachmentId
          i.toUInt32 count = .ok chunk := seal_chunk seals (nonces i) params.attachmentId i.toUInt32 ((piece_small i).trans small)
      obtain ⟨chunks,final,streamed,sealed_⟩ := ih (i+1) (keep sink chunk) still (by rw [rest,here,List.drop_drop,next])
        (fun k within => by rw [Nat.add_assoc,Nat.add_comm 1 k]; exact more (k+1) (Nat.succ_lt_succ within))
      refine ⟨chunk :: chunks,final,?_,.cons made sealed_⟩
      have fits : ¬maxAttachmentSize < (bytes.take ((i+1)*params.chunkSize)).length := by
        rw [List.length_take]
        omega
      unfold streamChunks
      dsimp only
      rw [filled]
      dsimp only [Except.mapError,bind,Except.bind]
      rw [if_neg (fun both => some both.1),hashed,if_neg fits,made]
      dsimp only
      rw [keeps]
      dsimp only
      rw [streamed,Nat.add_assoc,Nat.add_comm 1 left]
      rfl

-- As many chunks as the file needs, and one for the empty file.
theorem count_chunks (small : bytes.length ≤ maxAttachmentSize) (positive : 0 < params.chunkSize) :
    (calculateChunkCount bytes.length params.chunkSize).toNat = totalChunksOf bytes.length params.chunkSize := by
  have limit : maxAttachmentSize = 104857600 := rfl
  unfold calculateChunkCount totalChunksOf
  split
  · rfl
  · have few : (bytes.length+params.chunkSize-1) / params.chunkSize ≤ bytes.length := (Nat.div_le_iff_le_mul_add_pred positive).mpr (by
      have grows := Nat.le_mul_of_pos_left bytes.length positive
      omega)
    exact UInt32.toNat_ofNat_of_lt' (show _ < 2^32 by omega)

theorem chunk_starts {size chunkSize j : Nat} (positive : 0 < chunkSize) (before : j < (size+chunkSize-1) / chunkSize) : j*chunkSize < size := by
  have within : (j+1)*chunkSize ≤ size+chunkSize-1 := (Nat.le_div_iff_mul_le positive).mp before
  rw [Nat.succ_mul] at within
  omega

def manifestOf (crates : AttachmentCrates) (params : AttachmentEncryptParams) (bytes : List UInt8) : AttachmentManifest :=
  ⟨params.attachmentId,params.name,params.mime,bytes.length,calculateChunkCount bytes.length params.chunkSize,params.chunkSize.toUInt32,
    some (computeContentHash crates bytes)⟩

theorem stream_encrypts (seals : Seals crates.cipher) (small : bytes.length ≤ maxAttachmentSize) {onChunk : σ → EncryptedChunk → Except CoreError σ}
    {keep : σ → EncryptedChunk → σ} (keeps : ∀ sink chunk, onChunk sink chunk = .ok (keep sink chunk)) {reader : Reader} (gives : Gives reader)
    (holds : reader.contents = bytes) (sink : σ) :
    ∃ chunks, encryptAttachmentStreamWithSink crates nonces reader bytes.length params key onChunk sink =
        .ok (manifestOf crates params bytes,chunks.foldl keep sink) ∧
      SealedFrom crates nonces key params.attachmentId (calculateChunkCount bytes.length params.chunkSize) 0
        (piecesOf bytes params.chunkSize (totalChunksOf bytes.length params.chunkSize)) chunks := by
  unfold encryptAttachmentStreamWithSink
  rw [if_neg (Nat.not_lt.mpr small)]
  dsimp only
  by_cases empty : bytes.length = 0
  · obtain rfl := List.eq_nil_of_length_eq_zero empty
    obtain ⟨chunk,made⟩ : ∃ chunk, encryptChunk crates.toCryptoCrates (nonces 0) [] key params.attachmentId 0 1 = .ok chunk :=
      seal_chunk seals (nonces 0) params.attachmentId 0 small
    have piece : chunkAt [] params.chunkSize 0 = [] := piece_empty empty 0
    refine ⟨[chunk],?_,.cons (by rw [piece]; exact made) (.nil 1)⟩
    rw [if_pos empty,made]
    dsimp only [Except.mapError,bind,Except.bind]
    rw [keeps]
    rfl
  · have total : totalChunksOf bytes.length params.chunkSize = (bytes.length+params.chunkSize-1) / params.chunkSize := if_neg empty
    have starts : ∀ k < totalChunksOf bytes.length params.chunkSize, (0+k)*params.chunkSize < bytes.length := by
      intro k within
      rw [Nat.zero_add]
      exact chunk_starts params.positive (total ▸ within)
    obtain ⟨chunks,final,streamed,sealed_⟩ := @stream_seals crates key params nonces bytes (calculateChunkCount bytes.length params.chunkSize) σ seals
      small onChunk keep keeps (totalChunksOf bytes.length params.chunkSize) 0 reader sink gives (by rw [holds,Nat.zero_mul,List.drop_zero]) starts
    have whole : bytes.take (totalChunksOf bytes.length params.chunkSize*params.chunkSize) = bytes := by
      rw [← pieces_taken]
      exact pieces_whole params.positive
    rw [Nat.zero_mul,List.take_zero,Nat.zero_add,whole] at streamed
    refine ⟨chunks,?_,by rw [piecesOf,List.range_eq_range']; exact sealed_⟩
    rw [if_neg empty,count_chunks small params.positive,streamed]
    dsimp only [bind,Except.bind]
    rw [if_neg (not_not.mpr rfl)]
    rfl

theorem chunk_made {nonce : Nonce} {piece : List UInt8} {attachmentId : String} {index : UInt32} {chunk : EncryptedChunk}
    (made : encryptChunk crates.toCryptoCrates nonce piece key attachmentId index count = .ok chunk) :
    chunk.chunkIndex = index ∧ chunk.totalChunks = count ∧ chunk.attachmentId = attachmentId := by
  obtain ⟨_,_,rfl⟩ := sealed_as made
  exact ⟨rfl,rfl,rfl⟩

-- With its own manifest an attachment opens to its pieces.
theorem sealed_opens_from (lawful : crates.toCryptoCrates.Lawful) {i : Nat} {pieces : List (List UInt8)} {chunks : List EncryptedChunk}
    (sealed_ : SealedFrom crates nonces key manifest.attachmentId manifest.chunkCount i pieces chunks) : OpensFrom crates key manifest i pieces chunks := by
  induction sealed_ with
  | nil i => exact .nil i
  | cons made rest ih =>
      obtain ⟨index,counted,mine⟩ := chunk_made made
      exact .cons index mine counted (chunk_decrypted lawful made) ih

theorem sealed_lengths {i : Nat} {pieces : List (List UInt8)} {chunks : List EncryptedChunk} {attachmentId : String}
    (sealed_ : SealedFrom crates nonces key attachmentId count i pieces chunks) : chunks.length = pieces.length := by
  induction sealed_ with
  | nil i => rfl
  | cons made rest ih => rw [List.length_cons,List.length_cons,ih]

theorem sealed_at {i : Nat} {pieces : List (List UInt8)} {chunks : List EncryptedChunk} {attachmentId : String}
    (sealed_ : SealedFrom crates nonces key attachmentId count i pieces chunks) {k : Nat} {chunk : EncryptedChunk} (is : chunks[k]? = some chunk) :
    chunk.chunkIndex = (i+k).toUInt32 := by
  induction sealed_ generalizing k with
  | nil i => cases is
  | @cons i piece first pieces chunks made rest ih =>
      cases k with
      | zero =>
          obtain rfl : first = chunk := Option.some.inj is
          exact (chunk_made made).1
      | succ k =>
          rw [ih is,Nat.add_assoc,Nat.add_comm 1 k]

theorem stream_whole (lawful : crates.toCryptoCrates.Lawful) (small : bytes.length ≤ maxAttachmentSize) {chunks : List EncryptedChunk}
    (sealed_ : SealedFrom crates nonces key params.attachmentId (calculateChunkCount bytes.length params.chunkSize) 0
      (piecesOf bytes params.chunkSize (totalChunksOf bytes.length params.chunkSize)) chunks) :
    Whole crates key (manifestOf crates params bytes) (piecesOf bytes params.chunkSize (totalChunksOf bytes.length params.chunkSize)) chunks := by
  have length : chunks.length = (calculateChunkCount bytes.length params.chunkSize).toNat := by
    rw [sealed_lengths sealed_,piecesOf,List.length_map,List.length_range,count_chunks small params.positive]
  have own : SealedFrom crates nonces key (manifestOf crates params bytes).attachmentId (manifestOf crates params bytes).chunkCount 0 _ chunks := sealed_
  refine ⟨sealed_opens_from lawful own,?_,?_,?_⟩
  · intro none
    have positive := count_positive small params.positive
    rw [← length,none] at positive
    cases positive
  · rw [length]
    exact UInt32.ofNat_toNat
  · rw [pieces_whole params.positive]
    unfold checkContents
    dsimp only [manifestOf]
    rw [if_neg (not_not.mpr rfl),if_neg (not_not.mpr rfl)]

-- Ideal among the keys that were drawn: none opens what another has sealed.
def Apart (cipher : Cipher) (drawn : SecretKey → Prop) : Prop :=
  ∀ key other, drawn key → drawn other → other.bytes ≠ key.bytes → ∀ nonce aad msg sealed_, cipher.encrypt other.bytes nonce aad msg = .ok sealed_ →
    cipher.decrypt key.bytes nonce aad sealed_ = none

-- A chunk of another attachment, which has another id or another key.
def Foreign (crates : AttachmentCrates) (drawn : SecretKey → Prop) (attachmentId : String) (key : SecretKey) (chunk : EncryptedChunk) : Prop :=
  ∃ nonce piece other otherId index total, encryptChunk crates.toCryptoCrates nonce piece other otherId index total = .ok chunk ∧
    (otherId ≠ attachmentId ∨ drawn other ∧ other.bytes ≠ key.bytes)

theorem foreign_refused (lawful : crates.toCryptoCrates.Lawful) {drawn : SecretKey → Prop} (apart : Apart crates.cipher drawn) (mine : drawn key)
    {attachmentId : String} {chunk : EncryptedChunk} {piece : List UInt8} (foreign : Foreign crates drawn attachmentId key chunk)
    (same : chunk.attachmentId = attachmentId) : decryptChunk crates.toCryptoCrates chunk key ≠ .ok piece := by
  intro opens
  obtain ⟨nonce,msg,other,otherId,index,total,made,different⟩ := foreign
  obtain ⟨ciphertext,is,rfl⟩ := sealed_as made
  rcases different with elsewhere | ⟨drawn_,different⟩
  · exact elsewhere same
  · have refused := apart key other mine drawn_ different _ _ _ _ is
    unfold decryptChunk openWith at opens
    rw [if_neg (not_not.mpr rfl),reads_nonce lawful] at opens
    dsimp only [Except.mapError,bind,Except.bind] at opens
    rw [if_neg (not_not.mpr nonce.sized),lawful.base64.decodeVec] at opens
    dsimp only at opens
    rw [refused] at opens
    cases opens

-- Only the next chunk of the attachment itself opens, turn after turn.
theorem opens_next (lawful : crates.toCryptoCrates.Lawful) {drawn : SecretKey → Prop} (apart : Apart crates.cipher drawn) (mine : drawn key)
    {pieces opened : List (List UInt8)} {chunks list : List EncryptedChunk} {i : Nat}
    (sealed_ : SealedFrom crates nonces key manifest.attachmentId manifest.chunkCount 0 pieces chunks) (few : chunks.length < 2^32)
    (opens : OpensFrom crates key manifest i opened list) (within : i ≤ chunks.length)
    (assembled : ∀ chunk ∈ list, chunk ∈ chunks ∨ Foreign crates drawn manifest.attachmentId key chunk) : list <+: chunks.drop i := by
  induction opens with
  | nil i => exact List.nil_prefix
  | @cons i piece chunk opened list index same counted here rest ih =>
      have own : chunk ∈ chunks :=
        (assembled chunk List.mem_cons_self).resolve_right (fun foreign => foreign_refused lawful apart mine foreign same here)
      obtain ⟨k,short,is⟩ := List.getElem_of_mem own
      have found := sealed_at sealed_ (List.getElem?_eq_some_iff.mpr ⟨short,is⟩)
      have at_ : k = i := by
        have words := congrArg UInt32.toNat (found.symm.trans index)
        have left : k.toUInt32.toNat = k := UInt32.toNat_ofNat_of_lt' (show _ < 2^32 by omega)
        have right : i.toUInt32.toNat = i := UInt32.toNat_ofNat_of_lt' (show _ < 2^32 by omega)
        rwa [Nat.zero_add,left,right] at words
      subst at_
      rw [List.drop_eq_getElem_cons short,is]
      exact List.cons_prefix_cons.mpr ⟨rfl,ih short (fun chunk inside => assembled chunk (List.mem_cons_of_mem _ inside))⟩

theorem accepted_whole (lawful : crates.toCryptoCrates.Lawful) {drawn : SecretKey → Prop} (apart : Apart crates.cipher drawn) (mine : drawn key)
    {pieces opened : List (List UInt8)} {chunks list : List EncryptedChunk}
    (sealed_ : SealedFrom crates nonces key manifest.attachmentId manifest.chunkCount 0 pieces chunks) (length : chunks.length = manifest.chunkCount.toNat)
    (assembled : ∀ chunk ∈ list, chunk ∈ chunks ∨ Foreign crates drawn manifest.attachmentId key chunk)
    (whole : Whole crates key manifest opened list) : list = chunks := by
  have few : chunks.length < 2^32 := length ▸ manifest.chunkCount.toNat_lt
  have front := opens_next lawful apart mine sealed_ few whole.opens (Nat.zero_le _) assembled
  rw [List.drop_zero] at front
  have short := front.length_le
  have words := congrArg UInt32.toNat whole.counted
  have left : list.length.toUInt32.toNat = list.length := UInt32.toNat_ofNat_of_lt' (show _ < 2^32 by omega)
  rw [left,← length] at words
  exact front.eq_of_length words

-- For every reader that gives the file's bytes: the chunks and the manifest read
-- back as the file, and nothing else put together from chunks does.
theorem stream_round_trips {σ ω : Type} (lawful : crates.toCryptoCrates.Lawful) (seals : Seals crates.cipher) {drawn : SecretKey → Prop}
    (apart : Apart crates.cipher drawn) (mine : drawn key) (capacity : Nat) (bytes : List UInt8) (small : bytes.length ≤ maxAttachmentSize)
    (params : AttachmentEncryptParams) (fits : bytes = [] ∨ params.chunkSize ≤ capacity) (nonces : Nat → Nonce) (reader : Reader) (gives : Gives reader)
    (holds : reader.contents = bytes) (onChunk : σ → EncryptedChunk → Except CoreError σ) (keep : σ → EncryptedChunk → σ)
    (keeps : ∀ sink chunk, onChunk sink chunk = .ok (keep sink chunk)) (sink : σ) :
    ∃ (manifest : AttachmentManifest) (chunks : List EncryptedChunk), encryptStreamWithin crates capacity nonces reader bytes.length params key onChunk sink =
        some (.ok (manifest,chunks.foldl keep sink)) ∧
      manifest.chunkCount.toNat = max 1 ((bytes.length+params.chunkSize-1) / params.chunkSize) ∧ chunks.length = manifest.chunkCount.toNat ∧
      (∀ (i : Nat) (chunk : EncryptedChunk), chunks[i]? = some chunk → chunk.chunkIndex.toNat = i) ∧
      (∀ (writer : Writer ω) take, Takes writer take → ∀ w, ∃ pieces : List (List UInt8), pieces.flatten = bytes ∧
        decryptAttachmentStreamWithSource crates key (some manifest) writer chunks w = .ok (bytes.length,pieces.foldl take w)) ∧
      ∀ list, (∀ chunk ∈ list, chunk ∈ chunks ∨ Foreign crates drawn params.attachmentId key chunk) → list ≠ chunks → ∀ (writer : Writer ω) w,
        ∃ e, decryptAttachmentStreamWithSource crates key (some manifest) writer list w = .error e := by
  obtain ⟨chunks,encrypted,sealed_⟩ := @stream_encrypts crates key params nonces bytes σ seals small onChunk keep keeps reader gives holds sink
  have counted := count_chunks small params.positive
  have length : chunks.length = (calculateChunkCount bytes.length params.chunkSize).toNat := by
    rw [sealed_lengths sealed_,piecesOf,List.length_map,List.length_range,counted]
  have few : chunks.length < 2^32 := length ▸ UInt32.toNat_lt _
  refine ⟨manifestOf crates params bytes,chunks,?_,?_,length,?_,?_,?_⟩
  · unfold encryptStreamWithin
    rw [if_neg (fun boundless => ?_),encrypted]
    rcases fits with rfl | room
    · exact boundless.2.1 rfl
    · exact absurd boundless.2.2 (Nat.not_lt.mpr room)
  · show (calculateChunkCount bytes.length params.chunkSize).toNat = _
    rw [counted]
    unfold totalChunksOf
    split
    · rename_i empty
      have none : (bytes.length+params.chunkSize-1) / params.chunkSize = 0 := Nat.div_eq_of_lt (by have := params.positive; omega)
      rw [none]
      rfl
    · have one : 1 ≤ (bytes.length+params.chunkSize-1) / params.chunkSize := (Nat.one_le_div_iff params.positive).mpr (by omega)
      exact (Nat.max_eq_right one).symm
  · intro i chunk is
    have within : i < chunks.length := (List.getElem?_eq_some_iff.mp is).1
    rw [sealed_at sealed_ is,Nat.zero_add]
    exact UInt32.toNat_ofNat_of_lt' (show _ < 2^32 by omega)
  · intro writer take takes w
    refine ⟨_,pieces_whole params.positive,?_⟩
    rw [stream_reads takes (stream_whole lawful small sealed_) w,pieces_whole params.positive]
  · intro list assembled other writer w
    cases result : decryptAttachmentStreamWithSource crates key (some (manifestOf crates params bytes)) writer list w with
    | error e => exact ⟨e,rfl⟩
    | ok value =>
        obtain ⟨opened,whole⟩ := stream_done result
        have own : SealedFrom crates nonces key (manifestOf crates params bytes).attachmentId (manifestOf crates params bytes).chunkCount 0 _ chunks := sealed_
        exact absurd (accepted_whole lawful apart mine own length assembled whole) other

-- Two bytes in chunks of one, and a second key beside the attachment's own.
open AttachmentReadback (smallKey smallNonce smallId standInCrates stand_in_lawful uploadedManifest checked checksum)

def otherKey : SecretKey := ⟨List.replicate 32 1,rfl⟩
def smallCrates : AttachmentCrates := (standInCrates uploadedManifest).toAttachmentCrates
def bytewise : AttachmentEncryptParams := ⟨smallId,"hi.txt","text/plain",1,by decide⟩

theorem two_apart : Apart checked (fun key => key = smallKey ∨ key = otherKey) := by
  intro key other one two different nonce aad msg sealed_ is
  cases is
  have unlike : checksum key.bytes nonce aad msg ≠ checksum other.bytes nonce aad msg := by
    intro same
    have sums := congrArg List.head? same
    simp only [checksum,List.head?_replicate,List.sum_append,Nat.reduceEqDiff,if_false,Option.some.injEq,UInt8.add_left_inj] at sums
    rcases one with rfl | rfl <;> rcases two with rfl | rfl
    all_goals first | exact different rfl | exact absurd sums (by decide)
  unfold checked
  dsimp only
  have length : (msg ++ checksum other.bytes nonce aad msg).length-16 = msg.length := by
    rw [List.length_append,checksum,List.length_replicate,Nat.add_sub_cancel]
  rw [length,List.take_left,if_neg (fun same => unlike (List.append_cancel_left same).symm)]

theorem seals_all : Seals checked := fun _ _ _ _ _ => ⟨_,rfl⟩

theorem two_bytes_round_trip :
    ∃ (manifest : AttachmentManifest) (chunks : List EncryptedChunk),
      encryptStreamWithin smallCrates 4096 (fun _ => smallNonce) ⟨[104,105],fun _ => .ok 1,0⟩ 2 bytewise smallKey
        (fun sink chunk => .ok (sink ++ [chunk])) [] = some (.ok (manifest,chunks)) ∧
      chunks.length = 2 ∧ decryptAttachmentStreamWithSource smallCrates smallKey (some manifest) vec chunks [] = .ok (2,[104,105]) ∧
      ∃ e, decryptAttachmentStreamWithSource smallCrates smallKey (some manifest) vec chunks.reverse [] = .error e := by
  have lawful : smallCrates.toCryptoCrates.Lawful := (stand_in_lawful _).crypto
  obtain ⟨manifest,chunks,encrypted,count,length,ordered,reads,refuses⟩ := @stream_round_trips smallCrates smallKey (List EncryptedChunk) (List UInt8)
    lawful seals_all _ two_apart (.inl rfl) 4096 [104,105] (by decide) bytewise (.inr (by decide)) (fun _ => smallNonce) ⟨[104,105],fun _ => .ok 1,0⟩
    ⟨fun _ => ⟨1,rfl⟩⟩ rfl _ (fun sink chunk => sink ++ [chunk]) (fun _ _ => rfl) []
  rw [List.foldl_append_eq_append] at encrypted
  rw [List.nil_append,← List.flatMap_def,List.flatMap_singleton'] at encrypted
  have two : chunks.length = 2 := length.trans count
  obtain ⟨pieces,whole,decrypted⟩ := reads vec _ vec_takes []
  rw [List.foldl_append_eq_append,List.map_id',whole] at decrypted
  refine ⟨manifest,chunks,encrypted,two,decrypted,refuses chunks.reverse (fun chunk inside => .inl (List.mem_reverse.mp inside)) (fun same => ?_) vec []⟩
  obtain ⟨first,second,rfl⟩ := List.length_eq_two.mp two
  have apart := ordered 0 first rfl
  rw [(List.cons.inj same).1.symm,ordered 1 second rfl] at apart
  cases apart

-- `usize` has such chunk sizes, and no allocator a buffer of that many bytes.
def boundless : AttachmentEncryptParams := ⟨smallId,"hi.txt","text/plain",2^63,by decide⟩

theorem boundless_chunk_panics : ¬∃ result, encryptStreamWithin smallCrates (2^63-1) (fun _ => smallNonce) ⟨[104],fun _ => .ok 1,0⟩ 1 boundless smallKey
    (fun sink chunk => .ok (sink ++ [chunk])) [] = some (.ok result) := by
  rintro ⟨result,returned⟩
  unfold encryptStreamWithin at returned
  rw [if_pos ⟨by decide,by decide,by decide⟩] at returned
  cases returned

end ZkNote.StreamRoundTrip
