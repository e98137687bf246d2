import ZkNote.AttachmentStreams

namespace ZkNote.StreamOpening
open Fallible Protocol ChunkFormat AttachmentCrypto Attachments AttachmentStreams

variable {crates : AttachmentCrates} {key : SecretKey} {manifest : AttachmentManifest} {ω : Type} {writer : Writer ω} {take : ω → List UInt8 → ω}
  {i : Nat} {pieces : List (List UInt8)} {chunks : List EncryptedChunk}

-- Chunks that the decryption goes through, each the next of its manifest.
inductive OpensFrom (crates : AttachmentCrates) (key : SecretKey) (manifest : AttachmentManifest) :
    Nat → List (List UInt8) → List EncryptedChunk → Prop where
  | nil (i : Nat) : OpensFrom crates key manifest i [] []
  | cons {i : Nat} {piece : List UInt8} {chunk : EncryptedChunk} {pieces : List (List UInt8)} {chunks : List EncryptedChunk}
      (index : chunk.chunkIndex = i.toUInt32) (mine : chunk.attachmentId = manifest.attachmentId) (counted : chunk.totalChunks = manifest.chunkCount)
      (opens : decryptChunk crates.toCryptoCrates chunk key = .ok piece) (rest : OpensFrom crates key manifest (i+1) pieces chunks) :
      OpensFrom crates key manifest i (piece :: pieces) (chunk :: chunks)

-- A writer that takes what it is given.
structure Takes (writer : Writer ω) (take : ω → List UInt8 → ω) : Prop where
  writes : ∀ w piece, writer.writeAll w piece = .ok (take w piece)
  flushes : ∀ w, writer.flush w = .ok w

theorem opens_decrypt (takes : Takes writer take) (opens : OpensFrom crates key manifest i pieces chunks) (total : Option UInt32)
    (fresh : total = none ∨ total = some manifest.chunkCount) (opened : List UInt8) (w : ω) :
    ∃ total', chunks.foldlM (decryptNext crates key (some manifest) writer) ⟨i.toUInt32,total,opened,w⟩ =
        .ok ⟨(i+chunks.length).toUInt32,total',opened ++ pieces.flatten,pieces.foldl take w⟩ ∧
      (chunks = [] ∧ total' = total ∨ total' = some manifest.chunkCount) := by
  induction opens generalizing total opened w with
  | nil i => exact ⟨total,by rw [List.flatten_nil,List.append_nil]; rfl,.inl ⟨rfl,rfl⟩⟩
  | @cons i piece chunk pieces chunks index mine counted opens rest ih =>
      obtain ⟨total',decrypted,same⟩ := ih (some manifest.chunkCount) (.inr rfl) (opened ++ piece) (take w piece)
      have checked : checkTotal total chunk = .ok manifest.chunkCount := by
        rcases fresh with rfl | rfl
        · exact congrArg Except.ok counted
        · exact if_neg (not_not.mpr counted)
      have passes : checkChunk (some manifest) chunk = .ok () := by
        unfold checkChunk
        dsimp only
        rw [if_neg (not_not.mpr mine),if_neg (not_not.mpr counted)]
      have next : i.toUInt32+1 = (i+1).toUInt32 := (UInt32.ofNat_add i 1).symm
      have step : decryptNext crates key (some manifest) writer ⟨i.toUInt32,total,opened,w⟩ chunk =
          .ok ⟨(i+1).toUInt32,some manifest.chunkCount,opened ++ piece,take w piece⟩ := by
        unfold decryptNext
        rw [if_neg (not_not.mpr index),checked,passes,opens]
        dsimp only [Except.mapError,bind,Except.bind]
        rw [takes.writes,next]
        rfl
      refine ⟨total',?_,.inr (same.elim (·.2) id)⟩
      rw [List.foldlM_cons,step]
      show chunks.foldlM _ _ = _
      rw [decrypted,List.flatten_cons,List.append_assoc,List.foldl_cons,List.length_cons,Nat.add_assoc,Nat.add_comm 1 chunks.length]

-- What one turn of the loop has checked.
theorem next_done {st st' : Opening ω} {chunk : EncryptedChunk} (done : decryptNext crates key (some manifest) writer st chunk = .ok st') :
    chunk.chunkIndex = st.expectedChunkIndex ∧ chunk.attachmentId = manifest.attachmentId ∧ chunk.totalChunks = manifest.chunkCount ∧
      ∃ piece, decryptChunk crates.toCryptoCrates chunk key = .ok piece ∧ st'.expectedChunkIndex = st.expectedChunkIndex+1 ∧
        st'.expectedTotalChunks = some manifest.chunkCount ∧ st'.opened = st.opened ++ piece := by
  unfold decryptNext at done
  obtain ⟨index,done⟩ := passed done
  obtain ⟨expected,checked,done⟩ := bind_done done
  obtain ⟨_,passes,done⟩ := bind_done done
  obtain ⟨piece,opens,done⟩ := bind_done done
  obtain ⟨written,_,done⟩ := bind_done done
  cases done
  unfold checkChunk at passes
  obtain ⟨mine,passes⟩ := passed passes
  obtain ⟨counted,_⟩ := passed passes
  have total : expected = chunk.totalChunks := by
    unfold checkTotal at checked
    split at checked
    · exact (Except.ok.inj checked).symm
    · obtain ⟨same,checked⟩ := passed checked
      exact (Except.ok.inj checked).symm.trans (not_not.mp same).symm
  exact ⟨not_not.mp index,not_not.mp mine,not_not.mp counted,piece,mapped_done opens,rfl,by rw [total,not_not.mp counted],rfl⟩

theorem decrypt_opens {st st' : Opening ω} (index : st.expectedChunkIndex = i.toUInt32)
    (done : chunks.foldlM (decryptNext crates key (some manifest) writer) st = .ok st') :
    ∃ pieces, OpensFrom crates key manifest i pieces chunks ∧ st'.expectedChunkIndex = (i+chunks.length).toUInt32 ∧
      st'.opened = st.opened ++ pieces.flatten ∧ (chunks = [] ∧ st' = st ∨ st'.expectedTotalChunks = some manifest.chunkCount) := by
  induction chunks generalizing i st with
  | nil =>
      cases done
      exact ⟨[],.nil i,index,by rw [List.flatten_nil,List.append_nil],.inl ⟨rfl,rfl⟩⟩
  | cons chunk chunks ih =>
      rw [List.foldlM_cons] at done
      obtain ⟨next,step,done⟩ := bind_done done
      obtain ⟨here,mine,counted,piece,opens,advanced,total,opened⟩ := next_done step
      have index' : next.expectedChunkIndex = (i+1).toUInt32 := by
        rw [advanced,index]
        exact (UInt32.ofNat_add i 1).symm
      obtain ⟨pieces,rest,final,all,last⟩ := ih index' done
      refine ⟨piece :: pieces,.cons (here.trans index) mine counted opens rest,?_,?_,.inr (last.elim (fun none => by rw [none.2]; exact total) id)⟩
      · rw [final,List.length_cons,Nat.add_assoc,Nat.add_comm 1 chunks.length]
      · rw [all,opened,List.flatten_cons,List.append_assoc]

theorem vec_takes : Takes vec (fun w piece => w ++ piece) := ⟨fun _ _ => rfl,fun _ => rfl⟩

-- A list of chunks that is one whole attachment.
structure Whole (crates : AttachmentCrates) (key : SecretKey) (manifest : AttachmentManifest) (pieces : List (List UInt8)) (chunks : List EncryptedChunk) :
    Prop where
  opens : OpensFrom crates key manifest 0 pieces chunks
  nonempty : chunks ≠ []
  counted : chunks.length.toUInt32 = manifest.chunkCount
  contents : checkContents crates (some manifest) pieces.flatten = .ok ()

theorem stream_done {w : ω} {result : Nat × ω} (done : decryptAttachmentStreamWithSource crates key (some manifest) writer chunks w = .ok result) :
    ∃ pieces, Whole crates key manifest pieces chunks := by
  obtain ⟨st,looped,done⟩ := bind_done done
  obtain ⟨pieces,opens,index,opened,total⟩ := decrypt_opens (i := 0) rfl looped
  rcases total with ⟨_,rfl⟩ | counted
  · cases done
  · rw [counted] at done
    obtain ⟨all,done⟩ := passed done
    obtain ⟨_,contents,_⟩ := bind_done done
    rw [opened,List.nil_append] at contents
    rw [Nat.zero_add] at index
    refine ⟨pieces,opens,?_,index.symm.trans (not_not.mp all),contents⟩
    rintro rfl
    cases looped
    cases counted

theorem stream_reads (takes : Takes writer take) (whole : Whole crates key manifest pieces chunks) (w : ω) :
    decryptAttachmentStreamWithSource crates key (some manifest) writer chunks w = .ok (pieces.flatten.length,pieces.foldl take w) := by
  obtain ⟨total,decrypted,counted⟩ := opens_decrypt takes whole.opens none (.inl rfl) [] w
  obtain rfl : total = _ := counted.resolve_left (fun none => whole.nonempty none.1)
  have start : Nat.toUInt32 0 = 0 := rfl
  rw [Nat.zero_add,whole.counted,List.nil_append,start] at decrypted
  unfold decryptAttachmentStreamWithSource
  rw [decrypted]
  dsimp only [bind,Except.bind]
  rw [if_neg (not_not.mpr rfl),whole.contents]
  dsimp only
  rw [takes.flushes]
  rfl

end ZkNote.StreamOpening
