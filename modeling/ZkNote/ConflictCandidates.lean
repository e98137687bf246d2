import ZkNote.LocalEdits
import ZkNote.NoteSets
import ZkNote.CanonicalText
import ZkNote.Conflict

namespace ZkNote.ConflictCandidates
open Protocol KeyedTable LocalStorage Conflict PlaintextNotes NoteErrors Diff3 NoteMerge NoteSets CanonicalText
open LocalEdits (objectKindAttachmentManifest)

variable {Key : Type} {crates : NoteCrates Key} {key : Key} {kind : UInt16} {s : Storage} {tick : Tick}
  {item : PushItemConflict} {now : String} {base mine theirs : PlaintextNote}

-- What a client enqueues: a note, or the manifest of an attachment.
inductive Content (crates : NoteCrates Key) (key : Key) : UInt16 → EncryptedEnvelope → Prop where
  | note (opens : PlaintextNote.decrypt crates envelope key = .ok note) : Content crates key objectKindNote envelope
  | manifest (kind : envelope.objectKind = objectKindAttachmentManifest) (opens : crates.decryptEnvelope envelope key = .ok bytes) :
      Content crates key objectKindAttachmentManifest envelope

-- The object's versions that meet in a conflict: they are of one kind, and they open.
structure Contested (crates : NoteCrates Key) (key : Key) (kind : UInt16) (s : Storage) (item : PushItemConflict) : Prop where
  mine : Content crates key kind item.mutation.envelope
  theirs : Content crates key kind item.conflict.currentEnvelope
  base : ∀ envelope ∈ s.getBaseVersion item.mutation.objectId item.mutation.expectedRevision, Content crates key kind envelope

def deletes (item : PushItemConflict) : Prop := item.mutation.mutationType = .delete ∨ item.conflict.isDeleted = true

-- The crates' part of sealing a note: writing it down and encrypting it do not fail.
structure Seals (crates : NoteCrates Key) : Prop where
  json : ∀ note, ∃ bytes, crates.toJson note = .ok bytes
  cipher : ∀ seed bytes key objectId kind, ∃ envelope, crates.encryptEnvelope seed bytes key objectId kind = .ok envelope

-- An unresolved record of both sides, with the base where one is known.
def Recorded (crates : NoteCrates Key) (key : Key) (now : String) (tick : Tick) (s : Storage) (item : PushItemConflict) : Prop :=
  ∃ record t, recordConflict (noteCodec crates now) (some key) tick s item = .ok (record,t) ∧
    t.conflicts.find record.conflictId = some record ∧ record.resolved = false ∧ record.objectId = item.mutation.objectId ∧
    record.baseEnvelope = s.getBaseVersion item.mutation.objectId item.mutation.expectedRevision ∧
    record.localEnvelope = item.mutation.envelope ∧ record.remoteEnvelope = item.conflict.currentEnvelope

-- The tags that the merge keeps: the candidate is brought into canonical form by
-- the merge, and once more when it is encrypted.
def tagsLeft (lower : String → String) (base mine theirs : List String) : Finset String :=
  refolded lower (refolded lower ((survivors (foldedTags lower base) (foldedTags lower mine) (foldedTags lower theirs)).erase ""))

structure Fits (lower : String → String) (base mine theirs : PlaintextNote) : Prop where
  tagCount : (tagsLeft lower base.tags mine.tags theirs.tags).card ≤ maxTagsCount
  tags : ∀ tag ∈ tagsLeft lower base.tags mine.tags theirs.tags, PlaintextNote.validateTag tag = .ok ()
  attachmentCount : (survivors base.attachments.toFinset mine.attachments.toFinset theirs.attachments.toFinset).card ≤ maxAttachmentsCount
  body : (unixNewlines (stripBom (diff3Merge base.body mine.body theirs.body).mergedText)).utf8ByteSize ≤ maxBodyLen

-- The base note of the merge: the known base version, else a new empty note.
def BaseNote (crates : NoteCrates Key) (key : Key) (now : String) (held : Option EncryptedEnvelope) (base : PlaintextNote) : Prop :=
  match held with
  | some envelope => PlaintextNote.decrypt crates envelope key = .ok base
  | none => base = PlaintextNote.new "" "" now

theorem scalar_value {α : Type} [DecidableEq α] (base mine theirs : α) :
    (mergeScalarField base mine theirs).value = mine ∨ (mergeScalarField base mine theirs).value = theirs := by
  unfold mergeScalarField
  by_cases left : mine = base <;> by_cases right : theirs = base <;> by_cases same : mine = theirs <;>
    simp [left,right,same,FieldMergeStatus.value]

theorem candidate_valid_iff (clock : ∀ field, Rfc3339.validateRfc3339 field now = .ok ()) (mineValid : mine.Valid) (theirsValid : theirs.Valid)
    (created : Rfc3339.validateRfc3339 "created_at" base.createdAt = .ok ()) :
    ((threeWayMergeNote crates.lower now base mine theirs).candidate.canonicalize crates.lower).Valid ↔ Fits crates.lower base mine theirs := by
  let candidate := (threeWayMergeNote crates.lower now base mine theirs).candidate.canonicalize crates.lower
  have tagsSame : ∀ tag, tag ∈ candidate.tags ↔ tag ∈ tagsLeft crates.lower base.tags mine.tags theirs.tags :=
    mem_refolded (mem_refolded (fun tag => mem_mergeTags.trans Finset.mem_erase.symm))
  have tagCount : candidate.tags.length = (tagsLeft crates.lower base.tags mine.tags theirs.tags).card := by
    rw [strict_length (show candidate.tags.Pairwise (· < ·) from canonicalTags_strict)]
    exact congrArg Finset.card (Finset.ext (fun tag => List.mem_toFinset.trans (tagsSame tag)))
  have attachmentCount : candidate.attachments.length =
      (survivors base.attachments.toFinset mine.attachments.toFinset theirs.attachments.toFinset).card := by
    show (mergeAttachments base.attachments mine.attachments theirs.attachments).length = _
    rw [strict_length mergeAttachments_strict]
    exact congrArg Finset.card (Finset.ext (fun att => List.mem_toFinset.trans mem_mergeAttachments))
  have body : candidate.body = unixNewlines (stripBom (diff3Merge base.body mine.body theirs.body).mergedText) := by
    rw [← (mergeBody_diff _ _ _).1]
    exact canonical_body _
  show candidate.Valid ↔ _
  constructor
  · intro valid
    exact ⟨tagCount ▸ valid.tagCount,fun tag inside => valid.tags tag ((tagsSame tag).mpr inside),
      attachmentCount ▸ valid.attachmentCount,body ▸ valid.body⟩
  · intro fits
    refine ⟨rfl,?_,body ▸ fits.body,tagCount ▸ fits.tagCount,fun tag inside => fits.tags tag ((tagsSame tag).mp inside),
      attachmentCount ▸ fits.attachmentCount,?_,created,clock "updated_at"⟩
    · refine ((stripBom_shrinks _).trans (stripBom_shrinks _)).trans ?_
      rcases scalar_value base.title mine.title theirs.title with is | is
      · exact (congrArg String.utf8ByteSize is).le.trans mineValid.title
      · exact (congrArg String.utf8ByteSize is).le.trans theirsValid.title
    · intro att inside
      have kept := mem_mergeAttachments.mp (show att ∈ mergeAttachments base.attachments mine.attachments theirs.attachments from inside)
      simp only [survivors,Finset.mem_union,Finset.mem_inter,Finset.mem_sdiff,List.mem_toFinset] at kept
      rcases kept with ⟨⟨_,held⟩,_⟩ | ⟨held | held,_⟩
      · exact mineValid.attachments att held
      · exact mineValid.attachments att held
      · exact theirsValid.attachments att held

theorem encrypt_iff (seals : Seals crates) (seed : Nat) (note : PlaintextNote) (objectId : String) :
    (∃ envelope, (noteCodec crates now).encrypt seed note key objectId = .ok envelope) ↔ (note.canonicalize crates.lower).Valid := by
  rw [← valid_iff]
  show (∃ envelope, (PlaintextNote.encrypt crates seed note key objectId).mapError _ = .ok envelope) ↔ _
  unfold PlaintextNote.encrypt PlaintextNote.toCanonicalBytes
  dsimp only
  cases checked : (note.canonicalize crates.lower).validate with
  | error e => simp [Except.mapError]
  | ok _ =>
      obtain ⟨bytes,written⟩ := seals.json (note.canonicalize crates.lower)
      obtain ⟨envelope,sealed⟩ := seals.cipher seed bytes key objectId objectKindNote
      simp [written,sealed,Except.mapError]

theorem decrypt_manifest {envelope : EncryptedEnvelope} (is : envelope.objectKind = objectKindAttachmentManifest) :
    ∃ e, (noteCodec crates now).decrypt envelope key = .error e := by
  show ∃ e, (PlaintextNote.decrypt crates envelope key).mapError _ = .error e
  unfold PlaintextNote.decrypt
  split
  · exact ⟨_,rfl⟩
  · rw [if_pos (by rw [is]; decide)]
    exact ⟨_,rfl⟩

-- A record is stored unless a candidate is wanted and cannot be made.
theorem recorded_iff : Recorded crates key now tick s item ↔ deletes item ∨
    ∃ candidate, generateMergeCandidate (noteCodec crates now) key tick.seed (s.getBaseVersion item.mutation.objectId item.mutation.expectedRevision)
      item.mutation.envelope item.conflict.currentEnvelope = .ok candidate := by
  unfold Recorded recordConflict deletes
  dsimp only
  by_cases deleted : item.mutation.mutationType = .delete ∨ item.conflict.isDeleted = true
  · have flag : (decide (item.mutation.mutationType = .delete) || item.conflict.isDeleted) = true := by simpa using deleted
    rw [if_pos flag]
    exact iff_of_true ⟨_,_,rfl,find_upsert_same _ _,rfl,rfl,rfl,rfl,rfl⟩ (.inl deleted)
  · have flag : ¬(decide (item.mutation.mutationType = .delete) || item.conflict.isDeleted) = true := by simpa using deleted
    rw [if_neg flag]
    simp only [deleted,false_or]
    cases made : generateMergeCandidate (noteCodec crates now) key tick.seed
        (s.getBaseVersion item.mutation.objectId item.mutation.expectedRevision) item.mutation.envelope item.conflict.currentEnvelope with
    | error e => simp [Except.map]
    | ok candidate => exact iff_of_true ⟨_,_,rfl,find_upsert_same _ _,rfl,rfl,rfl,rfl,rfl⟩ ⟨candidate,rfl⟩

theorem candidate_made {Note : Type} {codec : NoteCodec Key Note} {base mine theirs : Note} {held : Option EncryptedEnvelope} {left right : EncryptedEnvelope}
    {seed : Nat} (mineOpens : codec.decrypt left key = .ok mine) (theirsOpens : codec.decrypt right key = .ok theirs)
    (baseOpens : held.elim (.ok codec.blank) (fun envelope => codec.decrypt envelope key) = .ok base) :
    (∃ candidate, generateMergeCandidate codec key seed held left right = .ok candidate) ↔
      ∃ envelope, codec.encrypt seed (codec.threeWayMergeNote base mine theirs) key left.objectId = .ok envelope := by
  unfold generateMergeCandidate
  rw [mineOpens,theirsOpens]
  dsimp only
  rw [baseOpens]
  dsimp only
  cases codec.encrypt seed (codec.threeWayMergeNote base mine theirs) key left.objectId <;> simp

theorem opened_valid {envelope : EncryptedEnvelope} {note : PlaintextNote} (opens : PlaintextNote.decrypt crates envelope key = .ok note) : note.Valid :=
  valid_iff.mp (PlaintextNote.decrypt_valid opens)

theorem base_opens {held : Option EncryptedEnvelope} (clock : ∀ field, Rfc3339.validateRfc3339 field now = .ok ())
    (content : ∀ envelope ∈ held, Content crates key objectKindNote envelope) :
    ∃ base, held.elim (.ok (noteCodec crates now).blank) (fun envelope => (noteCodec crates now).decrypt envelope key) = .ok base ∧
      (∀ other, BaseNote crates key now held other ↔ other = base) ∧ Rfc3339.validateRfc3339 "created_at" base.createdAt = .ok () := by
  cases held with
  | none => exact ⟨_,rfl,fun other => Iff.rfl,clock "created_at"⟩
  | some envelope =>
      obtain ⟨opens⟩ := content envelope rfl
      refine ⟨_,codec_decrypted opens now,fun other => ?_,(opened_valid opens).created⟩
      show PlaintextNote.decrypt crates envelope key = .ok other ↔ _
      rw [opens]
      exact ⟨fun is => (Except.ok.inj is).symm,fun is => is ▸ rfl⟩

theorem conflict_recorded_iff (seals : Seals crates) (clock : ∀ field, Rfc3339.validateRfc3339 field now = .ok ())
    (contested : Contested crates key kind s item) :
    Recorded crates key now tick s item ↔ deletes item ∨ kind = objectKindNote ∧ ∃ base mine theirs, BaseNote crates key now (s.getBaseVersion item.mutation.objectId item.mutation.expectedRevision) base ∧
      PlaintextNote.decrypt crates item.mutation.envelope key = .ok mine ∧
      PlaintextNote.decrypt crates item.conflict.currentEnvelope key = .ok theirs ∧ Fits crates.lower base mine theirs := by
  rw [recorded_iff]
  refine or_congr_right ?_
  obtain ⟨mineContent,theirsContent,baseContent⟩ := contested
  generalize s.getBaseVersion item.mutation.objectId item.mutation.expectedRevision = held at baseContent ⊢
  cases mineContent with
  | manifest manifest opens =>
      obtain ⟨e,refused⟩ : ∃ e, (noteCodec crates now).decrypt _ key = .error e := decrypt_manifest manifest
      unfold generateMergeCandidate
      rw [refused]
      refine iff_of_false ?_ (fun is => absurd is.1 (by decide))
      rintro ⟨candidate,made⟩
      cases made
  | note mineOpens =>
      cases theirsContent with
      | note theirsOpens =>
          rename_i mine theirs
          obtain ⟨base,baseOpens,baseIs,created⟩ := base_opens clock baseContent
          rw [candidate_made (codec_decrypted mineOpens now) (codec_decrypted theirsOpens now) baseOpens,encrypt_iff seals]
          rw [show (noteCodec crates now).threeWayMergeNote base mine theirs = (threeWayMergeNote crates.lower now base mine theirs).candidate from rfl,
            candidate_valid_iff clock (opened_valid mineOpens) (opened_valid theirsOpens) created]
          constructor
          · exact fun fits => ⟨rfl,base,mine,theirs,(baseIs base).mpr rfl,mineOpens,theirsOpens,fits⟩
          · rintro ⟨_,base',mine',theirs',baseSame,mineSame,theirsSame,fits⟩
            obtain rfl := (baseIs base').mp baseSame
            cases mineOpens.symm.trans mineSame
            cases theirsOpens.symm.trans theirsSame
            exact fits

def noon : String := "2024-01-02T12:00:00Z"

theorem noon_reads (field : String) : Rfc3339.validateRfc3339 field noon = .ok () := by
  have read : Rfc3339.check noon.toList = .ok () := by decide
  unfold Rfc3339.validateRfc3339
  rw [read]
  rfl

-- Notes with many attachments, each with a letter of its own for an id.
def attached (first count : Nat) : PlaintextNote :=
  { schemaVersion := noteSchemaVersionV1
    title := "title"
    body := "body"
    tags := []
    createdAt := noon
    updatedAt := noon
    attachments := (List.range count).map (fun i => String.singleton (Char.ofNat (first+i))) }

-- Here every note can be written down, also the candidate that is never read back.
def shelfOf (mine theirs : PlaintextNote) : NoteCrates Unit := {NoteCrates.standIn [mine,theirs] with toJson := fun _ => .ok [2]}

theorem shelf_seals (mine theirs : PlaintextNote) : Seals (shelfOf mine theirs) :=
  ⟨fun _ => ⟨_,rfl⟩,fun _ _ _ _ _ => ⟨_,rfl⟩⟩

def editAgainst (mine theirs : EncryptedEnvelope) : PushItemConflict :=
  ⟨⟨change1,firstNote,1,mine.objectKind,.upsert,mine,noon,0,.pending⟩,⟨errorRevisionConflict,firstNote,1,2,7,theirs,false⟩⟩

theorem small_notes_recorded :
    Recorded (shelfOf (attached 0x3b1 2) (attached 0x3041 3)) () noon ⟨noon,change2,change3,0⟩ Storage.new
      (editAgainst (sealedText firstNote "A") (sealedText firstNote "B")) := by
  have contested : Contested (shelfOf (attached 0x3b1 2) (attached 0x3041 3)) () objectKindNote Storage.new
      (editAgainst (sealedText firstNote "A") (sealedText firstNote "B")) :=
    have opensMine : PlaintextNote.decrypt (shelfOf (attached 0x3b1 2) (attached 0x3041 3)) (sealedText firstNote "A") () =
        .ok (attached 0x3b1 2) := by decide +kernel
    have opensTheirs : PlaintextNote.decrypt (shelfOf (attached 0x3b1 2) (attached 0x3041 3)) (sealedText firstNote "B") () =
        .ok (attached 0x3041 3) := by decide +kernel
    ⟨.note opensMine,.note opensTheirs,fun _ held => by cases held⟩
  refine (conflict_recorded_iff (shelf_seals _ _) noon_reads contested).mpr
    (.inr ⟨rfl,PlaintextNote.new "" "" noon,attached 0x3b1 2,attached 0x3041 3,rfl,by decide +kernel,by decide +kernel,?_⟩)
  exact ⟨by decide +kernel,by decide +kernel,by decide +kernel,by decide +kernel⟩

-- Two notes within the limits whose attachments together are not, and two manifests.
theorem candidate_refused :
    let notes := shelfOf (attached 0x3b1 51) (attached 0x3041 51)
    let manifest : EncryptedEnvelope := ⟨envelopeVersionV1,firstNote,objectKindAttachmentManifest,⟨"AAAA","AAAA"⟩,⟨"AAAA","A"⟩⟩
    PlaintextNote.decrypt notes (sealedText firstNote "A") () = .ok (attached 0x3b1 51) ∧
    PlaintextNote.decrypt notes (sealedText firstNote "B") () = .ok (attached 0x3041 51) ∧
    (recordConflict (noteCodec notes noon) (some ()) ⟨noon,change2,change3,0⟩ Storage.new
        (editAgainst (sealedText firstNote "A") (sealedText firstNote "B"))).map (fun _ => ()) =
      .error (.backend "failed to encrypt merge candidate: note validation error: note contains too many attachments (102 > 100)") ∧
    notes.decryptEnvelope manifest () = .ok [0] ∧
    (recordConflict (noteCodec notes noon) (some ()) ⟨noon,change2,change3,0⟩ Storage.new (editAgainst manifest manifest)).map (fun _ => ()) =
      .error (.backend "failed to decrypt local note: note validation error: note serialization error: expected object kind NOTE (1), got 4") := by
  decide +kernel

end ZkNote.ConflictCandidates
