import ZkNote.CanonicalText
import ZkNote.NoteCommands
import ZkNote.NoteEdits
import ZkNote.NoteSets

namespace ZkNote.AttachmentFrame
open Protocol KeyedTable LocalStorage MutationQueue Conflict ConflictResolution Notes NoteErrors PlaintextNotes NoteMerge EditBuffer NoteCommands StdText
open CanonicalText NoteSets

variable {Key : Type} {crates : NoteCrates Key} {key : Key} {s t : Storage} {draw : Draw} {noteId : String} {content : Content}
  {stored : StoredEncryptedObject} {prior note : PlaintextNote} {lower : String → String} {envelope : EncryptedEnvelope}

-- serde_json reads back what it wrote, and the cipher opens what it sealed.
structure RoundTrips (crates : NoteCrates Key) : Prop where
  cipher : ∀ seed bytes key objectId kind envelope, crates.encryptEnvelope seed bytes key objectId kind = .ok envelope →
    envelope.envelopeVersion = envelopeVersionV1 ∧ envelope.objectKind = kind ∧ crates.decryptEnvelope envelope key = .ok bytes
  json : ∀ note bytes, crates.toJson note = .ok bytes → crates.fromJson bytes = .ok note

-- Trimming and lower-casing leave their own results alone.
def FoldStable (lower : String → String) : Prop := ∀ tag, foldTag lower (foldTag lower tag) = foldTag lower tag

theorem encrypted_opens (trips : RoundTrips crates) {seed : Nat} {objectId : String}
    (done : PlaintextNote.encrypt crates seed note key objectId = .ok envelope) :
    PlaintextNote.decrypt crates envelope key = .ok (note.canonicalize crates.lower) := by
  unfold PlaintextNote.encrypt PlaintextNote.toCanonicalBytes at done
  dsimp only at done
  cases valid : (note.canonicalize crates.lower).validate with
  | error e =>
      rw [valid] at done
      cases done
  | ok _ =>
      rw [valid] at done
      cases written : crates.toJson (note.canonicalize crates.lower) with
      | error e =>
          rw [written] at done
          cases done
      | ok bytes =>
          rw [written] at done
          cases sealed : crates.encryptEnvelope seed bytes key objectId objectKindNote with
          | error e =>
              simp only [Except.mapError,sealed] at done
              cases done
          | ok made =>
              simp only [Except.mapError,sealed,Except.ok.injEq] at done
              subst done
              obtain ⟨version,kind,opens⟩ := trips.cipher _ _ _ _ _ _ sealed
              unfold PlaintextNote.decrypt PlaintextNote.fromBytes
              rw [if_neg (not_not.mpr version),if_neg (not_not.mpr kind),opens]
              simp only [trips.json _ _ written,valid,Except.mapError]

theorem built_note {now : String} {builder : NoteBuilder} (done : NoteBuilder.build lower now builder = .ok note) :
    note = PlaintextNote.canonicalize lower ⟨builder.schemaVersion.getD noteSchemaVersionV1,builder.title,builder.body,builder.tags,
      builder.createdAt.getD now,builder.updatedAt.getD now,builder.attachments⟩ := by
  unfold NoteBuilder.build at done
  dsimp only at done
  split at done
  · cases done
  · exact (Except.ok.inj done).symm

-- What an update leaves as the head of the note.
def updatedTo (lower : String → String) (content : Content) (prior : PlaintextNote) (now : String) : PlaintextNote :=
  PlaintextNote.canonicalize lower ⟨noteSchemaVersionV1,content.title,content.body,content.tags,prior.createdAt,now,[]⟩

def Head (crates : NoteCrates Key) (key : Key) (t : Storage) (objectId : String) (after : PlaintextNote) : Prop :=
  ∃ head, t.getObject objectId = some head ∧ PlaintextNote.decrypt crates head.envelope key = .ok after

theorem codec_encrypted (trips : RoundTrips crates) {now : String} {seed : Nat} {objectId : String}
    (done : (noteCodec crates now).encrypt seed note key objectId = .ok envelope) :
    PlaintextNote.decrypt crates envelope key = .ok (note.canonicalize crates.lower) := by
  have done : (PlaintextNote.encrypt crates seed note key objectId).mapError (CoreError.display crates.debug) = .ok envelope := done
  cases made : PlaintextNote.encrypt crates seed note key objectId with
  | error e =>
      rw [made] at done
      cases done
  | ok other =>
      rw [made] at done
      cases done
      exact encrypted_opens trips made

theorem codec_built {now : String} {title body : String} {tags : List String} {createdAt : Option String} {clock : String}
    (stable : FoldStable crates.lower) (done : (noteCodec crates now).build title body tags createdAt clock = .ok note) :
    note = PlaintextNote.canonicalize crates.lower ⟨noteSchemaVersionV1,title,body,tags,createdAt.getD clock,clock,[]⟩ := by
  have done : ((NoteBuilder.build crates.lower clock ⟨none,title,body,tags,createdAt,none,[]⟩).map (PlaintextNote.canonicalize crates.lower)).mapError
      (CoreError.display crates.debug ∘ .validation) = .ok note := done
  cases made : NoteBuilder.build crates.lower clock ⟨none,title,body,tags,createdAt,none,[]⟩ with
  | error e =>
      rw [made] at done
      cases done
  | ok other =>
      rw [made] at done
      have done : PlaintextNote.canonicalize crates.lower other = note := Except.ok.inj done
      rw [← done,built_note made,canonicalize_again stable]
      rfl

theorem update_written (trips : RoundTrips crates) (stable : FoldStable crates.lower) {revision : Nat}
    (found : findNoteObject s noteId false = .ok stored) (opens : PlaintextNote.decrypt crates stored.envelope key = .ok prior)
    (done : updateNote (noteCodec crates draw.now) key draw noteId content s = (.ok revision,t)) :
    Head crates key t stored.objectId (updatedTo crates.lower content prior draw.now) := by
  unfold updateNote at done
  rw [found] at done
  dsimp only at done
  rw [codec_decrypted opens draw.now] at done
  dsimp only at done
  split at done
  · cases done
  · rename_i note built
    split at done
    · cases done
    · rename_i envelope sealed
      unfold queueEdit at done
      split at done
      · cases done
      · rename_i queued enqueued
        obtain rfl := (Prod.mk.inj done).2
        obtain ⟨_,rfl⟩ := enqueue_cases enqueued
        refine ⟨_,find_upsert_same _ _,?_⟩
        rw [codec_encrypted trips sealed,codec_built stable built,canonicalize_again stable]
        rfl

-- Which fields an operation was not asked to change.
structure Untouched where
  title : Bool
  body : Bool
  tags : Bool

def Overrides.untouched (o : Overrides) : Untouched := ⟨o.title.isNone,o.body.isNone,o.tags.isNone⟩

-- Text from an editor states all three fields.
def editUntouched (o : Overrides) : Untouched := if o.any then Overrides.untouched o else ⟨false,false,false⟩

def mergeUntouched (editor : Option Editor) (o : Overrides) : Untouched :=
  if !o.any && editor.isSome then ⟨false,false,false⟩ else Overrides.untouched o

def SameFields (u : Untouched) (before after : PlaintextNote) : Prop :=
  (u.title = true → after.title = before.title) ∧ (u.body = true → after.body = before.body) ∧ (u.tags = true → after.tags = before.tags)

def CanonicalIn (lower : String → String) (u : Untouched) (note : PlaintextNote) : Prop :=
  (u.title = true → stripBom note.title = note.title) ∧ (u.body = true → unixNewlines (stripBom note.body) = note.body) ∧
  (u.tags = true → canonicalTags lower note.tags = note.tags)

def Unchanged (crates : NoteCrates Key) (editor : Editor) (o : Overrides) (note : PlaintextNote) : Prop :=
  editedContent crates editor o note = .ok none ∨ editedContent crates editor o note = .ok (some ⟨note.title,note.body,note.tags⟩)

theorem head_unique {objectId : String} {after other : PlaintextNote} (left : Head crates key t objectId after) (right : Head crates key t objectId other) :
    after = other := by
  obtain ⟨head,held,opens⟩ := left
  obtain ⟨head',held',opens'⟩ := right
  cases held.symm.trans held'
  exact Except.ok.inj (opens.symm.trans opens')

theorem overridden_same {o : Overrides} {before after : PlaintextNote} {now createdAt : String}
    (is : after = PlaintextNote.canonicalize lower
      ⟨noteSchemaVersionV1,(overridden o before).title,(overridden o before).body,(overridden o before).tags,createdAt,now,[]⟩) :
    SameFields (Overrides.untouched o) before after ↔ CanonicalIn lower (Overrides.untouched o) before := by
  subst is
  refine and_congr (forall_congr' (fun free => ?_)) (and_congr (forall_congr' (fun free => ?_)) (forall_congr' (fun free => ?_)))
  · have kept : (overridden o before).title = before.title := by simp [overridden,Option.isNone_iff_eq_none.mp free]
    simp only [PlaintextNote.canonicalize,kept]
  · have kept : (overridden o before).body = before.body := by simp [overridden,Option.isNone_iff_eq_none.mp free]
    simp only [PlaintextNote.canonicalize,kept]
  · have kept : (overridden o before).tags = before.tags := by simp [overridden,Option.isNone_iff_eq_none.mp free]
    simp only [PlaintextNote.canonicalize,kept]

theorem getPlaintextNote_ok (got : getPlaintextNote crates key s noteId = .ok (stored,note)) :
    findNoteObject s noteId false = .ok stored ∧ PlaintextNote.decrypt crates stored.envelope key = .ok note := by
  unfold getPlaintextNote at got
  split at got
  · cases got
  · split at got
    · cases got
    · rename_i obj found _ _ opens
      cases got
      exact ⟨found,opens⟩

theorem found_alive (found : findNoteObject s noteId false = .ok stored) : stored.isDeleted = false := by
  have start : findByStart s noteId false = .ok stored → stored.isDeleted = false := by
    intro found
    unfold findByStart at found
    split at found
    · split at found
      · split at found
        · cases found
        · rename_i alive
          cases found
          simpa using alive
      · simp only at found
        split at found <;> cases found
      · cases found
    · cases found
  unfold findNoteObject at found
  split at found
  · split at found
    · split at found
      · cases found
      · rename_i alive
        cases found
        simpa using alive
    · exact start found
  · exact start found

theorem found_again (found : findNoteObject s noteId false = .ok stored) : findNoteObject s stored.objectId false = .ok stored := by
  obtain ⟨held,kind⟩ := NoteEdits.note_found found
  unfold findNoteObject
  rw [held]
  dsimp only
  rw [if_pos kind,found_alive found]
  rfl

theorem head_iff {objectId : String} {after : PlaintextNote} {P : PlaintextNote → Prop} (head : Head crates key t objectId after) :
    (∃ other, Head crates key t objectId other ∧ P other) ↔ P after :=
  ⟨fun ⟨_,is,holds⟩ => head_unique is head ▸ holds,fun holds => ⟨after,head,holds⟩⟩

theorem edit_fields {editor : Editor} {o : Overrides} {current : PlaintextNote} {new : Content} {now : String}
    (asked : editedContent crates editor o current = .ok (some new)) :
    SameFields (editUntouched o) current (updatedTo crates.lower new current now) ↔ CanonicalIn crates.lower (editUntouched o) current := by
  unfold editUntouched
  by_cases any : o.any = true
  · rw [if_pos any]
    unfold editedContent at asked
    rw [if_pos any] at asked
    obtain rfl := Option.some.inj (Except.ok.inj asked)
    exact overridden_same rfl
  · rw [if_neg any]
    simp [SameFields,CanonicalIn]

theorem edit_kept (trips : RoundTrips crates) (stable : FoldStable crates.lower) {editor : Editor} {o : Overrides} {current : PlaintextNote}
    (got : getPlaintextNote crates key s noteId = .ok (stored,current))
    (done : cmdEdit crates key draw editor noteId o s = (.ok note,t)) :
    (∃ after, Head crates key t stored.objectId after ∧ after.attachments = current.attachments ∧ after.createdAt = current.createdAt ∧
      SameFields (editUntouched o) current after) ↔
    Unchanged crates editor o current ∨ current.attachments = [] ∧ CanonicalIn crates.lower (editUntouched o) current := by
  obtain ⟨found,opens⟩ := getPlaintextNote_ok got
  have same : Head crates key s stored.objectId current := ⟨stored,(NoteEdits.note_found found).1,opens⟩
  unfold cmdEdit at done
  rw [got] at done
  dsimp only at done
  unfold Unchanged
  split at done
  · cases done
  · rename_i none
    cases done
    rw [none]
    exact iff_of_true ⟨_,same,rfl,rfl,fun _ => rfl,fun _ => rfl,fun _ => rfl⟩ (.inl (.inl rfl))
  · rename_i new asked
    rw [asked]
    split at done
    · rename_i equal
      cases done
      obtain ⟨title,body,tags⟩ := new
      obtain ⟨rfl,rfl,rfl⟩ := equal
      exact iff_of_true ⟨_,same,rfl,rfl,fun _ => rfl,fun _ => rfl,fun _ => rfl⟩ (.inl (.inr rfl))
    · rename_i differs
      have changed : ¬((Except.ok (some new) : Except CliError (Option Content)) = .ok none ∨
          (Except.ok (some new) : Except CliError (Option Content)) = .ok (some ⟨current.title,current.body,current.tags⟩)) := by
        rintro (is | is)
        · cases is
        · cases is
          exact differs ⟨rfl,rfl,rfl⟩
      rw [or_iff_right changed]
      split at done
      · cases done
      · rename_i revision written updated
        have head := update_written trips stable (found_again found) opens updated
        split at done
        · cases done
        · cases done
          rw [head_iff head,edit_fields asked,eq_comm (b := current.attachments)]
          exact and_congr_right (fun _ => and_iff_right rfl)

theorem conflict_found {conflictId : String} {conflict : ConflictRecord} (found : findConflictRecord s conflictId = .ok conflict) :
    s.conflicts.find conflict.conflictId = some conflict := by
  unfold findConflictRecord at found
  split at found
  · rename_i held
    cases found
    exact mem_iff_find.mp (find_mem held)
  · split at found
    · split at found
      · rename_i record single
        cases found
        have inside : conflict ∈ s.conflicts.rows.filter (fun r => startsWith r.conflictId conflictId) := single ▸ List.mem_singleton.mpr rfl
        exact mem_iff_find.mp (List.mem_filter.mp inside).1
      · cases found
      · cases found
    · cases found

-- A merge that succeeds makes the given note the head of the conflict's object.
theorem merged_written (trips : RoundTrips crates) {now : String} {retitle : PlaintextNote → String → PlaintextNote} {draw : ResolveDraw}
    {conflict : ConflictRecord} {result : ConflictResolutionResult} (found : s.conflicts.find conflict.conflictId = some conflict)
    (done : resolveConflict (noteCodec crates now) retitle key draw s conflict.conflictId (.merge note) = (.ok result,t)) :
    Head crates key t conflict.objectId (note.canonicalize crates.lower) := by
  unfold resolveConflict at done
  rw [found] at done
  dsimp only at done
  split at done
  · cases done
  · split at done
    · cases done
    · split at done
      · cases done
      · rename_i envelope sealed
        unfold retryWith at done
        dsimp only at done
        split at done
        · cases done
        · rename_i queued enqueued
          cases done
          obtain ⟨_,rfl⟩ := enqueue_cases enqueued
          exact ⟨_,find_upsert_same _ _,codec_encrypted trips sealed⟩

theorem rebuilt_note {now : String} {content : Content} (done : rebuilt crates now content = .ok note) :
    note = PlaintextNote.canonicalize crates.lower ⟨noteSchemaVersionV1,content.title,content.body,content.tags,now,now,[]⟩ := by
  unfold rebuilt at done
  cases built : NoteBuilder.build crates.lower now {title := content.title, body := content.body, tags := content.tags} with
  | error e =>
      rw [built] at done
      cases done
  | ok other =>
      rw [built] at done
      cases done
      exact built_note built

-- No override and no editor: the candidate is taken as it is.
def Automatic (editor : Option Editor) (o : Overrides) : Prop := o.any = false ∧ editor.isNone = true

theorem merged_fields (stable : FoldStable crates.lower) {now : String} {editor : Option Editor} {o : Overrides} {candidate : PlaintextNote}
    (made : mergedNote crates now editor o candidate = .ok note) :
    ((note.canonicalize crates.lower).attachments = candidate.attachments ∧
      SameFields (mergeUntouched editor o) candidate (note.canonicalize crates.lower)) ↔
    (Automatic editor o ∨ candidate.attachments = []) ∧ CanonicalIn crates.lower (mergeUntouched editor o) candidate := by
  unfold mergedNote at made
  unfold mergeUntouched Automatic
  by_cases any : o.any = true
  · rw [if_pos any] at made
    rw [rebuilt_note made,canonicalize_again stable,any]
    simp only [Bool.not_true,Bool.false_and,Bool.false_eq_true,if_false,Bool.true_eq_false,false_and,false_or]
    exact and_congr eq_comm (overridden_same rfl)
  · rw [if_neg any] at made
    cases editor with
    | none =>
        cases made
        have fields : Overrides.untouched o = ⟨true,true,true⟩ := by
          obtain ⟨title,body,tags⟩ := o
          cases title <;> cases body <;> cases tags <;> first | rfl | exact absurd rfl any
        simp only [Bool.not_eq_true] at any
        simp only [any,Option.isSome_none,Bool.and_false,Bool.false_eq_true,if_false,fields,Option.isNone_none,and_self,true_or,true_and]
        exact and_iff_right rfl
    | some edit =>
        dsimp only at made
        split at made
        · cases made
        · split at made
          · cases made
          · simp only [Bool.not_eq_true] at any
            rw [rebuilt_note made,canonicalize_again stable,any]
            simp only [Bool.not_false,Option.isSome_some,Bool.and_self,if_true,Option.isNone_some,Bool.false_eq_true,and_false,false_or]
            exact and_congr eq_comm (by simp [SameFields,CanonicalIn])

theorem merge_kept (trips : RoundTrips crates) (stable : FoldStable crates.lower) {now : String} {seed : Nat} {draw : ResolveDraw}
    {editor : Option Editor} {conflictId : String} {o : Overrides} {conflict : ConflictRecord} {candidate : PlaintextNote}
    {result : ConflictResolutionResult} (found : findConflictRecord s conflictId = .ok conflict)
    (got : candidateNote crates key now seed conflict = .ok candidate)
    (done : cmdResolveMerge crates key now seed draw editor conflictId o s = (.ok result,t)) :
    (∃ after, Head crates key t conflict.objectId after ∧ after.attachments = candidate.attachments ∧
      SameFields (mergeUntouched editor o) candidate after) ↔
    (Automatic editor o ∨ candidate.attachments = []) ∧ CanonicalIn crates.lower (mergeUntouched editor o) candidate := by
  unfold cmdResolveMerge at done
  rw [found] at done
  dsimp only at done
  split at done
  · cases done
  · split at done
    · cases done
    · rw [got] at done
      dsimp only at done
      split at done
      · cases done
      · rename_i merged made
        cases resolved : resolveConflict (noteCodec crates now) (fun note title => {note with title}) key draw s conflict.conflictId (.merge merged) with
        | mk answer after =>
            rw [resolved] at done
            cases answer with
            | error e => cases done
            | ok answer =>
                cases done
                rw [head_iff (merged_written trips (conflict_found found) resolved)]
                exact merged_fields stable made

theorem attachments_survive_iff (trips : RoundTrips crates) (stable : FoldStable crates.lower) :
    (∀ s t draw noteId content stored prior revision, findNoteObject s noteId false = .ok stored →
      PlaintextNote.decrypt crates stored.envelope key = .ok prior →
      updateNote (noteCodec crates draw.now) key draw noteId content s = (.ok revision,t) →
      ((∃ after, Head crates key t stored.objectId after ∧ after.attachments = prior.attachments ∧ after.createdAt = prior.createdAt) ↔
        prior.attachments = [])) ∧
    (∀ s t draw editor noteId o stored current note, getPlaintextNote crates key s noteId = .ok (stored,current) →
      cmdEdit crates key draw editor noteId o s = (.ok note,t) →
      ((∃ after, Head crates key t stored.objectId after ∧ after.attachments = current.attachments ∧ after.createdAt = current.createdAt ∧
          SameFields (editUntouched o) current after) ↔
        Unchanged crates editor o current ∨ current.attachments = [] ∧ CanonicalIn crates.lower (editUntouched o) current)) ∧
    (∀ s t now seed draw editor conflictId o conflict candidate result, findConflictRecord s conflictId = .ok conflict →
      candidateNote crates key now seed conflict = .ok candidate →
      cmdResolveMerge crates key now seed draw editor conflictId o s = (.ok result,t) →
      ((∃ after, Head crates key t conflict.objectId after ∧ after.attachments = candidate.attachments ∧
          SameFields (mergeUntouched editor o) candidate after) ↔
        (Automatic editor o ∨ candidate.attachments = []) ∧ CanonicalIn crates.lower (mergeUntouched editor o) candidate)) := by
  refine ⟨fun s t draw noteId content stored prior revision found opens done => ?_,
    fun s t draw editor noteId o stored current note got done => edit_kept trips stable got done,
    fun s t now seed draw editor conflictId o conflict candidate result found got done => merge_kept trips stable found got done⟩
  rw [head_iff (update_written trips stable found opens done)]
  exact ⟨fun kept => kept.1.symm,fun none => ⟨none.symm,rfl⟩⟩

def morning : String := "2024-01-02T08:00:00Z"
def evening : String := "2024-01-02T20:00:00Z"

def draft (title updatedAt : String) (attachments : List String) : PlaintextNote :=
  ⟨noteSchemaVersionV1,title,"body",["tag"],morning,updatedAt,attachments⟩

-- One stored note and an edit of its title; the shelf holds what is read and written.
def before : Storage := Storage.new.putObject ⟨firstNote,objectKindNote,1,1,false,sealedText firstNote "A",morning⟩

def twoDrafts (attachments : List String) : NoteCrates Unit :=
  NoteCrates.standIn [draft "old" morning attachments,draft "new" evening []]

def editTitle (attachments : List String) : Except CliError PlaintextNote × Storage :=
  cmdEdit (twoDrafts attachments) () ⟨firstNote,change1,evening,0⟩ .ok firstNote ⟨some "new",none,none⟩ before

theorem standIn_trips {shelf : List PlaintextNote} (small : shelf.length ≤ 256) : RoundTrips (NoteCrates.standIn shelf) := by
  constructor
  · intro seed bytes key objectId kind envelope sealed
    cases sealed
    refine ⟨rfl,rfl,congrArg Except.ok ?_⟩
    rw [String.toList_ofList,List.map_map]
    refine (List.map_congr_left (fun b _ => ?_)).trans (List.map_id _)
    have low := b.toNat_lt
    show (Char.toNat (Char.ofNat (65+b.toNat))-65).toUInt8 = b
    have valid : (65+b.toNat).isValidChar := .inl (by omega)
    have code : (Char.ofNat (65+b.toNat)).toNat = 65+b.toNat := by
      rw [Char.ofNat,dif_pos valid]
      rfl
    rw [code,Nat.add_sub_cancel_left]
    exact UInt8.ofNat_toNat
  · intro note bytes written
    simp only [NoteCrates.standIn] at written ⊢
    split at written
    · rename_i inside
      cases written
      have place := List.idxOf_lt_length_iff.mpr inside
      have kept : (shelf.idxOf note).toUInt8.toNat = shelf.idxOf note := Nat.mod_eq_of_lt (by omega)
      have at_ : shelf[shelf.idxOf note]? = some note := (List.getElem?_eq_getElem place).trans (congrArg some (List.getElem_idxOf place))
      simp only [List.head?_cons,Option.bind_some,kept,at_]
    · cases written

theorem plain_draft_kept :
    (editTitle []).1 = .ok (draft "new" evening []) ∧
    ∃ after, Head (twoDrafts []) () (editTitle []).2 firstNote after ∧ after.attachments = [] ∧ after.createdAt = morning ∧
      SameFields ⟨false,true,true⟩ (draft "old" morning []) after := by
  have ran : (editTitle []).1 = .ok (draft "new" evening []) := by decide +kernel
  exact ⟨ran,((attachments_survive_iff (standIn_trips (by decide)) trim_again).2.1 before (editTitle []).2 ⟨firstNote,change1,evening,0⟩ .ok firstNote
    ⟨some "new",none,none⟩ ⟨firstNote,objectKindNote,1,1,false,sealedText firstNote "A",morning⟩ (draft "old" morning []) (draft "new" evening [])
    (by decide +kernel) (Prod.ext ran rfl)).mpr (.inr ⟨rfl,by decide,by decide +kernel,by decide +kernel⟩)⟩

theorem attachment_dropped :
    (getPlaintextNote (twoDrafts ["a1"]) () before firstNote).map (·.2.attachments) = .ok ["a1"] ∧
    (editTitle ["a1"]).1.map (·.attachments) = .ok [] ∧
    (getPlaintextNote (twoDrafts ["a1"]) () (editTitle ["a1"]).2 firstNote).map (·.2) = .ok (draft "new" evening []) := by
  decide +kernel

end ZkNote.AttachmentFrame
