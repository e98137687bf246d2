import ZkNote.ConflictResolution
import ZkNote.CycleSteps
import ZkNote.EditAtomicity

namespace ZkNote.MergeBases
open Protocol KeyedTable LocalStorage MutationQueue Conflict Notes LocalEdits EditCharts EditAtomicity

variable {Key Note File : Type} {codec : NoteCodec Key Note} {files : AttachmentCodec Key Note File} {key : Key} {s t : Storage}
  {m row : PendingMutation} {object stored : StoredEncryptedObject} {objectId : String} {revision : Nat} {envelope : EncryptedEnvelope}

-- For a mutation, an object and a revision: the object's version at that revision
-- when the mutation was made.
abbrev Ledger := String → String → Nat → Option EncryptedEnvelope

variable {ledger : Ledger}

def headAt (s : Storage) (objectId : String) (revision : Nat) : Option EncryptedEnvelope :=
  ((s.getObject objectId).filter (fun o => o.revision = revision)).map (·.envelope)

-- The base kept for a mutation is the version it was made on.
def Based (ledger : Ledger) (s : Storage) (m : PendingMutation) : Prop :=
  ∃ envelope, ledger m.mutationId m.objectId m.expectedRevision = some envelope ∧
    s.getBaseVersion m.objectId m.expectedRevision = some envelope

def TrueBases (ledger : Ledger) (s : Storage) : Prop := ∀ m ∈ s.mutations.rows, 0 < m.expectedRevision → Based ledger s m

-- No queued mutation needs another base at this revision.
def Spared (s : Storage) (objectId : String) (revision : Nat) (envelope : EncryptedEnvelope) : Prop :=
  ∀ m ∈ s.mutations.rows, m.objectId = objectId → m.expectedRevision = revision → 0 < revision →
    s.getBaseVersion objectId revision = some envelope

def Rooted (s : Storage) (objectId : String) (revision : Nat) (envelope : EncryptedEnvelope) : Prop :=
  revision = 0 ∨ s.getBaseVersion objectId revision = some envelope

-- An id that is not in use stands for the heads as they are.
def Opened (ledger : Ledger) (s : Storage) : Prop :=
  ∀ mutationId objectId revision, s.getMutation mutationId = none → ledger mutationId objectId revision = headAt s objectId revision

def Same (n m : PendingMutation) : Prop :=
  n.mutationId = m.mutationId ∧ n.objectId = m.objectId ∧ n.expectedRevision = m.expectedRevision

theorem same_refl (m : PendingMutation) : Same m m := ⟨rfl,rfl,rfl⟩

-- What a step did not add to the queue was there before, with the same base.
def Carried (s t : Storage) (m : PendingMutation) : Prop :=
  ∃ n ∈ s.mutations.rows, Same n m ∧
    (0 < m.expectedRevision → t.getBaseVersion m.objectId m.expectedRevision = s.getBaseVersion m.objectId m.expectedRevision)

theorem carried_based (held : TrueBases ledger s) (carried : Carried s t m) (positive : 0 < m.expectedRevision) : Based ledger t m := by
  obtain ⟨n,inside,⟨id,target,expected⟩,kept⟩ := carried
  obtain ⟨envelope,made,base⟩ := held n inside (expected ▸ positive)
  rw [id,target,expected] at made
  rw [target,expected] at base
  exact ⟨envelope,made,(kept positive).trans base⟩

theorem true_carried (held : TrueBases ledger s) (carried : ∀ m ∈ t.mutations.rows, Carried s t m) : TrueBases ledger t :=
  fun m inside positive => carried_based held (carried m inside) positive

theorem true_same (held : TrueBases ledger s) (queue : t.mutations = s.mutations) (bases : t.baseVersions = s.baseVersions) :
    TrueBases ledger t := by
  refine true_carried held (fun m inside => ⟨m,queue ▸ inside,same_refl m,fun _ => ?_⟩)
  rw [Storage.getBaseVersion,bases]
  rfl

theorem true_put_object (held : TrueBases ledger s) (object : StoredEncryptedObject) : TrueBases ledger (s.putObject object) :=
  true_same held rfl rfl

theorem base_put_same (s : Storage) (objectId : String) (revision : Nat) (envelope : EncryptedEnvelope) :
    (s.putBaseVersion objectId revision envelope).getBaseVersion objectId revision = some envelope := by
  have found := find_upsert_same s.baseVersions ⟨objectId,revision,envelope⟩
  simp only [Storage.getBaseVersion,Storage.putBaseVersion]
  rw [found]
  rfl

theorem base_put_other (s : Storage) {objectId target : String} {revision expected : Nat} (envelope : EncryptedEnvelope)
    (other : ¬(target = objectId ∧ expected = revision)) :
    (s.putBaseVersion objectId revision envelope).getBaseVersion target expected = s.getBaseVersion target expected := by
  have apart : (objectId,revision) ≠ (target,expected) := by
    intro is
    cases is
    exact other ⟨rfl,rfl⟩
  have found := find_upsert_other s.baseVersions ⟨objectId,revision,envelope⟩ apart
  simp only [Storage.getBaseVersion,Storage.putBaseVersion]
  rw [found]

theorem true_put_base (held : TrueBases ledger s) (spared : Spared s objectId revision envelope) :
    TrueBases ledger (s.putBaseVersion objectId revision envelope) := by
  refine true_carried held (fun m inside => ⟨m,inside,same_refl m,fun positive => ?_⟩)
  by_cases here : m.objectId = objectId ∧ m.expectedRevision = revision
  · obtain ⟨rfl,rfl⟩ := here
    rw [base_put_same,spared m inside rfl rfl positive]
  · exact base_put_other s envelope here

theorem true_enqueued (held : TrueBases ledger s) (done : s.enqueueMutation m = .ok t)
    (based : 0 < m.expectedRevision → Based ledger s m) : TrueBases ledger t := by
  obtain ⟨fresh,rfl⟩ := enqueue_cases done
  intro n inside positive
  rcases mem_upsert.mp inside with rfl | ⟨old,_⟩
  · exact based positive
  · exact held n old positive

theorem true_queued (held : TrueBases ledger s) (based : s.getMutation m.mutationId = none → 0 < m.expectedRevision → Based ledger s m) :
    TrueBases ledger (queueEdit s m).2 := by
  unfold queueEdit
  cases done : s.enqueueMutation m with
  | error e => exact held
  | ok t => exact true_enqueued held done (based (enqueue_cases done).1)

theorem head_at_held (held : s.getObject objectId = some stored) : headAt s objectId stored.revision = some stored.envelope := by
  simp [headAt,held,Option.filter]

-- A mutation made on a head, once the base is in place.
theorem based_on_head (opened : Opened ledger s) (held : s.getObject m.objectId = some stored) (expected : m.expectedRevision = stored.revision)
    (fresh : s.getMutation m.mutationId = none) (base : t.getBaseVersion m.objectId m.expectedRevision = some stored.envelope) :
    Based ledger t m := by
  refine ⟨stored.envelope,?_,base⟩
  rw [opened _ _ _ fresh,expected]
  exact head_at_held held

theorem true_created (draw : Draw) (content : Content) (held : TrueBases ledger s) :
    TrueBases ledger (Notes.createNote codec key draw content s).2 := by
  unfold Notes.createNote
  split
  · exact held
  · split
    · exact held
    · exact true_queued (true_put_object held _) (fun _ positive => absurd positive (Nat.lt_irrefl 0))

theorem true_updated (draw : Draw) (noteId : String) (content : Content) (held : TrueBases ledger s) (opened : Opened ledger s)
    (spared : ∀ stored prior note, Notes.findNoteObject s noteId false = .ok stored → codec.decrypt stored.envelope key = .ok prior →
      codec.build content.title content.body content.tags (some (codec.createdAt prior)) draw.now = .ok note →
      Spared s stored.objectId stored.revision stored.envelope) :
    TrueBases ledger (Notes.updateNote codec key draw noteId content s).2 := by
  unfold Notes.updateNote
  split
  · exact held
  · rename_i stored found
    obtain ⟨row,_⟩ := NoteEdits.note_found found
    split
    · exact held
    · rename_i prior unsealed
      split
      · exact held
      · rename_i note built
        have kept := true_put_base held (spared stored prior note found unsealed built)
        dsimp only
        split
        · exact kept
        · refine true_queued (true_put_object kept _) (fun fresh _ => ?_)
          exact based_on_head opened row rfl fresh (base_put_same s _ _ _)

theorem true_deleted (draw : Draw) (noteId : String) (held : TrueBases ledger s) (opened : Opened ledger s)
    (spared : ∀ stored, Notes.findNoteObject s noteId false = .ok stored → Spared s stored.objectId stored.revision stored.envelope) :
    TrueBases ledger (Notes.deleteNote draw noteId false s).2 := by
  unfold Notes.deleteNote
  split
  · exact held
  · rename_i stored found
    obtain ⟨row,_⟩ := NoteEdits.note_found found
    have kept := true_put_base held (spared stored found)
    have present : s.objects.find stored.objectId = some stored := row
    simp only [Bool.false_eq_true,if_false,Storage.markDeleted,Storage.putBaseVersion,present]
    refine true_queued (true_put_object kept _) (fun fresh _ => ?_)
    exact based_on_head opened row rfl fresh (base_put_same s _ _ _)

-- A purge forgets the bases whatever is queued.
theorem true_purged (draw : Draw) (noteId : String) (held : TrueBases ledger s)
    (unused : ∀ stored, Notes.findNoteObject s noteId true = .ok stored →
      ∀ m ∈ s.mutations.rows, m.objectId = stored.objectId → m.expectedRevision = 0) :
    TrueBases ledger (Notes.deleteNote draw noteId true s).2 := by
  unfold Notes.deleteNote
  split
  · exact held
  · rename_i stored found
    rw [if_pos rfl]
    refine true_carried held (fun m inside => ⟨m,inside,same_refl m,fun positive => ?_⟩)
    have other : m.objectId ≠ stored.objectId := by
      intro same
      have zero := unused stored found m inside same
      omega
    show ((s.baseVersions.delete _).find _).map _ = (s.baseVersions.find _).map _
    rw [find_delete]
    cases base : s.baseVersions.find (m.objectId,m.expectedRevision) with
    | none => rfl
    | some b =>
        have own := find_key base
        have apart : b.objectId ≠ stored.objectId := by
          rw [(Prod.mk.inj own).1]
          exact other
        simp [Option.filter,apart]

theorem record_never (object : StoredEncryptedObject) (m : PendingMutation) (s : Storage) (c : Nat) :
    record object m ⟨s,never,c⟩ = ((queueEdit (s.putObject object) m).1,⟨(queueEdit (s.putObject object) m).2,never,c+2⟩) := by
  have ran := finish_never object m () s c
  rw [EditAtomicity.bind_pure] at ran
  rw [ran]
  cases (queueEdit (s.putObject object) m).1 <;> rfl

-- A record leaves the head alone, or the head and its queue entry.
theorem after_record {α : Type} {P : Storage → Prop} {rest : Unit → Edit α} (put : P (s.putObject object))
    (more : s.getMutation m.mutationId = none → ∀ n, P (rest () ⟨afterRecord s object m,never,n⟩).2.storage) (c : Nat) :
    P ((record object m >>= rest) ⟨s,never,c⟩).2.storage := by
  have ran := record_never object m s c
  unfold queueEdit at ran
  cases done : (s.putObject object).enqueueMutation m with
  | error e =>
      rw [done] at ran
      rw [bind_error ran]
      exact put
  | ok t =>
      obtain ⟨fresh,is⟩ := enqueue_cases done
      rw [done,is] at ran
      rw [bind_ok ran]
      exact more fresh (c+2)

theorem true_after_record (held : TrueBases ledger s) (based : 0 < m.expectedRevision → Based ledger s m) :
    TrueBases ledger (afterRecord s object m) := by
  intro n inside positive
  rcases mem_upsert.mp inside with rfl | ⟨old,_⟩
  · exact based positive
  · exact held n old positive

theorem unused_before {mutationId : String} (unused : (s.mutations.upsert m).find mutationId = none) : s.getMutation mutationId = none := by
  cases found : s.getMutation mutationId with
  | none => rfl
  | some row =>
      have present : s.mutations.find mutationId = some row := found
      rw [find_upsert] at unused
      split at unused
      · cases unused
      · rw [present] at unused
        cases unused

theorem based_on_root (opened : Opened ledger s) (held : s.getObject m.objectId = some stored) (expected : m.expectedRevision = stored.revision)
    (fresh : s.getMutation m.mutationId = none) (rooted : Rooted t m.objectId m.expectedRevision stored.envelope)
    (positive : 0 < m.expectedRevision) : Based ledger t m :=
  based_on_head opened held expected fresh (rooted.resolve_left (Nat.pos_iff_ne_zero.mp positive))

theorem true_attached (draw : AttachDraw) (noteId : String) (file : Except String File) (customName customMime : Option String)
    (held : TrueBases ledger s) (opened : Opened ledger s)
    (rooted : closing codec files key (.attach draw noteId file customName customMime) s ≠ none →
      ∀ stored, Notes.findNoteObject s noteId false = .ok stored → Rooted s stored.objectId stored.revision stored.envelope) :
    TrueBases ledger (cmdAttach codec files key draw noteId file customName customMime ⟨s,never,0⟩).2.storage := by
  cases file with
  | error e => exact held
  | ok contents =>
      obtain ⟨n,finds⟩ := find_never s noteId false 0
      rw [attach_read]
      cases found : Notes.findNoteObject s noteId false with
      | error e =>
          rw [found] at finds
          rw [bind_error finds]
          exact held
      | ok stored =>
          obtain ⟨row,_⟩ := NoteEdits.note_found found
          rw [found] at finds
          rw [bind_ok finds,attachTo]
          cases unsealed : codec.decrypt stored.envelope key with
          | error e => exact held
          | ok note =>
              rw [core_ok]
              cases manifested : files.encryptManifest draw.seed contents draw.attachmentId customName customMime key with
              | error e => exact held
              | ok manifest =>
                  rw [core_ok]
                  apply after_record (true_put_object held _)
                  intro _ c
                  -- The manifest is queued on no revision.
                  have kept : TrueBases ledger (afterRecord s
                      ⟨draw.attachmentId,objectKindAttachmentManifest,initialObjectRevision,initialServerSeq,false,manifest,draw.now⟩
                      ⟨draw.manifestMutation,draw.attachmentId,initialExpectedRevision,objectKindAttachmentManifest,.upsert,manifest,draw.now,0,.pending⟩) :=
                    true_after_record held (fun positive => absurd positive (Nat.lt_irrefl 0))
                  cases added : addAttachmentToNote files note draw.attachmentId draw.later with
                  | error e => exact kept
                  | ok note =>
                      rw [core_ok]
                      cases sealed : codec.encrypt draw.seed note key stored.objectId with
                      | error e => exact kept
                      | ok envelope =>
                          rw [core_ok]
                          apply after_record (true_put_object kept _)
                          intro fresh c
                          have completes : closing codec files key (.attach draw noteId (.ok contents) customName customMime) s ≠ none := by
                            simp [closing,attachable,opening,found,unsealed,manifested,added,sealed,Except.toOption]
                          apply true_after_record kept
                          exact based_on_root opened row rfl (unused_before fresh) (rooted completes stored found)

theorem true_detached (draw : AttachDraw) (noteId attachmentId : String) (held : TrueBases ledger s) (opened : Opened ledger s)
    (rooted : opening codec files key (.detach draw noteId attachmentId) s ≠ none →
      ∀ stored, Notes.findNoteObject s noteId false = .ok stored → Rooted s stored.objectId stored.revision stored.envelope ∧
        ∀ manifest, s.getObject attachmentId = some manifest →
          attachmentId ≠ stored.objectId ∧ Rooted s attachmentId manifest.revision manifest.envelope) :
    TrueBases ledger (cmdDetach codec files key draw noteId attachmentId ⟨s,never,0⟩).2.storage := by
  obtain ⟨n,finds⟩ := find_never s noteId false 0
  rw [detach_found]
  cases found : Notes.findNoteObject s noteId false with
  | error e =>
      rw [found] at finds
      rw [bind_error finds]
      exact held
  | ok stored =>
      obtain ⟨row,_⟩ := NoteEdits.note_found found
      rw [found] at finds
      rw [bind_ok finds,detachFrom]
      cases unsealed : codec.decrypt stored.envelope key with
      | error e => exact held
      | ok note =>
          rw [core_ok]
          cases removed : removeAttachmentFromNote files note attachmentId draw.later with
          | none => exact held
          | some note =>
              dsimp only
              rw [check_ok]
              cases sealed : codec.encrypt draw.seed note key stored.objectId with
              | error e => exact held
              | ok envelope =>
                  rw [core_ok]
                  have opens : opening codec files key (.detach draw noteId attachmentId) s ≠ none := by
                    simp [opening,found,unsealed,removed,sealed,Except.toOption]
                  obtain ⟨note,manifests⟩ := rooted opens stored found
                  apply after_record (true_put_object held _)
                  intro fresh c
                  have kept : TrueBases ledger (afterRecord s (nextHead stored envelope draw.now)
                      (nextMutation stored envelope draw.noteMutation draw.now)) :=
                    true_after_record held (based_on_root opened row rfl fresh note)
                  have read : LocalEdits.attempt (LocalEdits.getObject attachmentId) ⟨afterRecord s (nextHead stored envelope draw.now)
                      (nextMutation stored envelope draw.noteMutation draw.now),never,c⟩ = (.ok ((s.objects.upsert
                        (nextHead stored envelope draw.now)).find attachmentId),⟨afterRecord s (nextHead stored envelope draw.now)
                      (nextMutation stored envelope draw.noteMutation draw.now),never,c+1⟩) := rfl
                  rw [bind_ok read]
                  by_cases own : attachmentId = stored.objectId
                  · exact absurd own (manifests stored (own ▸ row)).1
                  · rw [find_upsert_other s.objects (nextHead stored envelope draw.now) (fun same => own same.symm)]
                    cases present : s.objects.find attachmentId with
                    | none => exact kept
                    | some manifest =>
                        have ran := record_never (tombstone draw attachmentId manifest) (tombstoneMutation draw attachmentId manifest)
                          (afterRecord s (nextHead stored envelope draw.now) (nextMutation stored envelope draw.noteMutation draw.now)) (c+1)
                        show TrueBases ledger (record (tombstone draw attachmentId manifest) (tombstoneMutation draw attachmentId manifest) _).2.storage
                        rw [ran]
                        refine true_queued (true_put_object kept _) (fun fresh positive => ?_)
                        exact based_on_root opened present rfl (unused_before fresh) (manifests manifest present).2 positive

theorem carried_marked {status : MutationStatus} {retries : UInt32 → UInt32} {mutationId : String}
    (done : mark status retries s mutationId = .ok t) : ∀ m ∈ t.mutations.rows, Carried s t m := by
  intro m inside
  cases found : s.getMutation mutationId with
  | none => simp [mark,found] at done
  | some row =>
      rw [PushSteps.mark_row found] at done
      cases done
      rcases (PushSteps.mem_restatus _ _).mp inside with rfl | ⟨old,_⟩
      · exact ⟨row,find_mem found,⟨rfl,rfl,rfl⟩,fun _ => rfl⟩
      · exact ⟨m,old,same_refl m,fun _ => rfl⟩

theorem carried_kept {status : MutationStatus} {retries : UInt32 → UInt32} (s : Storage) (mutationId : String) :
    ∀ m ∈ (orKeep s (mark status retries s mutationId)).mutations.rows, Carried s (orKeep s (mark status retries s mutationId)) m := by
  unfold orKeep
  split
  · rename_i done
    exact carried_marked done
  · exact fun m inside => ⟨m,inside,same_refl m,fun _ => rfl⟩

theorem carried_reset (s : Storage) : ∀ m ∈ (resetInFlight s).2.mutations.rows, Carried s (resetInFlight s).2 m := by
  intro m inside
  rw [CycleSteps.reset_in_flight_rows] at inside
  obtain ⟨n,old,rfl⟩ := List.mem_map.mp inside
  refine ⟨n,old,?_,fun _ => ?_⟩
  · unfold CycleSteps.refresh
    split <;> exact ⟨rfl,rfl,rfl⟩
  · rw [CycleSteps.reset_in_flight_frame]
    rfl

-- A resolution clears the object's queue and touches nothing else.
theorem removed_all_frame (list : List PendingMutation) (s : Storage) :
    list.foldl (fun s m => s.removeMutation m.mutationId) s =
      {s with mutations := (list.foldl (fun s m => s.removeMutation m.mutationId) s).mutations} := by
  induction list generalizing s with
  | nil => rfl
  | cons n rest ih =>
      rw [List.foldl_cons,ih]
      rfl

theorem removed_all_iff (list : List PendingMutation) (s : Storage) :
    m ∈ (list.foldl (fun s m => s.removeMutation m.mutationId) s).mutations.rows ↔
      m ∈ s.mutations.rows ∧ ∀ n ∈ list, m.mutationId ≠ n.mutationId := by
  induction list generalizing s with
  | nil => simp
  | cons n rest ih =>
      rw [List.foldl_cons,ih,List.forall_mem_cons]
      simp only [Storage.removeMutation,mem_delete,decide_eq_false_iff_not]
      exact and_assoc

theorem removed_frame (s : Storage) (objectId : String) :
    removeForObject s objectId = {s with mutations := (removeForObject s objectId).mutations} := removed_all_frame _ s

theorem removed_rows (inside : m ∈ (removeForObject s objectId).mutations.rows) : m ∈ s.mutations.rows ∧ m.objectId ≠ objectId := by
  obtain ⟨old,others⟩ := (removed_all_iff _ s).mp inside
  refine ⟨old,fun same => ?_⟩
  have listed : m ∈ s.listMutationsForObject objectId :=
    (List.perm_insertionSort _ _).mem_iff.mpr (List.mem_filter.mpr ⟨old,by simpa using same⟩)
  exact others m listed rfl

theorem cleared_rows {r : Storage} (queue : r.mutations = s.mutations) (inside : m ∈ (removeForObject r objectId).mutations.rows) :
    m ∈ s.mutations.rows ∧ m.objectId ≠ objectId := by
  obtain ⟨old,other⟩ := removed_rows inside
  exact ⟨queue ▸ old,other⟩

theorem cleared_base (s : Storage) (objectId other : String) (revision : Nat) :
    (removeForObject s objectId).getBaseVersion other revision = s.getBaseVersion other revision := by
  rw [removed_frame]
  rfl

theorem cleared_objects (s : Storage) (objectId : String) : (removeForObject s objectId).objects = s.objects := by
  rw [removed_frame]

-- Bases of other objects are what they were.
theorem carried_removed (queue : ∀ m ∈ t.mutations.rows, m ∈ s.mutations.rows ∧ m.objectId ≠ objectId)
    (bases : ∀ other revision, other ≠ objectId → t.getBaseVersion other revision = s.getBaseVersion other revision) :
    ∀ m ∈ t.mutations.rows, Carried s t m := by
  intro m inside
  obtain ⟨old,other⟩ := queue m inside
  exact ⟨m,old,same_refl m,fun _ => bases _ _ other⟩

theorem true_acknowledged {stored' : StoredEncryptedObject} {mutationId now : String} {acceptedRevision serverSeq : Nat} (held : TrueBases ledger s)
    (found : s.getMutation mutationId = some row)
    (newest : ∀ m ∈ s.mutations.rows, m.objectId = row.objectId → m.mutationId ≠ mutationId → 0 < m.expectedRevision →
      acceptedRevision ≤ m.expectedRevision)
    (done : acknowledgeAccepted s mutationId acceptedRevision serverSeq now = .ok (stored',t)) : TrueBases ledger t := by
  simp only [acknowledgeAccepted,found] at done
  cases done
  refine true_carried held (fun m inside => ?_)
  obtain ⟨old,other⟩ := mem_delete.mp inside
  refine ⟨m,old,same_refl m,fun positive => ?_⟩
  show ((s.baseVersions.delete _).find _).map _ = (s.baseVersions.find _).map _
  rw [find_delete]
  cases base : s.baseVersions.find (m.objectId,m.expectedRevision) with
  | none => rfl
  | some b =>
      have own := find_key base
      obtain ⟨target,expected⟩ := Prod.mk.inj own
      have spared : ¬(b.objectId = row.objectId ∧ b.revision < acceptedRevision) := by
        rintro ⟨own,older⟩
        have kept := newest m old (target ▸ own) (by simpa using other) positive
        omega
      simp [Option.filter,spared]

end ZkNote.MergeBases
