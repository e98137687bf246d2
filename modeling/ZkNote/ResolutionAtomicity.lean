import ZkNote.MergeBases

namespace ZkNote.ResolutionAtomicity
open Protocol KeyedTable LocalStorage MutationQueue Conflict ConflictResolution

variable {Key Note : Type} {s t : Storage} {conflict : ConflictRecord} {conflictId : String} {e : QueueError}

-- The storage itself refused a write; every other error is the content's.
def storageFailed : QueueError → Bool
  | .storage (.alreadyExists _ _) | .storage (.notFound _ _) => true
  | _ => false

-- An error that the content causes leaves everything as it was.
def Atomic (codec : NoteCodec Key Note) (retitle : Note → String → Note) (key : Key) (draw : ResolveDraw) (s : Storage)
    (conflictId : String) (strategy : ConflictResolutionStrategy Note) : Prop :=
  ∀ e t, resolveConflict codec retitle key draw s conflictId strategy = (.error e,t) → storageFailed e = false → t = s

-- The local version cannot be made a note of its own.
def uncopied (codec : NoteCodec Key Note) (retitle : Note → String → Note) (key : Key) (draw : ResolveDraw) (conflict : ConflictRecord)
    (newObjectId : String) (newTitle : Option String) : Bool :=
  match codec.decrypt conflict.localEnvelope key with
  | .error _ => true
  | .ok localNote =>
    match codec.encrypt draw.seed (newTitle.elim localNote (retitle localNote)) key newObjectId with
    | .error _ => true
    | .ok dupEnvelope => decide (dupEnvelope.objectId ≠ newObjectId)

-- The remote version is the head already, to the clock reading, with nothing queued.
structure Stands (draw : ResolveDraw) (conflict : ConflictRecord) (s : Storage) : Prop where
  head : s.getObject conflict.objectId = some (headOf conflict conflict.remoteIsDeleted conflict.remoteEnvelope draw.now)
  queue : s.listMutationsForObject conflict.objectId = []

def Meets (codec : NoteCodec Key Note) (retitle : Note → String → Note) (key : Key) (draw : ResolveDraw) (s : Storage)
    (conflictId : String) : ConflictResolutionStrategy Note → Prop
  | .duplicateAsSeparate newObjectId newTitle =>
    ∀ conflict, s.conflicts.find conflictId = some conflict → conflict.resolved = false →
      uncopied codec retitle key draw conflict newObjectId newTitle = true → Stands draw conflict s
  | _ => True

theorem accept_remote_stands (draw : ResolveDraw) : acceptRemote draw conflict s = s ↔ Stands draw conflict s := by
  constructor
  · intro same
    refine ⟨?_,?_⟩
    · rw [← same]
      exact find_upsert_same (removeForObject s conflict.objectId).objects (headOf conflict conflict.remoteIsDeleted conflict.remoteEnvelope draw.now)
    · have none : s.mutations.rows.filter (fun m => m.objectId = conflict.objectId) = [] := by
        refine List.filter_eq_nil_iff.mpr (fun m inside own => ?_)
        rw [← same] at inside
        exact (MergeBases.removed_rows inside).2 (by simpa using own)
      simp [Storage.listMutationsForObject,none]
  · rintro ⟨head,queue⟩
    have kept : removeForObject s conflict.objectId = s := by
      rw [removeForObject,queue]
      rfl
    rw [acceptRemote,kept,Storage.putObject]
    have objects : s.objects.upsert (headOf conflict conflict.remoteIsDeleted conflict.remoteEnvelope draw.now) = s.objects :=
      upsert_same head
    rw [objects]

theorem retry_failed {draw : ResolveDraw} {mutationType : MutationType} {envelope : EncryptedEnvelope}
    (failed : retryWith draw conflict mutationType envelope s = (.error e,t)) : storageFailed e = true := by
  unfold retryWith Storage.enqueueMutation at failed
  dsimp only at failed
  split at failed
  · rename_i refused
    split at refused
    · cases refused
      cases failed
      rfl
    · cases refused
  · cases failed

theorem enqueue_upsert_failed {s : Storage} {objectId mutationId now : String} {kind : UInt16} {revision : Nat} {envelope : EncryptedEnvelope}
    (own : envelope.objectId = objectId)
    (failed : enqueueUpsert s objectId kind revision envelope mutationId now = .error e) : storageFailed e = true := by
  unfold enqueueUpsert enqueueTyped Storage.enqueueMutation at failed
  rw [if_neg (not_not.mpr own)] at failed
  dsimp only at failed
  split at failed
  · rename_i refused
    split at refused
    · cases refused
      cases failed
      rfl
    · cases refused
  · cases failed

-- A duplicate that cannot be made fails with the remote version accepted.
theorem uncopied_fails (codec : NoteCodec Key Note) (retitle : Note → String → Note) (key : Key) (draw : ResolveDraw)
    {newObjectId : String} {newTitle : Option String} (found : s.conflicts.find conflictId = some conflict) (open_ : conflict.resolved = false)
    (broken : uncopied codec retitle key draw conflict newObjectId newTitle = true) :
    ∃ e, resolveConflict codec retitle key draw s conflictId (.duplicateAsSeparate newObjectId newTitle) =
      (.error e,acceptRemote draw conflict s) ∧ storageFailed e = false := by
  simp only [resolveConflict,found,open_,Bool.false_eq_true,if_false]
  unfold uncopied at broken
  cases opened : codec.decrypt conflict.localEnvelope key with
  | error message => exact ⟨_,rfl,rfl⟩
  | ok localNote =>
      simp only [opened] at broken
      dsimp only
      cases sealed : codec.encrypt draw.seed (newTitle.elim localNote (retitle localNote)) key newObjectId with
      | error message => exact ⟨_,rfl,rfl⟩
      | ok dupEnvelope =>
          simp only [sealed,decide_eq_true_eq] at broken
          simp only [enqueueUpsert,enqueueTyped,if_pos broken]
          exact ⟨_,rfl,rfl⟩

theorem copied_fails {codec : NoteCodec Key Note} {retitle : Note → String → Note} {key : Key} {draw : ResolveDraw}
    {newObjectId : String} {newTitle : Option String} (found : s.conflicts.find conflictId = some conflict) (open_ : conflict.resolved = false)
    (whole : uncopied codec retitle key draw conflict newObjectId newTitle = false)
    (failed : resolveConflict codec retitle key draw s conflictId (.duplicateAsSeparate newObjectId newTitle) = (.error e,t)) :
    storageFailed e = true := by
  simp only [resolveConflict,found,open_,Bool.false_eq_true,if_false] at failed
  unfold uncopied at whole
  cases opened : codec.decrypt conflict.localEnvelope key with
  | error message => simp [opened] at whole
  | ok localNote =>
      simp only [opened] at whole failed
      cases sealed : codec.encrypt draw.seed (newTitle.elim localNote (retitle localNote)) key newObjectId with
      | error message => simp [sealed] at whole
      | ok dupEnvelope =>
          simp only [sealed,decide_eq_false_iff_not,not_not] at whole failed
          split at failed
          · rename_i refused
            cases failed
            exact enqueue_upsert_failed whole refused
          · cases failed

theorem resolution_atomic_iff (codec : NoteCodec Key Note) (retitle : Note → String → Note) (key : Key) (draw : ResolveDraw) (s : Storage)
    (conflictId : String) (strategy : ConflictResolutionStrategy Note) :
    Atomic codec retitle key draw s conflictId strategy ↔ Meets codec retitle key draw s conflictId strategy := by
  cases found : s.conflicts.find conflictId with
  | none =>
      refine iff_of_true (fun e t failed _ => ?_) ?_
      · simp only [resolveConflict,found] at failed
        exact (congrArg Prod.snd failed).symm
      · cases strategy <;> simp [Meets,found]
  | some conflict =>
      cases closed : conflict.resolved with
      | true =>
          refine iff_of_true (fun e t failed _ => ?_) ?_
          · simp only [resolveConflict,found,closed,if_true] at failed
            exact (congrArg Prod.snd failed).symm
          · cases strategy <;> simp [Meets,found,closed]
      | false =>
          cases strategy with
          | keepLocal =>
              refine iff_of_true (fun e t failed passing => ?_) trivial
              simp only [resolveConflict,found,closed,Bool.false_eq_true,if_false] at failed
              exact absurd (retry_failed failed) (by simp [passing])
          | restoreResurrect =>
              refine iff_of_true (fun e t failed passing => ?_) trivial
              simp only [resolveConflict,found,closed,Bool.false_eq_true,if_false] at failed
              exact absurd (retry_failed failed) (by simp [passing])
          | keepRemote =>
              refine iff_of_true (fun e t failed _ => ?_) trivial
              simp [resolveConflict,found,closed] at failed
          | merge mergedNote =>
              refine iff_of_true (fun e t failed passing => ?_) trivial
              simp only [resolveConflict,found,closed,Bool.false_eq_true,if_false] at failed
              split at failed
              · exact (congrArg Prod.snd failed).symm
              · -- The note is sealed before the first write.
                split at failed
                · exact (congrArg Prod.snd failed).symm
                · exact absurd (retry_failed failed) (by simp [passing])
          | duplicateAsSeparate newObjectId newTitle =>
              constructor
              · intro atomic other found' _ broken
                cases found.symm.trans found'
                obtain ⟨e,fails,passing⟩ := uncopied_fails codec retitle key draw found closed broken
                exact (accept_remote_stands draw).mp (atomic e _ fails passing)
              · intro meets e t failed passing
                cases copy : uncopied codec retitle key draw conflict newObjectId newTitle with
                | true =>
                    obtain ⟨_,fails,_⟩ := uncopied_fails codec retitle key draw found closed copy
                    rw [fails] at failed
                    cases failed
                    exact (accept_remote_stands draw).mpr (meets conflict found closed copy)
                | false => exact absurd (copied_fails found closed copy failed) (by simp [passing])

-- The note of one queued edit is in conflict, and its copy's title does not seal.
def edited : PendingMutation := queued change1 firstNote 1 .pending "BBBB" "2026-01-01T00:00:00Z"

def openConflict : ConflictRecord :=
  ⟨change2,firstNote,objectKindNote,1,2,none,sealedText firstNote "BBBB",sealedText firstNote "CCCC",none,false,false,false,
    "2026-01-01T00:00:00Z",none⟩

def inConflict : Storage := ((Storage.new.enqueueMutation edited).toOption.getD .new).putConflict openConflict

theorem duplicate_half_made :
    let ran := resolveConflict .standIn (fun _ title => title) () ⟨"2026-01-01T00:00:01Z","2026-01-01T00:00:01Z",change3,0⟩ inConflict change2
      (.duplicateAsSeparate secondNote (some "??"))
    (ran.1.toOption = none ∧ ran.2.mutations.rows = [] ∧ inConflict.mutations.rows = [edited]) ∧
    ¬Atomic .standIn (fun _ title => title) () ⟨"2026-01-01T00:00:01Z","2026-01-01T00:00:01Z",change3,0⟩ inConflict change2
      (.duplicateAsSeparate secondNote (some "??")) := by
  refine ⟨by decide +kernel,fun atomic => ?_⟩
  have same := atomic (.storage (.backend "failed to encrypt duplicated note: not Base64")) _ rfl rfl
  have emptied : inConflict.mutations.rows ≠ [] := by decide +kernel
  exact emptied (by rw [← same]; decide +kernel)

end ZkNote.ResolutionAtomicity
