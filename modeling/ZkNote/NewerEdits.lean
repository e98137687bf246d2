import ZkNote.BaseVersions

namespace ZkNote.NewerEdits
open Protocol Adapter KeyedTable LocalStorage MutationQueue PullChanges Conflict ConflictResolution BaseVersions Runs
open EditAtomicity (firstDraw)

variable {World Key Note File : Type} {s t : Storage} {h : History} {conflict : ConflictRecord} {m : PendingMutation}

-- A store with its history: the revisions that pulls brought, when each queued
-- mutation was made, and when the edit was made that a conflict record is about.
structure History where
  storage : Storage
  pulled : List (String × Nat)
  made : String → Nat
  since : String → Nat
  clock : Nat

def History.new : History := ⟨.new,[],fun _ => 0,fun _ => 0,0⟩

-- The changes that a pull applies, also where it fails later on.
def brought : Event World Key Note File → Storage → List (String × Nat)
  | .pull adapter _ options clock fuel w,s =>
    match pullLoop adapter options clock fuel w (startPull s) with
    | some (_,p,_) => p.applied.map (fun change => (change.objectId,change.revision))
    | none => []
  | _,_ => []

-- The mutation whose push an event settles.
def aboutOf : Event World Key Note File → Option String
  | .push _ _ mutation _ => some mutation.mutationId
  | _ => none

def History.next (event : Event World Key Note File) (h : History) (t : Storage) : History where
  storage := t
  pulled := h.pulled ++ brought event h.storage
  made mutationId := if (h.storage.getMutation mutationId).isSome then h.made mutationId else h.clock+1
  since conflictId :=
    if t.conflicts.find conflictId = h.storage.conflicts.find conflictId then h.since conflictId
    else (aboutOf event).elim (h.since conflictId) h.made
  clock := h.clock+1

def step (client : Client Key Note File) (event : Event World Key Note File) (h : History) : Option History :=
  (event.run client h.storage).map (h.next event)

-- What an edit says of its object, and the versions that a record keeps.
def content (m : PendingMutation) : EncryptedEnvelope × Bool := (m.envelope,decide (m.mutationType = .delete))

def versions (r : ConflictRecord) : List (EncryptedEnvelope × Bool) :=
  [(r.localEnvelope,r.localIsDeleted),(r.remoteEnvelope,r.remoteIsDeleted)] ++ (r.baseEnvelope.map (·,false)).toList

inductive Kept (t : Storage) (conflictId : String) (m : PendingMutation) : Prop where
  | queued (inside : n ∈ t.mutations.rows) (target : n.objectId = m.objectId) (same : content n = content m)
  | visible (head : t.getObject m.objectId = some x) (same : (x.envelope,x.isDeleted) = content m)
  | recorded (held : t.conflicts.find conflictId = some r) (inside : content m ∈ versions r)

-- A resolution does not put the object back below a revision that a pull brought,
-- and loses no edit that was made after the one in the record.
structure Lossless (client : Client Key Note File) (h : History) (draw : ResolveDraw) (conflictId : String)
    (strategy : ConflictResolutionStrategy Note) (conflict : ConflictRecord) (t : Storage) : Prop where
  revision : ∀ prior, h.storage.getObject conflict.objectId = some prior → ∀ head, t.getObject conflict.objectId = some head →
    head.revision < prior.revision → ∀ p ∈ h.pulled, p.1 = conflict.objectId → p.2 ≤ head.revision
  edits : ∀ m ∈ h.storage.mutations.rows, m.objectId = conflict.objectId → h.since conflictId < h.made m.mutationId → Kept t conflictId m

def Safe (client : Client Key Note File) : Event World Key Note File → History → Prop
  | .resolve draw conflictId strategy,h =>
    ∀ conflict, h.storage.conflicts.find conflictId = some conflict → conflict.resolved = false →
      Lossless client h draw conflictId strategy conflict
        (resolveConflict client.codec client.retitle client.key draw h.storage conflictId strategy).2
  | _,_ => True

-- The version that a strategy makes the head; `none` where it is refused.
def chosen (codec : NoteCodec Key Note) (key : Key) (draw : ResolveDraw) (conflict : ConflictRecord) :
    ConflictResolutionStrategy Note → Option (EncryptedEnvelope × Bool)
  | .keepLocal | .restoreResurrect => some (conflict.localEnvelope,conflict.localIsDeleted)
  | .keepRemote | .duplicateAsSeparate _ _ => some (conflict.remoteEnvelope,conflict.remoteIsDeleted)
  | .merge mergedNote =>
    if conflict.remoteIsDeleted ∨ conflict.localIsDeleted then none
    else (codec.encrypt draw.seed mergedNote key conflict.objectId).toOption.map (·,false)

def Meets (client : Client Key Note File) : Event World Key Note File → History → Prop
  | .resolve draw conflictId strategy,h =>
    ∀ conflict ∈ h.storage.conflicts.find conflictId, conflict.resolved = false →
      ∀ version ∈ chosen client.codec client.key draw conflict strategy,
        (∀ prior ∈ h.storage.getObject conflict.objectId, conflict.remoteRevision < prior.revision →
          ∀ p ∈ h.pulled, p.1 = conflict.objectId → p.2 ≤ conflict.remoteRevision) ∧
        ∀ m ∈ h.storage.mutations.rows, m.objectId = conflict.objectId → h.since conflictId < h.made m.mutationId →
          content m ∈ version :: versions conflict
  | _,_ => True

instance (client : Client Key Note File) (event : Event World Key Note File) (h : History) : Decidable (Meets client event h) :=
  match event with
  | .resolve .. => @Option.decidableForallMem _ _ (fun _ => instDecidableForall) _
  | .edit _ | .enqueue .. | .enqueueLocal .. | .resetInFlight | .pull .. | .push .. => isTrue trivial

-- `Uuid::new_v4`: the duplicate is not the note itself.
def Drawn : Event World Key Note File → History → Prop
  | .resolve _ conflictId (.duplicateAsSeparate newObjectId _),h =>
    ∀ conflict ∈ h.storage.conflicts.find conflictId, newObjectId ≠ conflict.objectId
  | _,_ => True

instance (event : Event World Key Note File) (h : History) : Decidable (Drawn event h) :=
  match event with
  | .resolve _ _ (.duplicateAsSeparate _ _) => by dsimp only [Drawn]; infer_instance
  | .resolve _ _ .keepLocal | .resolve _ _ .keepRemote | .resolve _ _ .restoreResurrect | .resolve _ _ (.merge _) => isTrue trivial
  | .edit _ | .enqueue .. | .enqueueLocal .. | .resetInFlight | .pull .. | .push .. => isTrue trivial

-- What a resolution that acts leaves of its object.
structure Chosen (s t : Storage) (conflict : ConflictRecord) (version : EncryptedEnvelope × Bool) : Prop where
  head : ∃ x, t.getObject conflict.objectId = some x ∧ x.revision = conflict.remoteRevision ∧ (x.envelope,x.isDeleted) = version
  queue : ∀ n ∈ t.mutations.rows, n.objectId = conflict.objectId → content n = version
  record : ∃ r, t.conflicts.find conflict.conflictId = some r ∧ versions r = versions conflict

-- Resolving a record keeps the versions of every record.
theorem resolve_record_find {id : String} (s : Storage) (conflictId : String) (envelope : Option EncryptedEnvelope) (now : String)
    (held : s.conflicts.find id = some r) :
    ∃ resolved, (resolveRecord s conflictId envelope now).conflicts.find id = some resolved ∧ versions resolved = versions r := by
  unfold resolveRecord
  dsimp only
  rw [find_update,held]
  refine ⟨_,rfl,?_⟩
  dsimp only
  split <;> rfl

theorem retry_chosen (draw : ResolveDraw) (mutationType : MutationType) (envelope : EncryptedEnvelope)
    (held : s.conflicts.find conflict.conflictId = some conflict) :
    Chosen s (retryWith draw conflict mutationType envelope s).2 conflict (envelope,decide (mutationType = .delete)) := by
  let head := headOf conflict (decide (mutationType = .delete)) envelope draw.now
  let written := (removeForObject s conflict.objectId).putObject head
  have record : written.conflicts = s.conflicts := by
    show (removeForObject s conflict.objectId).conflicts = s.conflicts
    rw [MergeBases.removed_frame]
  have visible : written.getObject conflict.objectId = some head := find_upsert_same (removeForObject s conflict.objectId).objects head
  unfold retryWith
  dsimp only
  split
  · refine ⟨⟨head,visible,rfl,rfl⟩,fun n inside target => ?_,⟨conflict,record ▸ held,rfl⟩⟩
    exact absurd target (MergeBases.cleared_rows (r := s) rfl inside).2
  · rename_i after queued
    obtain ⟨_,rfl⟩ := enqueue_cases queued
    refine ⟨⟨head,visible,rfl,rfl⟩,fun n inside target => ?_,resolve_record_find _ _ _ _ (record ▸ held)⟩
    rcases mem_upsert.mp inside with rfl | ⟨old,_⟩
    · rfl
    · exact absurd target (MergeBases.cleared_rows (r := s) rfl old).2

theorem accepted_chosen (draw : ResolveDraw) (held : s.conflicts.find conflict.conflictId = some conflict) :
    Chosen s (acceptRemote draw conflict s) conflict (conflict.remoteEnvelope,conflict.remoteIsDeleted) := by
  refine ⟨⟨_,find_upsert_same (removeForObject s conflict.objectId).objects (headOf conflict conflict.remoteIsDeleted conflict.remoteEnvelope draw.now),
    rfl,rfl⟩,fun n inside target => absurd target (MergeBases.cleared_rows (r := s) rfl inside).2,⟨conflict,?_,rfl⟩⟩
  show (removeForObject s conflict.objectId).conflicts.find _ = _
  rw [MergeBases.removed_frame]
  exact held

-- What a copy of the local version adds stands beside the note.
theorem chosen_beside {objectId : String} (held : Chosen s t conflict version) (apart : objectId ≠ conflict.objectId) {u : Storage}
    (objects : ∀ x, u.getObject x = t.getObject x ∨ x = objectId)
    (queue : ∀ n ∈ u.mutations.rows, n ∈ t.mutations.rows ∨ n.objectId = objectId) (record : u.conflicts = t.conflicts) :
    Chosen s u conflict version := by
  refine ⟨?_,fun n inside target => ?_,record ▸ held.record⟩
  · rw [(objects conflict.objectId).resolve_right (Ne.symm apart)]
    exact held.head
  · rcases queue n inside with old | new
    · exact held.queue n old target
    · exact absurd (new.symm.trans target) apart

theorem chosen_resolved (held : Chosen s t conflict version) (envelope : Option EncryptedEnvelope) (now : String) :
    Chosen s (resolveRecord t conflict.conflictId envelope now) conflict version := by
  obtain ⟨r,found,same⟩ := held.record
  obtain ⟨resolved,kept,alike⟩ := resolve_record_find t conflict.conflictId envelope now found
  exact ⟨held.head,held.queue,resolved,kept,alike.trans same⟩

theorem resolve_chosen (client : Client Key Note File) (draw : ResolveDraw) {strategy : ConflictResolutionStrategy Note}
    (held : s.conflicts.find conflictId = some conflict) (open_ : conflict.resolved = false)
    (apart : ∀ newObjectId newTitle, strategy = .duplicateAsSeparate newObjectId newTitle → newObjectId ≠ conflict.objectId)
    (acts : chosen client.codec client.key draw conflict strategy = some version) :
    Chosen s (resolveConflict client.codec client.retitle client.key draw s conflictId strategy).2 conflict version := by
  have own : conflict.conflictId = conflictId := find_key held
  have held' : s.conflicts.find conflict.conflictId = some conflict := own ▸ held
  simp only [resolveConflict,held,open_,Bool.false_eq_true,if_false]
  cases strategy with
  | keepLocal =>
      cases acts
      have kept := retry_chosen draw (if conflict.localIsDeleted then .delete else .upsert) conflict.localEnvelope held'
      cases gone : conflict.localIsDeleted <;> simpa [gone] using kept
  | restoreResurrect =>
      cases acts
      have kept := retry_chosen draw (if conflict.localIsDeleted then .delete else .upsert) conflict.localEnvelope held'
      cases gone : conflict.localIsDeleted <;> simpa [gone] using kept
  | keepRemote =>
      cases acts
      exact chosen_resolved (accepted_chosen draw held') _ _
  | merge mergedNote =>
      simp only [chosen] at acts
      dsimp only
      split at acts
      · cases acts
      · rename_i alive
        rw [if_neg alive]
        cases sealed : client.codec.encrypt draw.seed mergedNote client.key conflict.objectId with
        | error e =>
            rw [sealed] at acts
            cases acts
        | ok merged =>
            rw [sealed] at acts
            cases acts
            exact retry_chosen draw .upsert merged held'
  | duplicateAsSeparate newObjectId newTitle =>
      cases acts
      have accepted := accepted_chosen draw held'
      have other := apart newObjectId newTitle rfl
      dsimp only
      split
      · exact accepted
      · split
        · exact accepted
        · split
          · exact accepted
          · rename_i dupMutation after queued
            have copied : Chosen s after conflict (conflict.remoteEnvelope,conflict.remoteIsDeleted) := by
              unfold enqueueUpsert enqueueTyped at queued
              split at queued
              · cases queued
              · dsimp only at queued
                split at queued
                · cases queued
                · rename_i done
                  cases queued
                  obtain ⟨_,rfl⟩ := enqueue_cases done
                  refine chosen_beside accepted other ?_ ?_ ?_
                  · intro x
                    split
                    · split <;> exact .inl rfl
                    · exact .inl rfl
                  · intro n inside
                    rcases mem_upsert.mp inside with rfl | ⟨old,_⟩
                    · exact .inr rfl
                    · refine .inl ?_
                      split at old
                      · split at old <;> exact old
                      · exact old
                  · split
                    · split <;> rfl
                    · rfl
            refine chosen_resolved (t := after.putObject _) (chosen_beside copied other (fun x => ?_) (fun n inside => .inl inside) rfl) _ _
            by_cases same : x = newObjectId
            · exact .inr same
            · exact .inl (find_upsert_other _ _ (Ne.symm same))

theorem resolve_refused (client : Client Key Note File) (draw : ResolveDraw) {strategy : ConflictResolutionStrategy Note}
    (held : s.conflicts.find conflictId = some conflict) (open_ : conflict.resolved = false)
    (idle : chosen client.codec client.key draw conflict strategy = none) :
    (resolveConflict client.codec client.retitle client.key draw s conflictId strategy).2 = s := by
  simp only [resolveConflict,held,open_,Bool.false_eq_true,if_false]
  cases strategy with
  | merge mergedNote =>
      simp only [chosen] at idle
      dsimp only
      split at idle
      · rename_i gone
        rw [if_pos gone]
      · rename_i alive
        rw [if_neg alive]
        cases sealed : client.codec.encrypt draw.seed mergedNote client.key conflict.objectId with
        | error e => rfl
        | ok merged =>
            rw [sealed] at idle
            cases idle
  | keepLocal => cases idle
  | keepRemote => cases idle
  | restoreResurrect => cases idle
  | duplicateAsSeparate newObjectId newTitle => cases idle

theorem kept_chosen {conflictId : String} (own : conflict.conflictId = conflictId) (left : Chosen s t conflict version)
    (target : m.objectId = conflict.objectId) : Kept t conflictId m ↔ content m ∈ version :: versions conflict := by
  obtain ⟨⟨x,head,_,visible⟩,queue,⟨r,record,same⟩⟩ := left
  constructor
  · intro kept
    cases kept with
    | queued inside at_ is => exact List.mem_cons.mpr (.inl (is.symm.trans (queue _ inside (at_.trans target))))
    | visible head' is =>
        rw [target,head] at head'
        cases head'
        exact List.mem_cons.mpr (.inl (is.symm.trans visible))
    | recorded held inside =>
        rw [← own,record] at held
        cases held
        exact List.mem_cons_of_mem _ (same ▸ inside)
  · intro inside
    rcases List.mem_cons.mp inside with is | old
    · exact .visible (target ▸ head) (visible.trans is.symm)
    · exact .recorded (own ▸ record) (same ▸ old)

theorem safe_iff (client : Client Key Note File) (event : Event World Key Note File) (h : History) (drawn : Drawn event h) :
    Safe client event h ↔ Meets client event h := by
  cases event with
  | resolve draw conflictId strategy =>
      refine forall_congr' fun conflict => imp_congr_right fun found => imp_congr_right fun open_ => ?_
      have own : conflict.conflictId = conflictId := find_key found
      cases acts : chosen client.codec client.key draw conflict strategy with
      | none =>
          refine iff_of_true ?_ (fun version is => by cases is)
          rw [resolve_refused client draw found open_ acts]
          refine ⟨fun prior before head after lower => ?_,fun m inside _ _ => .queued inside rfl rfl⟩
          rw [before] at after
          cases after
          exact absurd lower (Nat.lt_irrefl _)
      | some version =>
          have apart : ∀ newObjectId newTitle, strategy = .duplicateAsSeparate newObjectId newTitle → newObjectId ≠ conflict.objectId := by
            rintro newObjectId newTitle rfl
            exact drawn conflict found
          have left := resolve_chosen client draw found open_ apart acts
          obtain ⟨x,head,at_,_⟩ := left.head
          constructor
          · rintro ⟨revision,edits⟩ _ is
            cases is
            refine ⟨fun prior before lower p pulled own => at_ ▸ revision prior before x head (at_ ▸ lower) p pulled own,
              fun m inside target later => ?_⟩
            exact (kept_chosen own left target).mp (edits m inside target later)
          · intro meets
            obtain ⟨revision,edits⟩ := meets version rfl
            refine ⟨fun prior before other after lower p pulled own => ?_,fun m inside target later => ?_⟩
            · rw [head] at after
              cases after
              exact at_ ▸ revision prior before (at_ ▸ lower) p pulled own
            · exact (kept_chosen own left target).mpr (edits m inside target later)
  | _ => exact Iff.rfl

-- From an empty store, by edits, sync cycles and resolutions: no resolution of a run
-- loses anything newer exactly if all meet their condition.
theorem resolutions_safe_iff (client : Client Key Note File) (events : List (Event World Key Note File))
    (drawn : Along (step client) Drawn events .new) :
    Along (step client) (Safe client) events .new ↔ Along (step client) (Meets client) events .new :=
  along_congr (safe_iff client) events drawn

-- A note is synchronised, edited, and pushed into a conflict; it is edited again, and
-- then the conflict is resolved for the local version.
def editedAgain : List (Event Unit Unit String String) :=
  [shopping,
   .push .default ⟨"2026-01-01T00:00:01Z","","",0⟩ ⟨firstDraw.mutationId,firstDraw.objectId,0,objectKindNote,.upsert,
      sealedText firstDraw.objectId "AAAA","2026-01-01T00:00:00Z",0,.pending⟩ (.ok ⟨firstDraw.objectId,1,1⟩),
   .edit (.update ⟨"",change1,"2026-01-01T00:00:02Z",0⟩ firstDraw.objectId ⟨"Shopping","BBBB",[]⟩),
   .push .default ⟨"2026-01-01T00:00:03Z",change2,"",0⟩ ⟨change1,firstDraw.objectId,1,objectKindNote,.upsert,
      sealedText firstDraw.objectId "BBBB","2026-01-01T00:00:02Z",0,.pending⟩
      (.error (.conflict ⟨errorRevisionConflict,firstDraw.objectId,1,2,2,sealedText firstDraw.objectId "DDDD",false⟩)),
   .edit (.update ⟨"",change3,"2026-01-01T00:00:04Z",0⟩ firstDraw.objectId ⟨"Shopping","CCCC",[]⟩)]

def keepMine : Event Unit Unit String String := .resolve ⟨"2026-01-01T00:00:05Z","2026-01-01T00:00:05Z",change4,0⟩ change2 .keepLocal

theorem edited_again_lost :
    (runAll (step .standIn) (editedAgain ++ [keepMine]) .new).isSome = true ∧
    ¬Along (step .standIn) (Safe .standIn) (editedAgain ++ [keepMine]) .new ∧
    ∀ h ∈ runAll (step .standIn) (editedAgain ++ [keepMine]) .new,
      h.storage.mutations.rows.map (·.envelope) = [sealedText firstDraw.objectId "BBBB"] ∧
      h.storage.objects.rows.map (·.envelope) = [sealedText firstDraw.objectId "BBBB"] := by
  have drawn : Along (step .standIn) Drawn (editedAgain ++ [keepMine]) .new := by decide +kernel
  have unmet : ¬Along (step .standIn) (Meets .standIn) (editedAgain ++ [keepMine]) .new := by decide +kernel
  refine ⟨by decide +kernel,fun safe => unmet ?_,by decide +kernel⟩
  exact (along_congr (safe_iff .standIn) _ drawn).mp safe

-- With nothing edited since, the same resolution is safe.
theorem edited_once_kept :
    (runAll (step .standIn) (editedAgain.take 4 ++ [keepMine]) .new).isSome = true ∧
    Along (step .standIn) (Safe .standIn) (editedAgain.take 4 ++ [keepMine]) .new :=
  ⟨by decide +kernel,(resolutions_safe_iff .standIn _ (by decide +kernel)).mpr (by decide +kernel)⟩

end ZkNote.NewerEdits
