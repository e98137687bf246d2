import ZkNote.ConflictReports
import ZkNote.NewerEdits

namespace ZkNote.OpenConflicts
open Protocol Adapter KeyedTable LocalStorage MutationQueue Conflict ConflictResolution PushChanges BaseVersions Runs Notes LocalEdits
open EditAtomicity (Op firstDraw)

variable {World Key Note File α β : Type} {s t : Storage} {w : Watch} {record : ConflictRecord} {conflictId : String}

-- An edit that leaves the conflict records alone.
def Apart (x : Edit α) : Prop := ∀ d, (x d).2.storage.conflicts = d.storage.conflicts

theorem apart_pure (a : α) : Apart (pure a : Edit α) := fun _ => rfl

theorem apart_check (result : Except CliError α) : Apart (check result) := fun _ => rfl

theorem apart_core (result : Except String α) : Apart (core result) := fun _ => rfl

theorem apart_bind {x : Edit α} {g : α → Edit β} (one : Apart x) (two : ∀ a, Apart (g a)) : Apart (x >>= g) := by
  intro d
  have first := one d
  cases ran : x d with
  | mk result d' =>
      rw [ran] at first
      cases result with
      | error e =>
          rw [EditCharts.bind_error ran]
          exact first
      | ok a =>
          rw [EditCharts.bind_ok ran]
          exact (two a d').trans first

theorem apart_call {step : Storage → Except StorageError (α × Storage)} (steady : ∀ s a t, step s = .ok (a,t) → t.conflicts = s.conflicts) :
    Apart (call step) := by
  intro ⟨s,f,c⟩
  cases fault : f c with
  | some e => rw [EditCharts.call_fault fault]
  | none =>
      cases done : step s with
      | error e => rw [EditCharts.call_refused fault done]
      | ok pair =>
          rw [EditCharts.call_ok fault done]
          exact steady s _ _ done

theorem apart_dropped {x : Edit α} (one : Apart x) : Apart (EditCharts.dropResult x) := fun d => one d

theorem apart_attempt {x : Edit (Option α)} (one : Apart x) : Apart (LocalEdits.attempt x) := by
  intro d
  have first := one d
  unfold LocalEdits.attempt
  split
  · rename_i ran
    rw [ran] at first
    exact first
  · rename_i ran
    rw [ran] at first
    exact first

theorem apart_get (objectId : String) : Apart (getObject objectId) := apart_call (fun s a t done => by cases done; rfl)

theorem apart_put (object : StoredEncryptedObject) : Apart (putObject object) := apart_call (fun s a t done => by cases done; rfl)

theorem apart_base (objectId : String) (revision : Nat) (envelope : EncryptedEnvelope) : Apart (putBaseVersion objectId revision envelope) :=
  apart_call (fun s a t done => by cases done; rfl)

theorem apart_mapped {step : Storage → Except StorageError Storage} (steady : ∀ s t, step s = .ok t → t.conflicts = s.conflicts) :
    Apart (call (fun s => (step s).map (fun s => ((),s)))) := by
  refine apart_call (fun s a t done => ?_)
  cases made : step s with
  | error e =>
      rw [made] at done
      cases done
  | ok u =>
      rw [made] at done
      cases done
      exact steady s _ made

theorem apart_record (object : StoredEncryptedObject) (mutation : PendingMutation) : Apart (LocalEdits.record object mutation) :=
  apart_bind (apart_put object) (fun _ => apart_mapped (fun _ _ made => ConflictReports.enqueued_conflicts made))

theorem apart_list (filter : ObjectFilter) : Apart (listObjects filter) := apart_call (fun s a t done => by cases done; rfl)

theorem apart_start (noteId : String) (includeDeleted : Bool) : Apart (LocalEdits.findByStart noteId includeDeleted) := by
  unfold LocalEdits.findByStart
  split
  · refine apart_bind (apart_list _) (fun all => ?_)
    split
    · exact apart_check _
    · split
      · exact apart_check _
      · refine apart_bind (apart_list _) (fun all => ?_)
        split <;> exact apart_check _
    · exact apart_check _
  · exact apart_check _

theorem apart_find (noteId : String) (includeDeleted : Bool) : Apart (LocalEdits.findNoteObject noteId includeDeleted) := by
  refine apart_bind (apart_get noteId) (fun found => ?_)
  split
  · split
    · exact apart_check _
    · exact apart_start noteId includeDeleted
  · exact apart_start noteId includeDeleted

theorem apart_op (codec : NoteCodec Key Note) (files : AttachmentCodec Key Note File) (key : Key) (op : Op File) :
    Apart (op.run codec files key) := by
  cases op with
  | create draw content =>
      refine apart_dropped (apart_bind (apart_core _) fun note => apart_bind (apart_core _) fun envelope => ?_)
      exact apart_bind (apart_record _ _) fun _ => apart_pure _
  | update draw noteId content =>
      refine apart_dropped (apart_bind (apart_find _ _) fun stored => apart_bind (apart_core _) fun prior => ?_)
      refine apart_bind (apart_core _) fun note => apart_bind (apart_base _ _ _) fun _ => apart_bind (apart_core _) fun envelope => ?_
      exact apart_bind (apart_record _ _) fun _ => apart_pure _
  | delete draw noteId purge =>
      refine apart_dropped (apart_bind (apart_find _ _) fun stored => ?_)
      split
      · refine apart_bind (apart_call (fun s a t done => by cases done; rfl)) fun _ => ?_
        exact apart_bind (apart_call (fun s a t done => by cases done; rfl)) fun _ => apart_pure _
      · refine apart_bind (apart_base _ _ _) fun _ => apart_bind (apart_mapped ?_) fun _ => ?_
        · intro s t marked
          unfold Storage.markDeleted at marked
          split at marked <;> cases marked
          rfl
        · exact apart_bind (apart_mapped (fun _ _ made => ConflictReports.enqueued_conflicts made)) fun _ => apart_pure _
  | attach draw noteId file customName customMime =>
      refine apart_dropped (apart_bind (apart_check _) fun file => apart_bind (apart_find _ _) fun stored => ?_)
      refine apart_bind (apart_core _) fun note => apart_bind (apart_core _) fun manifest => apart_bind (apart_record _ _) fun _ => ?_
      refine apart_bind (apart_core _) fun note => apart_bind (apart_core _) fun envelope => ?_
      exact apart_bind (apart_record _ _) fun _ => apart_pure _
  | detach draw noteId attachmentId =>
      refine apart_bind (apart_find _ _) fun stored => apart_bind (apart_core _) fun note => apart_bind (apart_check _) fun note => ?_
      refine apart_bind (apart_core _) fun envelope => apart_bind (apart_record _ _) fun _ => ?_
      refine apart_bind (apart_attempt (apart_get _)) fun manifest => ?_
      split
      · exact apart_pure _
      · exact apart_record _ _

theorem archive_conflicts (s : Storage) (objectId : String) (revision : Nat) : (archive s objectId revision).conflicts = s.conflicts := by
  unfold archive
  split
  · split <;> rfl
  · rfl

theorem enqueue_leaves_conflicts (mutationType : MutationType) (s : Storage) (objectId : String) (objectKind : UInt16) (revision : Nat)
    (envelope : EncryptedEnvelope) (mutationId now : String) :
    (enqueueLeaves mutationType s objectId objectKind revision envelope mutationId now).conflicts = s.conflicts := by
  unfold enqueueLeaves
  by_cases own : envelope.objectId = objectId
  · rw [enqueue_archives mutationType s objectKind revision mutationId now own]
    cases done : (archive s objectId revision).enqueueMutation ⟨mutationId,objectId,revision,objectKind,mutationType,envelope,now,0,.pending⟩ with
    | error e => exact archive_conflicts s objectId revision
    | ok t => exact (ConflictReports.enqueued_conflicts done).trans (archive_conflicts s objectId revision)
  · rw [enqueueTyped,if_pos own]

-- Only a push and a resolution touch the conflict records.
theorem event_apart (client : Client Key Note File) {event : Event World Key Note File} (ran : event.run client s = some t)
    (unpushed : ∀ options tick mutation answer, event ≠ .push options tick mutation answer)
    (unresolved : ∀ draw conflictId strategy, event ≠ .resolve draw conflictId strategy) : t.conflicts = s.conflicts := by
  cases event with
  | edit op =>
      cases ran
      exact apart_op client.codec client.files client.key op _
  | enqueue =>
      cases ran
      exact enqueue_leaves_conflicts _ _ _ _ _ _ _ _
  | enqueueLocal mutationType objectId envelope mutationId now =>
      cases ran
      cases present : s.getObject objectId with
      | some head =>
          rw [enqueue_local_present mutationType envelope mutationId now present]
          exact enqueue_leaves_conflicts _ _ _ _ _ _ _ _
      | none =>
          rcases enqueue_local_absent mutationType envelope mutationId now present with same | same <;> rw [same]
          exact enqueue_leaves_conflicts _ _ _ _ _ _ _ _
  | resetInFlight =>
      cases ran
      rw [CycleSteps.reset_in_flight_frame]
  | pull =>
      obtain ⟨⟨_,u,_⟩,pulled,rfl⟩ := Option.map_eq_some_iff.mp ran
      exact (PullChanges.pull_frame pulled).conflicts
  | push options tick mutation answer => exact absurd rfl (unpushed options tick mutation answer)
  | resolve draw conflictId strategy => exact absurd rfl (unresolved draw conflictId strategy)

-- A store with the mutation each record was made for, and the latest remote
-- revision that an answer reported for each mutation.
structure Watch where
  storage : Storage
  source : String → Option String
  latest : String → Nat

def Watch.new : Watch := ⟨.new,fun _ => none,fun _ => 0⟩

-- A conflict the server answers to a queued mutation.
def reported : Event World Key Note File → Storage → Option (String × Nat)
  | .push _ _ mutation (.error (.conflict c)),s =>
    if (s.getMutation mutation.mutationId).isSome then some (mutation.mutationId,c.currentRevision) else none
  | _,_ => none

def Watch.next (event : Event World Key Note File) (w : Watch) (t : Storage) : Watch where
  storage := t
  source conflictId :=
    if t.conflicts.find conflictId = w.storage.conflicts.find conflictId then w.source conflictId
    else (NewerEdits.aboutOf event).or (w.source conflictId)
  latest mutationId :=
    match reported event w.storage with
    | some (id,revision) => if id = mutationId then revision else w.latest mutationId
    | none => w.latest mutationId

def step (client : Client Key Note File) (event : Event World Key Note File) (w : Watch) : Option Watch :=
  (event.run client w.storage).map (w.next event)

structure OpenFor (w : Watch) (mutationId : String) (r : ConflictRecord) : Prop where
  held : r ∈ w.storage.conflicts.rows
  unresolved : r.resolved = false
  source : w.source r.conflictId = some mutationId

-- At most one open record for each mutation, with the latest revision reported.
structure OneOpen (w : Watch) : Prop where
  sourced : ∀ r ∈ w.storage.conflicts.rows, ∃ mutationId, w.source r.conflictId = some mutationId
  one : ∀ mutationId r₁ r₂, OpenFor w mutationId r₁ → OpenFor w mutationId r₂ → r₁ = r₂
  latest : ∀ mutationId r, OpenFor w mutationId r → r.remoteRevision = w.latest mutationId

-- No server answers a conflict to a mutation whose conflict is open already.
def Meets (event : Event World Key Note File) (w : Watch) : Prop :=
  ∀ answer ∈ reported event w.storage, ∀ r ∈ w.storage.conflicts.rows, r.resolved = false → w.source r.conflictId ≠ some answer.1

instance (event : Event World Key Note File) (w : Watch) : Decidable (Meets event w) := by
  unfold Meets
  infer_instance

-- What may become of the records: nothing, one more for a reported conflict, or
-- one of them resolved.
inductive Touched (event : Event World Key Note File) (s t : Storage) : Prop where
  | same (conflicts : t.conflicts = s.conflicts)
  | added (record : ConflictRecord) (about : NewerEdits.aboutOf event = some mutationId)
      (answer : reported event s = some (mutationId,record.remoteRevision)) (conflicts : t.conflicts = s.conflicts.upsert record)
  | resolved (conflictId : String) (about : NewerEdits.aboutOf event = none) (silent : reported event s = none)
      (conflicts : t.conflicts = (resolveRecord s conflictId envelope now).conflicts)

theorem resolve_record_same {u : Storage} (same : u.conflicts = s.conflicts) (conflictId : String) (envelope : Option EncryptedEnvelope) (now : String) :
    (resolveRecord u conflictId envelope now).conflicts = (resolveRecord s conflictId envelope now).conflicts := by
  unfold resolveRecord
  dsimp only
  rw [same]

theorem retry_touches {draw : ResolveDraw} {conflict : ConflictRecord} {mutationType : MutationType} {envelope : EncryptedEnvelope}
    {result : Except QueueError ConflictResolutionResult} (ran : retryWith draw conflict mutationType envelope s = (result,t)) :
    (t.conflicts = s.conflicts ∧ ∃ e, result = .error e) ∨
    t.conflicts = (resolveRecord s conflict.conflictId (some envelope) draw.now).conflicts := by
  have cleared := ConflictReports.cleared_conflicts s conflict.objectId
  unfold retryWith at ran
  dsimp only at ran
  split at ran
  · cases ran
    exact .inl ⟨cleared,_,rfl⟩
  · rename_i queued
    cases ran
    exact .inr (resolve_record_same ((ConflictReports.enqueued_conflicts queued).trans cleared) _ _ _)

theorem enqueue_upsert_conflicts {objectId mutationId now : String} {objectKind : UInt16} {revision : Nat} {envelope : EncryptedEnvelope}
    {m : PendingMutation} (done : enqueueUpsert s objectId objectKind revision envelope mutationId now = .ok (m,t)) : t.conflicts = s.conflicts := by
  have left := enqueue_leaves_conflicts .upsert s objectId objectKind revision envelope mutationId now
  rw [enqueueLeaves,show enqueueTyped .upsert s objectId objectKind revision envelope mutationId now = _ from done] at left
  exact left

-- A resolution that succeeds closes its record, and no other ending touches one.
theorem resolution_touches {codec : NoteCodec Key Note} {retitle : Note → String → Note} {key : Key} {draw : ResolveDraw}
    {strategy : ConflictResolutionStrategy Note} {result : Except QueueError ConflictResolutionResult}
    (ran : resolveConflict codec retitle key draw s conflictId strategy = (result,t)) :
    (t.conflicts = s.conflicts ∧ ∃ e, result = .error e) ∨
    ∃ record envelope now, s.conflicts.find conflictId = some record ∧ record.resolved = false ∧
      t.conflicts = (resolveRecord s conflictId envelope now).conflicts := by
  unfold resolveConflict at ran
  split at ran
  · cases ran
    exact .inl ⟨rfl,_,rfl⟩
  · rename_i conflict found
    obtain rfl : conflict.conflictId = conflictId := find_key found
    have accepted : ∀ draw, (acceptRemote draw conflict s).conflicts = s.conflicts := fun draw => ConflictReports.cleared_conflicts s conflict.objectId
    by_cases closed : conflict.resolved = true
    · rw [if_pos closed] at ran
      cases ran
      exact .inl ⟨rfl,_,rfl⟩
    · rw [if_neg closed] at ran
      have retried : ∀ {mutationType envelope}, retryWith draw conflict mutationType envelope s = (result,t) →
          (t.conflicts = s.conflicts ∧ ∃ e, result = .error e) ∨
          ∃ record envelope now, s.conflicts.find conflict.conflictId = some record ∧ record.resolved = false ∧
            t.conflicts = (resolveRecord s conflict.conflictId envelope now).conflicts := by
        intro mutationType envelope ran
        exact (retry_touches ran).imp_right (fun same => ⟨conflict,_,_,found,Bool.eq_false_iff.mpr closed,same⟩)
      cases strategy with
      | keepLocal => exact retried ran
      | restoreResurrect => exact retried ran
      | keepRemote =>
          cases ran
          exact .inr ⟨conflict,_,_,found,Bool.eq_false_iff.mpr closed,resolve_record_same (accepted draw) _ _ _⟩
      | merge mergedNote =>
          dsimp only at ran
          split at ran
          · cases ran
            exact .inl ⟨rfl,_,rfl⟩
          · split at ran
            · cases ran
              exact .inl ⟨rfl,_,rfl⟩
            · exact retried ran
      | duplicateAsSeparate newObjectId newTitle =>
          dsimp only at ran
          split at ran
          · cases ran
            exact .inl ⟨accepted draw,_,rfl⟩
          · split at ran
            · cases ran
              exact .inl ⟨accepted draw,_,rfl⟩
            · split at ran
              · cases ran
                exact .inl ⟨accepted draw,_,rfl⟩
              · rename_i queued
                cases ran
                refine .inr ⟨conflict,_,_,found,Bool.eq_false_iff.mpr closed,resolve_record_same ?_ _ _ _⟩
                exact (enqueue_upsert_conflicts queued).trans (accepted draw)

theorem mem_resolve_record {envelope : Option EncryptedEnvelope} {now : String}
    (inside : record ∈ (resolveRecord s conflictId envelope now).conflicts.rows) :
    ∃ r ∈ s.conflicts.rows, record.conflictId = r.conflictId ∧ (record.resolved = false → record = r ∧ r.conflictId ≠ conflictId) := by
  simp only [resolveRecord] at inside
  rw [mem_update] at inside
  obtain ⟨r,held,is⟩ := inside
  refine ⟨r,held,?_⟩
  by_cases hit : r.conflictId = conflictId
  · rw [if_pos (by simpa using hit)] at is
    rw [is]
    exact ⟨rfl,fun open_ => by cases open_⟩
  · rw [if_neg (by simpa using hit)] at is
    exact ⟨congrArg _ is,fun _ => ⟨is,hit⟩⟩

theorem mem_resolved {envelope : Option EncryptedEnvelope} {now : String} (same : t.conflicts = (resolveRecord s conflictId envelope now).conflicts)
    (inside : record ∈ t.conflicts.rows) (open_ : record.resolved = false) : record ∈ s.conflicts.rows ∧ record.conflictId ≠ conflictId := by
  rw [same] at inside
  obtain ⟨r,held,_,kept⟩ := mem_resolve_record inside
  obtain ⟨rfl,other⟩ := kept open_
  exact ⟨held,other⟩

theorem event_touches (client : Client Key Note File) {event : Event World Key Note File} (ran : event.run client s = some t) :
    Touched event s t := by
  cases event with
  | push options tick mutation answer =>
      cases ran
      unfold pushOne
      split
      · exact .same rfl
      · rename_i flying marked
        have kept := ConflictReports.mark_conflicts marked
        have queued : (s.getMutation mutation.mutationId).isSome = true := by
          cases found : s.getMutation mutation.mutationId with
          | none => simp [markInFlight,mark,found] at marked
          | some row => rfl
        rcases ConflictReports.settle_added client.codec options tick mutation flying .default answer with same | ⟨c,rfl,same | ⟨record,put,carries⟩⟩
        · exact .same (same.trans kept)
        · exact .same (same.trans kept)
        · refine .added record rfl ?_ (put.trans (congrArg (Table.upsert · record) kept))
          simp only [reported,queued,if_true,carries.revision]
  | resolve draw conflictId strategy =>
      cases ran
      rcases resolution_touches (Prod.mk.eta : ((resolveConflict client.codec client.retitle client.key draw s conflictId strategy).1,_) = _).symm with
        ⟨same,_⟩ | ⟨_,_,_,_,_,closed⟩
      · exact .same same
      · exact .resolved conflictId rfl rfl closed
  | edit op => exact .same (event_apart client ran (by simp) (by simp))
  | enqueue => exact .same (event_apart client ran (by simp) (by simp))
  | enqueueLocal => exact .same (event_apart client ran (by simp) (by simp))
  | resetInFlight => exact .same (event_apart client ran (by simp) (by simp))
  | pull => exact .same (event_apart client ran (by simp) (by simp))

-- An answer that is not recorded as a new row still counts as the latest report.
theorem latest_kept {event : Event World Key Note File} (meets : Meets event w) {mutationId : String} (open_ : OpenFor w mutationId record) (t : Storage) :
    (w.next event t).latest mutationId = w.latest mutationId := by
  unfold Watch.next
  dsimp only
  split
  · rename_i id revision answer
    split
    · rename_i same
      exact absurd (same ▸ open_.source) (meets (id,revision) answer record open_.held open_.unresolved)
    · rfl
  · rfl

-- An open record was open for its mutation before, or is the one just added.
theorem open_before {event : Event World Key Note File} (touched : Touched event w.storage t) {mutationId : String}
    (open_ : OpenFor (w.next event t) mutationId record) :
    OpenFor w mutationId record ∨ (record ∉ w.storage.conflicts.rows ∧
      reported event w.storage = some (mutationId,record.remoteRevision) ∧ t.conflicts = w.storage.conflicts.upsert record) := by
  obtain ⟨held,unresolved,source⟩ := open_
  have found : t.conflicts.find record.conflictId = some record := mem_iff_find.mp held
  by_cases old : record ∈ w.storage.conflicts.rows
  · have before : w.storage.conflicts.find record.conflictId = some record := mem_iff_find.mp old
    have kept : (w.next event t).source record.conflictId = w.source record.conflictId := if_pos (found.trans before.symm)
    exact .inl ⟨old,unresolved,kept ▸ source⟩
  · refine .inr ?_
    cases touched with
    | same conflicts => exact absurd (conflicts ▸ held) old
    | resolved _ _ _ conflicts => exact absurd (mem_resolved conflicts held unresolved).1 old
    | added fresh about answer conflicts =>
        rcases mem_upsert.mp (show record ∈ (w.storage.conflicts.upsert fresh).rows from conflicts ▸ held) with rfl | ⟨before,_⟩
        · have changed : t.conflicts.find record.conflictId ≠ w.storage.conflicts.find record.conflictId := by
            rw [found]
            exact fun same => old (find_mem same.symm)
          have is : (w.next event t).source record.conflictId = (NewerEdits.aboutOf event).or (w.source record.conflictId) := if_neg changed
          rw [is,about,Option.some_or,Option.some.injEq] at source
          exact ⟨old,source ▸ answer,conflicts⟩
        · exact absurd before old

theorem next_sourced {event : Event World Key Note File} (held : OneOpen w) (touched : Touched event w.storage t)
    (inside : record ∈ t.conflicts.rows) : ∃ mutationId, (w.next event t).source record.conflictId = some mutationId := by
  unfold Watch.next
  dsimp only
  split
  · rename_i same
    rw [mem_iff_find.mp inside] at same
    exact held.sourced record (find_mem same.symm)
  · rename_i changed
    cases touched with
    | same conflicts => exact absurd (congrArg (Table.find · record.conflictId) conflicts) changed
    | added fresh about answer conflicts => exact ⟨_,by rw [about,Option.some_or]⟩
    | resolved conflictId about silent conflicts =>
        rw [conflicts] at inside
        obtain ⟨r,before,own,_⟩ := mem_resolve_record inside
        obtain ⟨mutationId,source⟩ := held.sourced r before
        exact ⟨mutationId,by rw [about,Option.none_or,own,source]⟩

theorem one_open_kept {event : Event World Key Note File} (held : OneOpen w) (meets : Meets event w) (touched : Touched event w.storage t) :
    OneOpen (w.next event t) := by
  -- The record just added is the only open one of its mutation.
  have alone : ∀ {mutationId r₁ r₂}, reported event w.storage = some (mutationId,r₁.remoteRevision) → t.conflicts = w.storage.conflicts.upsert r₁ →
      OpenFor (w.next event t) mutationId r₂ → r₁ = r₂ := by
    intro mutationId r₁ r₂ answer put open_
    rcases mem_upsert.mp (show r₂ ∈ (w.storage.conflicts.upsert r₁).rows from put ▸ open_.held) with rfl | ⟨before,other⟩
    · rfl
    · rcases open_before touched open_ with old | ⟨new,_⟩
      · exact absurd old.source (meets _ answer r₂ old.held old.unresolved)
      · exact absurd before new
  refine ⟨fun r inside => next_sourced held touched inside,fun mutationId r₁ r₂ one two => ?_,fun mutationId r one => ?_⟩
  · rcases open_before touched one with old₁ | ⟨_,answer,put⟩
    · rcases open_before touched two with old₂ | ⟨_,answer,put⟩
      · exact held.one mutationId r₁ r₂ old₁ old₂
      · exact (alone answer put one).symm
    · exact alone answer put two
  · rcases open_before touched one with old | ⟨_,answer,_⟩
    · rw [latest_kept meets old]
      exact held.latest mutationId r old
    · unfold Watch.next
      simp only [answer,if_true]

theorem one_open_run (client : Client Key Note File) (events : List (Event World Key Note File))
    (careful : Along (step client) Meets events .new) (ran : runAll (step client) events .new = some w) : OneOpen w := by
  refine run_keeps OneOpen ?_ events careful ⟨?_,?_,?_⟩ ran
  · intro event v next held meets taken
    obtain ⟨t,went,rfl⟩ := Option.map_eq_some_iff.mp taken
    exact one_open_kept held meets (event_touches client went)
  · intro r inside
    cases inside
  · intro _ r₁ r₂ one
    exact absurd one.held List.not_mem_nil
  · intro _ r one
    exact absurd one.held List.not_mem_nil

-- However many cycles leave a mutation queued: if none of them is answered with a
-- conflict whose record is still open, each mutation has at most one open record, with
-- the latest revision reported, and resolving it leaves none.
theorem one_open_conflict (client : Client Key Note File) (events : List (Event World Key Note File))
    (careful : Along (step client) Meets events .new) (ran : runAll (step client) events .new = some w) :
    (∀ mutationId r₁ r₂, OpenFor w mutationId r₁ → OpenFor w mutationId r₂ → r₁ = r₂) ∧
    (∀ mutationId r, OpenFor w mutationId r → r.remoteRevision = w.latest mutationId) ∧
    ∀ draw conflictId strategy result t,
      resolveConflict client.codec client.retitle client.key draw w.storage conflictId strategy = (.ok result,t) →
      ∀ r ∈ t.conflicts.rows, r.resolved = false → w.source r.conflictId ≠ w.source conflictId := by
  have held := one_open_run client events careful ran
  refine ⟨held.one,held.latest,fun draw conflictId strategy result t resolved r inside open_ same => ?_⟩
  rcases resolution_touches resolved with ⟨_,_,failed⟩ | ⟨record,_,_,found,before,closed⟩
  · cases failed
  · obtain ⟨old,other⟩ := mem_resolved closed inside open_
    have own : record.conflictId = conflictId := find_key found
    obtain ⟨mutationId,source⟩ := held.sourced record (find_mem found)
    have both : r = record := held.one mutationId r record ⟨old,open_,same.trans (own ▸ source)⟩ ⟨find_mem found,before,source⟩
    exact other (both ▸ own)

-- An edited note is pushed into a conflict, and the next cycle is answered with the
-- next revision.
def pushedTwice : List (Event Unit Unit String String) :=
  NewerEdits.editedAgain.take 4 ++
  [.push .default ⟨"2026-01-01T00:00:06Z",change4,"",0⟩ ⟨change1,firstDraw.objectId,1,objectKindNote,.upsert,
      sealedText firstDraw.objectId "BBBB","2026-01-01T00:00:02Z",1,.pending⟩
      (.error (.conflict ⟨errorRevisionConflict,firstDraw.objectId,1,3,3,sealedText firstDraw.objectId "EEEE",false⟩))]

theorem pushed_twice_opens_two :
    (runAll (step .standIn) pushedTwice .new).isSome = true ∧
    ∀ w ∈ runAll (step .standIn) pushedTwice .new,
      w.storage.mutations.rows.map (·.mutationId) = [change1] ∧
      w.storage.conflicts.rows.map (fun r => (r.conflictId,w.source r.conflictId,r.remoteRevision,r.resolved)) =
        [(change2,some change1,2,false),(change4,some change1,3,false)] := by
  decide +kernel

-- After the first of the two cycles all is well.
theorem pushed_once_opens_one :
    (runAll (step .standIn) (NewerEdits.editedAgain.take 4) .new).isSome = true ∧
    ∀ w ∈ runAll (step .standIn) (NewerEdits.editedAgain.take 4) .new,
      ∀ mutationId r₁ r₂, OpenFor w mutationId r₁ → OpenFor w mutationId r₂ → r₁ = r₂ :=
  ⟨by decide +kernel,fun _ ran => (one_open_conflict .standIn _ (by decide +kernel) ran).1⟩

end ZkNote.OpenConflicts
