import ZkNote.MergeBases
import ZkNote.Runs

namespace ZkNote.BaseVersions
open Protocol Adapter KeyedTable LocalStorage MutationQueue Conflict ConflictResolution PullChanges PushChanges EditAtomicity MergeBases Runs
open LocalEdits (AttachmentCodec)

variable {World Key Note File : Type} {s t : Storage} {ledger : Ledger} {m : PendingMutation} {object : StoredEncryptedObject}
  {objectId : String} {revision : Nat}

structure Client (Key Note File : Type) where
  codec : NoteCodec Key Note
  files : AttachmentCodec Key Note File
  retitle : Note → String → Note
  key : Key

inductive Event (World Key Note File : Type) where
  | edit (op : Op File)
  | enqueue (mutationType : MutationType) (objectId : String) (objectKind : UInt16) (expectedRevision : Nat)
      (envelope : EncryptedEnvelope) (mutationId now : String)
  | enqueueLocal (mutationType : MutationType) (objectId : String) (envelope : EncryptedEnvelope) (mutationId now : String)
  | resetInFlight
  | pull (adapter : SyncServerAdapter World) (vaultKey : Option Key) (options : PullOptions) (clock : Nat → String) (fuel : Nat) (w : World)
  | push (options : PushOptions Key) (tick : Tick) (mutation : PendingMutation) (answer : Except SyncNetworkError PushResponse)
  | resolve (draw : ResolveDraw) (conflictId : String) (strategy : ConflictResolutionStrategy Note)

-- What `enqueue_upsert` and `enqueue_delete` archive before they queue.
def archive (s : Storage) (objectId : String) (revision : Nat) : Storage :=
  match s.getObject objectId with
  | some current => if current.revision = revision then s.putBaseVersion objectId revision current.envelope else s
  | none => s

-- The storage they leave, also where they fail.
def enqueueLeaves (mutationType : MutationType) (s : Storage) (objectId : String) (objectKind : UInt16) (expectedRevision : Nat)
    (envelope : EncryptedEnvelope) (mutationId now : String) : Storage :=
  match enqueueTyped mutationType s objectId objectKind expectedRevision envelope mutationId now with
  | .ok (_,t) => t
  | .error (.validation _) => s
  | .error _ => archive s objectId expectedRevision

def enqueueLocal : MutationType → Storage → String → EncryptedEnvelope → String → String → Except QueueError (PendingMutation × Storage)
  | .upsert => enqueueLocalNoteUpsert
  | .delete => enqueueLocalNoteDelete

def enqueueLocalLeaves (mutationType : MutationType) (s : Storage) (objectId : String) (envelope : EncryptedEnvelope)
    (mutationId now : String) : Storage :=
  match enqueueLocal mutationType s objectId envelope mutationId now with
  | .ok (_,t) => t
  | .error _ =>
    match s.getObject objectId with
    | some obj => s.putBaseVersion objectId obj.revision obj.envelope
    | none => s

-- One turn of the push loop, by the server's answer.
def pushOne (codec : NoteCodec Key Note) (options : PushOptions Key) (tick : Tick) (mutation : PendingMutation)
    (answer : Except SyncNetworkError PushResponse) (s : Storage) : Storage :=
  match markInFlight s mutation.mutationId with
  | .error _ => s
  | .ok s => (settlePush codec options tick mutation s .default answer).1

-- `none` is a pull whose fuel runs out.
def Event.run (client : Client Key Note File) : Event World Key Note File → Storage → Option Storage
  | .edit op,s => some (op.run client.codec client.files client.key ⟨s,EditCharts.never,0⟩).2.storage
  | .enqueue mutationType objectId objectKind expectedRevision envelope mutationId now,s =>
    some (enqueueLeaves mutationType s objectId objectKind expectedRevision envelope mutationId now)
  | .enqueueLocal mutationType objectId envelope mutationId now,s =>
    some (enqueueLocalLeaves mutationType s objectId envelope mutationId now)
  | .resetInFlight,s => some (MutationQueue.resetInFlight s).2
  | .pull adapter vaultKey options clock fuel w,s =>
    (pullRemoteChanges adapter client.codec vaultKey options clock fuel w s).map (·.2.1)
  | .push options tick mutation answer,s => some (pushOne client.codec options tick mutation answer s)
  | .resolve draw conflictId strategy,s =>
    some (resolveConflict client.codec client.retitle client.key draw s conflictId strategy).2

-- A conflict's retry is made on the remote revision: what stands there is the head
-- that the outcome has just written, or the server's version that it goes over.
inductive Standing where
  | head
  | remote
  deriving DecidableEq, Repr

def Standing.version : Standing → (mine theirs : EncryptedEnvelope) → EncryptedEnvelope
  | .head,mine,_ => mine
  | .remote,_,theirs => theirs

-- The version that a mutation made by this event is made on.
def Event.stands (standing : Standing) (s t : Storage) : Event World Key Note File → String → Nat → Option EncryptedEnvelope
  | .push _ _ _ (.error (.conflict conflict)),objectId,revision =>
    (headAt t objectId revision).map (standing.version · conflict.currentEnvelope)
  | .resolve _ conflictId _,objectId,revision =>
    (s.conflicts.find conflictId).bind (fun conflict =>
      (headAt t objectId revision).map (standing.version · conflict.remoteEnvelope))
  | _,objectId,revision => headAt s objectId revision

def noted (standing : Standing) (event : Event World Key Note File) (s t : Storage) (ledger : Ledger) : Ledger :=
  fun mutationId objectId revision =>
    if (s.getMutation mutationId).isSome then ledger mutationId objectId revision else event.stands standing s t objectId revision

def step (client : Client Key Note File) (standing : Standing) (event : Event World Key Note File) (x : Storage × Ledger) :
    Option (Storage × Ledger) :=
  (event.run client x.1).map (fun t => (t,noted standing event x.1 t x.2))

-- The version that a resolution queues again.
def retried (codec : NoteCodec Key Note) (key : Key) (draw : ResolveDraw) (conflict : ConflictRecord) :
    ConflictResolutionStrategy Note → Option EncryptedEnvelope
  | .keepLocal | .restoreResurrect => some conflict.localEnvelope
  | .merge mergedNote =>
    if conflict.remoteIsDeleted ∨ conflict.localIsDeleted then none
    else (codec.encrypt draw.seed mergedNote key conflict.objectId).toOption
  | .keepRemote | .duplicateAsSeparate _ _ => none

-- The events after which some queued mutation is left without its base are those
-- that this condition leaves out.
def Event.Meets (client : Client Key Note File) (standing : Standing) : Event World Key Note File → Storage → Prop
  | .edit (.create _ _),_ => True
  | .edit (.update draw noteId content),s =>
    ∀ stored prior note, Notes.findNoteObject s noteId false = .ok stored → client.codec.decrypt stored.envelope client.key = .ok prior →
      client.codec.build content.title content.body content.tags (some (client.codec.createdAt prior)) draw.now = .ok note →
      Spared s stored.objectId stored.revision stored.envelope
  | .edit (.delete _ noteId false),s =>
    ∀ stored, Notes.findNoteObject s noteId false = .ok stored → Spared s stored.objectId stored.revision stored.envelope
  | .edit (.delete _ noteId true),s =>
    ∀ stored, Notes.findNoteObject s noteId true = .ok stored →
      ∀ m ∈ s.mutations.rows, m.objectId = stored.objectId → m.expectedRevision = 0
  | .edit (.attach draw noteId file customName customMime),s =>
    closing client.codec client.files client.key (.attach draw noteId file customName customMime) s ≠ none →
      ∀ stored, Notes.findNoteObject s noteId false = .ok stored → Rooted s stored.objectId stored.revision stored.envelope
  | .edit (.detach draw noteId attachmentId),s =>
    opening client.codec client.files client.key (.detach draw noteId attachmentId) s ≠ none →
      ∀ stored, Notes.findNoteObject s noteId false = .ok stored → Rooted s stored.objectId stored.revision stored.envelope ∧
        ∀ manifest, s.getObject attachmentId = some manifest →
          attachmentId ≠ stored.objectId ∧ Rooted s attachmentId manifest.revision manifest.envelope
  | .enqueue _ objectId _ expectedRevision envelope _ _,s =>
    envelope.objectId = objectId → 0 < expectedRevision →
      ∃ head, s.getObject objectId = some head ∧ head.revision = expectedRevision ∧ Spared s objectId expectedRevision head.envelope
  | .enqueueLocal _ objectId _ _ _,s => ∀ head, s.getObject objectId = some head → Spared s objectId head.revision head.envelope
  | .resetInFlight,_ => True
  | .pull _ _ _ _ _ _,_ => True
  | .push _ _ mutation (.ok resp),s =>
    ∀ row, s.getMutation mutation.mutationId = some row →
      ∀ m ∈ s.mutations.rows, m.objectId = row.objectId → m.mutationId ≠ mutation.mutationId → 0 < m.expectedRevision →
        resp.revision ≤ m.expectedRevision
  | .push options _ mutation (.error (.conflict conflict)),s =>
    (s.getMutation mutation.mutationId).isSome → options.conflictPolicy = .guardedLww → conflict.isDeleted = false →
      mutation.mutationType ≠ .delete → localWins client.codec options.vaultKey s mutation conflict = true →
      conflict.currentRevision = 0 ∨ standing.version mutation.envelope conflict.currentEnvelope = conflict.currentEnvelope
  | .push _ _ _ _,_ => True
  | .resolve draw conflictId strategy,s =>
    ∀ conflict, s.conflicts.find conflictId = some conflict → conflict.resolved = false →
      ∀ mine, retried client.codec client.key draw conflict strategy = some mine →
        Rooted s conflict.objectId conflict.remoteRevision (standing.version mine conflict.remoteEnvelope)

-- `Uuid::new_v4`: an id nobody holds yet.
def Event.Drawn : Event World Key Note File → Storage → Prop
  | .push _ tick _ _,s => s.getMutation tick.retryId = none
  | .resolve draw _ _,s => s.getMutation draw.mutationId = none
  | _,_ => True

theorem true_noted {event : Event World Key Note File} (held : TrueBases ledger s) (standing : Standing) (t : Storage) :
    TrueBases (noted standing event s t ledger) s := by
  intro m inside positive
  obtain ⟨envelope,made,base⟩ := held m inside positive
  have queued : s.getMutation m.mutationId = some m := mem_iff_find.mp inside
  refine ⟨envelope,?_,base⟩
  rw [noted,queued]
  exact made

theorem opened_noted {event : Event World Key Note File} {standing : Standing} (heads : ∀ o r, event.stands standing s t o r = headAt s o r) :
    Opened (noted standing event s t ledger) s := by
  intro mutationId objectId revision unused
  rw [noted,unused]
  exact heads objectId revision

theorem edit_true (client : Client Key Note File) (standing : Standing) (op : Op File) (held : TrueBases ledger s) (opened : Opened ledger s)
    (meets : (Event.edit op : Event World Key Note File).Meets client standing s) :
    TrueBases ledger (op.run client.codec client.files client.key ⟨s,EditCharts.never,0⟩).2.storage := by
  cases op with
  | create draw content =>
      obtain ⟨n,ran⟩ := @EditCharts.create_never _ _ client.codec client.key draw content s 0
      show TrueBases ledger (LocalEdits.createNote client.codec client.key draw content _).2.storage
      rw [ran]
      exact true_created draw content held
  | update draw noteId content =>
      obtain ⟨n,ran⟩ := @EditCharts.update_never _ _ client.codec client.key draw noteId content s 0
      show TrueBases ledger (LocalEdits.updateNote client.codec client.key draw noteId content _).2.storage
      rw [ran]
      exact true_updated draw noteId content held opened meets
  | delete draw noteId purge =>
      obtain ⟨n,ran⟩ := EditCharts.delete_never draw noteId purge s 0
      show TrueBases ledger (LocalEdits.deleteNote draw noteId purge _).2.storage
      rw [ran]
      cases purge with
      | false => exact true_deleted draw noteId held opened meets
      | true => exact true_purged draw noteId held meets
  | attach draw noteId file customName customMime => exact true_attached draw noteId file customName customMime held opened meets
  | detach draw noteId attachmentId => exact true_detached draw noteId attachmentId held opened meets

theorem true_archive {objectId : String} {revision : Nat} (held : TrueBases ledger s)
    (spared : ∀ head, s.getObject objectId = some head → head.revision = revision → Spared s objectId revision head.envelope) :
    TrueBases ledger (archive s objectId revision) := by
  unfold archive
  split
  · rename_i head present
    split
    · rename_i at_
      exact true_put_base held (spared head present at_)
    · exact held
  · exact held

theorem archive_queue (s : Storage) (objectId : String) (revision : Nat) : (archive s objectId revision).mutations = s.mutations := by
  unfold archive
  split
  · split <;> rfl
  · rfl

theorem enqueue_archives (mutationType : MutationType) (s : Storage) {objectId : String} (objectKind : UInt16) (expectedRevision : Nat)
    {envelope : EncryptedEnvelope} (mutationId now : String) (own : envelope.objectId = objectId) :
    enqueueTyped mutationType s objectId objectKind expectedRevision envelope mutationId now =
      match (archive s objectId expectedRevision).enqueueMutation
        ⟨mutationId,objectId,expectedRevision,objectKind,mutationType,envelope,now,0,.pending⟩ with
      | .error e => .error (.storage e)
      | .ok t => .ok (⟨mutationId,objectId,expectedRevision,objectKind,mutationType,envelope,now,0,.pending⟩,t) := by
  rw [enqueueTyped,if_neg (not_not.mpr own)]
  rfl

theorem true_enqueue_leaves (mutationType : MutationType) {objectId : String} (objectKind : UInt16) {expectedRevision : Nat}
    {envelope : EncryptedEnvelope} (mutationId now : String) (held : TrueBases ledger s) (opened : Opened ledger s)
    (meets : envelope.objectId = objectId → 0 < expectedRevision →
      ∃ head, s.getObject objectId = some head ∧ head.revision = expectedRevision ∧ Spared s objectId expectedRevision head.envelope) :
    TrueBases ledger (enqueueLeaves mutationType s objectId objectKind expectedRevision envelope mutationId now) := by
  unfold enqueueLeaves
  by_cases own : envelope.objectId = objectId
  · rw [enqueue_archives mutationType s objectKind expectedRevision mutationId now own]
    have kept : TrueBases ledger (archive s objectId expectedRevision) := by
      apply true_archive held
      intro head present at_ m inside target expected positive
      obtain ⟨_,present',_,spared⟩ := meets own positive
      rw [present] at present'
      cases present'
      exact spared m inside target expected positive
    cases done : (archive s objectId expectedRevision).enqueueMutation
        ⟨mutationId,objectId,expectedRevision,objectKind,mutationType,envelope,now,0,.pending⟩ with
    | error e => exact kept
    | ok t =>
        refine true_enqueued kept done (fun positive => ?_)
        obtain ⟨head,present,at_,_⟩ := meets own positive
        have fresh := (enqueue_cases done).1
        rw [Storage.getMutation,archive_queue] at fresh
        have archived : archive s objectId expectedRevision = s.putBaseVersion objectId expectedRevision head.envelope := by
          simp only [archive,present,if_pos at_]
        refine based_on_head opened present at_.symm fresh ?_
        rw [archived]
        exact base_put_same s _ _ _
  · rw [enqueueTyped,if_pos own]
    exact held

theorem archive_put (present : s.getObject objectId = some object) :
    archive (s.putBaseVersion objectId object.revision object.envelope) objectId object.revision =
      s.putBaseVersion objectId object.revision object.envelope := by
  have again : (s.putBaseVersion objectId object.revision object.envelope).getObject objectId = some object := present
  simp only [archive,again,if_true]
  unfold Storage.putBaseVersion
  rw [upsert_same (find_upsert_same _ _)]

-- A queued edit's storage, or what is left where the queue refuses it.
theorem enqueue_leaves_cases (mutationType : MutationType) (s : Storage) (objectId : String) (objectKind : UInt16) (expectedRevision : Nat)
    (envelope : EncryptedEnvelope) (mutationId now : String) :
    (∃ m t, enqueueTyped mutationType s objectId objectKind expectedRevision envelope mutationId now = .ok (m,t) ∧
      enqueueLeaves mutationType s objectId objectKind expectedRevision envelope mutationId now = t) ∨
    ∃ e, enqueueTyped mutationType s objectId objectKind expectedRevision envelope mutationId now = .error e ∧
      (enqueueLeaves mutationType s objectId objectKind expectedRevision envelope mutationId now = s ∨
        enqueueLeaves mutationType s objectId objectKind expectedRevision envelope mutationId now = archive s objectId expectedRevision) := by
  unfold enqueueLeaves
  cases enqueueTyped mutationType s objectId objectKind expectedRevision envelope mutationId now with
  | ok done => exact .inl ⟨done.1,done.2,rfl,rfl⟩
  | error e =>
      right
      refine ⟨e,rfl,?_⟩
      cases e with
      | validation message => exact .inl rfl
      | storage failure => exact .inr rfl
      | notFound message => exact .inr rfl
      | invalidState message => exact .inr rfl

theorem enqueue_local_present (mutationType : MutationType) (envelope : EncryptedEnvelope) (mutationId now : String)
    (present : s.getObject objectId = some object) :
    enqueueLocalLeaves mutationType s objectId envelope mutationId now =
      enqueueLeaves mutationType (s.putBaseVersion objectId object.revision object.envelope) objectId objectKindNote object.revision
        envelope mutationId now := by
  have archived := archive_put present
  have ends := enqueue_leaves_cases mutationType (s.putBaseVersion objectId object.revision object.envelope) objectId objectKindNote
    object.revision envelope mutationId now
  generalize enqueueLeaves mutationType _ _ _ _ _ _ _ = leaves at ends
  rcases ends with ⟨m,t,result,rfl⟩ | ⟨e,result,either⟩
  · cases mutationType <;>
      simp only [enqueueLocalLeaves,enqueueLocal,enqueueLocalNoteUpsert,enqueueLocalNoteDelete,enqueueUpsert,enqueueDelete,present,result]
  · rw [archived,or_self] at either
    rw [either]
    cases mutationType <;>
      simp only [enqueueLocalLeaves,enqueueLocal,enqueueLocalNoteUpsert,enqueueLocalNoteDelete,enqueueUpsert,enqueueDelete,present,result]

theorem enqueue_local_absent (mutationType : MutationType) (envelope : EncryptedEnvelope) (mutationId now : String)
    (absent : s.getObject objectId = none) :
    enqueueLocalLeaves mutationType s objectId envelope mutationId now = s ∨
      enqueueLocalLeaves mutationType s objectId envelope mutationId now =
        enqueueLeaves .upsert s objectId objectKindNote 0 envelope mutationId now := by
  cases mutationType with
  | delete => exact .inl (by simp only [enqueueLocalLeaves,enqueueLocal,enqueueLocalNoteDelete,absent])
  | upsert =>
      have ends := enqueue_leaves_cases .upsert s objectId objectKindNote 0 envelope mutationId now
      rcases ends with ⟨m,t,result,left⟩ | ⟨e,result,_⟩
      · right
        rw [left]
        simp only [enqueueLocalLeaves,enqueueLocal,enqueueLocalNoteUpsert,enqueueUpsert,absent,result]
      · left
        simp only [enqueueLocalLeaves,enqueueLocal,enqueueLocalNoteUpsert,enqueueUpsert,absent,result]

theorem true_enqueue_local (mutationType : MutationType) {objectId : String} {envelope : EncryptedEnvelope} (mutationId now : String)
    (held : TrueBases ledger s) (opened : Opened ledger s)
    (spared : ∀ head, s.getObject objectId = some head → Spared s objectId head.revision head.envelope) :
    TrueBases ledger (enqueueLocalLeaves mutationType s objectId envelope mutationId now) := by
  cases present : s.getObject objectId with
  | some head =>
      rw [enqueue_local_present mutationType envelope mutationId now present]
      have kept := true_put_base held (spared head present)
      have opened' : Opened ledger (s.putBaseVersion objectId head.revision head.envelope) := opened
      refine true_enqueue_leaves _ _ _ _ kept opened' ?_
      intro _ positive
      refine ⟨head,present,rfl,?_⟩
      intro m inside target expected positive
      exact base_put_same s _ _ _
  | none =>
      rcases enqueue_local_absent mutationType envelope mutationId now present with same | same <;> rw [same]
      · exact held
      · exact true_enqueue_leaves _ _ _ _ held opened (fun _ positive => absurd positive (Nat.lt_irrefl 0))

theorem head_written (written : t.objects.find objectId = some object) (at_ : object.revision = revision) :
    headAt t objectId revision = some object.envelope := by
  rw [← at_]
  exact head_at_held written

-- A conflict's retry: the head is written at the remote revision, the object's
-- queue is cleared, and the retry is queued.
theorem true_retried (retry : PendingMutation) (base : EncryptedEnvelope) (held : TrueBases ledger s) {mid : Storage}
    (queue : ∀ m ∈ mid.mutations.rows, m ∈ s.mutations.rows ∧ m.objectId ≠ retry.objectId)
    (bases : ∀ other revision, other ≠ retry.objectId → mid.getBaseVersion other revision = s.getBaseVersion other revision)
    (based : 0 < retry.expectedRevision → ledger retry.mutationId retry.objectId retry.expectedRevision = some base ∧
      mid.getBaseVersion retry.objectId retry.expectedRevision = some base)
    (done : mid.enqueueMutation retry = .ok t) : TrueBases ledger t := by
  have kept : TrueBases ledger mid := true_carried held (carried_removed queue bases)
  exact true_enqueued kept done (fun positive => ⟨base,based positive⟩)

theorem true_guarded {standing : Standing} (codec : NoteCodec Key Note) (vaultKey : Option Key) (tick : Tick) (mutation : PendingMutation)
    (conflict : ConflictResponse) (held : TrueBases ledger s)
    (stands : ledger tick.retryId mutation.objectId conflict.currentRevision =
      (headAt (evaluateGuardedLww codec vaultKey tick s mutation conflict).2 mutation.objectId conflict.currentRevision).map
        (standing.version · conflict.currentEnvelope))
    (meets : localWins codec vaultKey s mutation conflict = true →
      conflict.currentRevision = 0 ∨ standing.version mutation.envelope conflict.currentEnvelope = conflict.currentEnvelope) :
    TrueBases ledger (evaluateGuardedLww codec vaultKey tick s mutation conflict).2 := by
  unfold evaluateGuardedLww at stands ⊢
  split
  · exact held
  · rename_i alive
    rw [if_neg alive] at stands
    dsimp only at stands ⊢
    by_cases wins : localWins codec vaultKey s mutation conflict = true
    · rw [if_pos wins] at stands ⊢
      let head : StoredEncryptedObject :=
        ⟨mutation.objectId,mutation.objectKind,conflict.currentRevision,0,false,mutation.envelope,tick.now⟩
      let written := (s.putBaseVersion mutation.objectId conflict.currentRevision conflict.currentEnvelope).putObject head
      have rows : ∀ m ∈ (removeForObject written mutation.objectId).mutations.rows, m ∈ s.mutations.rows ∧ m.objectId ≠ mutation.objectId :=
        fun m inside => cleared_rows (r := written) rfl inside
      have bases : ∀ other revision, other ≠ mutation.objectId →
          (removeForObject written mutation.objectId).getBaseVersion other revision = s.getBaseVersion other revision :=
        fun other revision apart => (cleared_base written _ _ _).trans (base_put_other s _ (fun same => apart same.1))
      split
      · exact true_carried held (carried_removed rows bases)
      · rename_i after queued
        rw [queued] at stands
        let retry : PendingMutation :=
          ⟨tick.retryId,mutation.objectId,conflict.currentRevision,mutation.objectKind,.upsert,mutation.envelope,tick.now,0,.pending⟩
        refine true_same (true_retried retry conflict.currentEnvelope held rows bases (fun positive => ⟨?_,?_⟩) queued) rfl rfl
        · have same := (meets wins).resolve_left (Nat.pos_iff_ne_zero.mp positive)
          have held' : after.objects.find mutation.objectId = some head := by
            rw [(enqueue_cases queued).2]
            show (removeForObject written mutation.objectId).objects.find mutation.objectId = some head
            rw [cleared_objects]
            exact find_upsert_same s.objects head
          refine stands.trans ?_
          show (headAt after mutation.objectId conflict.currentRevision).map _ = _
          rw [head_written held' rfl]
          exact congrArg some same
        · exact (cleared_base written _ _ _).trans (base_put_same s _ _ _)
    · rw [if_neg wins]
      let written := (s.putBaseVersion mutation.objectId mutation.expectedRevision mutation.envelope).putObject
        ⟨mutation.objectId,mutation.objectKind,conflict.currentRevision,0,false,conflict.currentEnvelope,tick.now⟩
      have rows : ∀ m ∈ (removeForObject written mutation.objectId).mutations.rows, m ∈ s.mutations.rows ∧ m.objectId ≠ mutation.objectId :=
        fun m inside => cleared_rows (r := written) rfl inside
      have bases : ∀ other revision, other ≠ mutation.objectId →
          (removeForObject written mutation.objectId).getBaseVersion other revision = s.getBaseVersion other revision :=
        fun other revision apart => (cleared_base written _ _ _).trans (base_put_other s _ (fun same => apart same.1))
      exact true_same (true_carried held (carried_removed rows bases)) rfl rfl

-- A conflict that the guarded policy leaves alone, and every other error, marks
-- the row and perhaps adds a conflict record.
theorem true_unsettled (codec : NoteCodec Key Note) (options : PushOptions Key) (tick : Tick) (mutation : PendingMutation) (e : SyncNetworkError)
    (held : TrueBases ledger s)
    (unguarded : ∀ conflict, e = .conflict conflict → ¬(options.conflictPolicy = .guardedLww ∧ ¬(conflict.isDeleted ∨ mutation.mutationType = .delete))) :
    TrueBases ledger (settlePush codec options tick mutation s .default (.error e)).1 := by
  have pending : TrueBases ledger (orKeep s (markPending s mutation.mutationId)) := true_carried held (carried_kept s mutation.mutationId)
  have failed : TrueBases ledger (orKeep s (markFailed s mutation.mutationId)) := true_carried held (carried_kept s mutation.mutationId)
  unfold settlePush
  split
  · rename_i same
    cases same
  · rename_i conflict same
    cases same
    rw [if_neg (unguarded conflict rfl)]
    dsimp only
    split
    · exact pending
    · rename_i recorded
      rw [(PushSteps.record_conflict_cases recorded).1]
      exact true_same pending rfl rfl
  · rename_i same
    cases same
    split
    · exact pending
    · exact failed

theorem true_pushed (standing : Standing) (codec : NoteCodec Key Note) (options : PushOptions Key) (tick : Tick) (mutation : PendingMutation)
    (answer : Except SyncNetworkError PushResponse) (held : TrueBases ledger s)
    (stands : ∀ conflict, answer = .error (.conflict conflict) → ledger tick.retryId mutation.objectId conflict.currentRevision =
      (headAt (pushOne codec options tick mutation answer s) mutation.objectId conflict.currentRevision).map
        (standing.version · conflict.currentEnvelope))
    (newest : ∀ resp row, answer = .ok resp → s.getMutation mutation.mutationId = some row →
      ∀ m ∈ s.mutations.rows, m.objectId = row.objectId → m.mutationId ≠ mutation.mutationId → 0 < m.expectedRevision →
        resp.revision ≤ m.expectedRevision)
    (wins : ∀ conflict, answer = .error (.conflict conflict) → (s.getMutation mutation.mutationId).isSome → options.conflictPolicy = .guardedLww →
      conflict.isDeleted = false → mutation.mutationType ≠ .delete → localWins codec options.vaultKey s mutation conflict = true →
      conflict.currentRevision = 0 ∨ standing.version mutation.envelope conflict.currentEnvelope = conflict.currentEnvelope) :
    TrueBases ledger (pushOne codec options tick mutation answer s) := by
  cases found : s.getMutation mutation.mutationId with
  | none =>
      have missing : pushOne codec options tick mutation answer s = s := by
        simp only [pushOne,markInFlight,mark,found]
      rw [missing]
      exact held
  | some row =>
      let flying := PushSteps.restatus s row .inFlight (saturatingSucc row.retryCount)
      have marked : markInFlight s mutation.mutationId = .ok flying := PushSteps.mark_row found _ _
      have ran : pushOne codec options tick mutation answer s = (settlePush codec options tick mutation flying .default answer).1 := by
        rw [pushOne,marked]
      have kept := true_carried held (carried_marked marked)
      rw [ran] at stands ⊢
      cases answer with
      | ok resp =>
          have flown : flying.getMutation mutation.mutationId = some (PushSteps.marked row .inFlight (saturatingSucc row.retryCount)) :=
            PushSteps.restatus_found found _ _
          simp only [settlePush]
          split
          · exact kept
          · rename_i accepted
            refine true_acknowledged kept flown ?_ accepted
            intro m inside target other positive
            rcases (PushSteps.mem_restatus _ _).mp inside with rfl | ⟨old,_⟩
            · exact absurd (find_key found) other
            · exact newest resp row rfl found m old target other positive
      | error e =>
          by_cases guarded : ∃ conflict, e = .conflict conflict ∧ options.conflictPolicy = .guardedLww ∧
              ¬(conflict.isDeleted ∨ mutation.mutationType = .delete)
          · obtain ⟨conflict,rfl,policy,alive⟩ := guarded
            have settled : (settlePush codec options tick mutation flying .default (.error (.conflict conflict))).1 =
                (evaluateGuardedLww codec options.vaultKey tick flying mutation conflict).2 := by
              simp only [settlePush,if_pos (And.intro policy alive)]
              split <;> rename_i out <;> rw [out]
            have at_ := stands conflict rfl
            rw [settled] at at_ ⊢
            refine true_guarded codec options.vaultKey tick mutation conflict kept at_ (fun win => ?_)
            exact wins conflict rfl (by rw [found]; rfl) policy (by simpa using fun is => alive (.inl is)) (fun is => alive (.inr is)) win
          · exact true_unsettled codec options tick mutation e kept (fun conflict is both => guarded ⟨conflict,is,both⟩)

theorem true_accepted_remote (draw : ResolveDraw) (conflict : ConflictRecord) (held : TrueBases ledger s) :
    TrueBases ledger (acceptRemote draw conflict s) := by
  have cleared : TrueBases ledger (removeForObject s conflict.objectId) :=
    true_carried held (carried_removed (fun m inside => cleared_rows rfl inside) (fun other revision _ => cleared_base s _ _ _))
  exact true_put_object cleared _

theorem true_retry_with {standing : Standing} (draw : ResolveDraw) (conflict : ConflictRecord) (mutationType : MutationType)
    (envelope : EncryptedEnvelope) (held : TrueBases ledger s)
    (stands : ledger draw.mutationId conflict.objectId conflict.remoteRevision =
      (headAt (retryWith draw conflict mutationType envelope s).2 conflict.objectId conflict.remoteRevision).map
        (standing.version · conflict.remoteEnvelope))
    (rooted : Rooted s conflict.objectId conflict.remoteRevision (standing.version envelope conflict.remoteEnvelope)) :
    TrueBases ledger (retryWith draw conflict mutationType envelope s).2 := by
  unfold retryWith at stands ⊢
  dsimp only at stands ⊢
  let head := headOf conflict (decide (mutationType = .delete)) envelope draw.now
  let written := (removeForObject s conflict.objectId).putObject head
  have rows : ∀ m ∈ written.mutations.rows, m ∈ s.mutations.rows ∧ m.objectId ≠ conflict.objectId :=
    fun m inside => cleared_rows (r := s) rfl inside
  have bases : ∀ other revision, written.getBaseVersion other revision = s.getBaseVersion other revision :=
    fun other revision => cleared_base s _ _ _
  split
  · exact true_carried held (carried_removed rows (fun other revision _ => bases other revision))
  · rename_i after queued
    rw [queued] at stands
    let retry : PendingMutation :=
      ⟨draw.mutationId,conflict.objectId,conflict.remoteRevision,conflict.objectKind,mutationType,envelope,draw.now,0,.pending⟩
    refine true_same (true_retried retry (standing.version envelope conflict.remoteEnvelope) held rows (fun other revision _ => bases other revision)
      (fun positive => ⟨?_,?_⟩) queued) rfl rfl
    · have held' : after.objects.find conflict.objectId = some head := by
        rw [(enqueue_cases queued).2]
        exact find_upsert_same (removeForObject s conflict.objectId).objects head
      refine stands.trans ?_
      have at_ : headAt after conflict.objectId conflict.remoteRevision = some envelope := head_written held' rfl
      show (headAt after conflict.objectId conflict.remoteRevision).map _ = _
      rw [at_]
      rfl
    · exact (bases _ _).trans (rooted.resolve_left (Nat.pos_iff_ne_zero.mp positive))

theorem true_resolved {standing : Standing} (codec : NoteCodec Key Note) (retitle : Note → String → Note) (key : Key) (draw : ResolveDraw)
    (conflictId : String) (strategy : ConflictResolutionStrategy Note) (held : TrueBases ledger s)
    (stands : ∀ conflict, s.conflicts.find conflictId = some conflict → ledger draw.mutationId conflict.objectId conflict.remoteRevision =
      (headAt (resolveConflict codec retitle key draw s conflictId strategy).2 conflict.objectId conflict.remoteRevision).map
        (standing.version · conflict.remoteEnvelope))
    (rooted : ∀ conflict, s.conflicts.find conflictId = some conflict → conflict.resolved = false →
      ∀ mine, retried codec key draw conflict strategy = some mine →
        Rooted s conflict.objectId conflict.remoteRevision (standing.version mine conflict.remoteEnvelope)) :
    TrueBases ledger (resolveConflict codec retitle key draw s conflictId strategy).2 := by
  cases found : s.conflicts.find conflictId with
  | none =>
      simp only [resolveConflict,found]
      exact held
  | some conflict =>
      have at_ := stands conflict found
      have based := rooted conflict found
      simp only [resolveConflict,found] at at_ ⊢
      by_cases closed : conflict.resolved = true
      · rw [if_pos closed]
        exact held
      · rw [if_neg closed] at at_ ⊢
        have open_ := based (Bool.eq_false_iff.mpr closed)
        have remote := true_accepted_remote draw conflict held
        cases strategy with
        | keepLocal => exact true_retry_with draw conflict _ _ held at_ (open_ _ rfl)
        | restoreResurrect => exact true_retry_with draw conflict _ _ held at_ (open_ _ rfl)
        | keepRemote => exact true_same remote rfl rfl
        | merge mergedNote =>
            dsimp only at at_ ⊢
            by_cases gone : conflict.remoteIsDeleted = true ∨ conflict.localIsDeleted = true
            · rw [if_pos gone]
              exact held
            · rw [if_neg gone] at at_ ⊢
              cases sealed : codec.encrypt draw.seed mergedNote key conflict.objectId with
              | error e => exact held
              | ok merged =>
                  rw [sealed] at at_
                  have is : retried codec key draw conflict (.merge mergedNote) = some merged := by
                    simp only [retried,if_neg gone,sealed,Except.toOption]
                  exact true_retry_with draw conflict _ _ held at_ (open_ merged is)
        | duplicateAsSeparate newObjectId newTitle =>
            dsimp only
            split
            · exact remote
            · split
              · exact remote
              · rename_i copy _
                -- The copy is queued on no revision.
                have spared : ∀ head, (acceptRemote draw conflict s).getObject newObjectId = some head → head.revision = 0 →
                    Spared (acceptRemote draw conflict s) newObjectId 0 head.envelope :=
                  fun _ _ _ _ _ _ _ positive => absurd positive (Nat.lt_irrefl 0)
                have kept := true_archive remote spared
                split
                · exact remote
                · rename_i queued
                  by_cases own : copy.objectId = newObjectId
                  · rw [enqueueUpsert,enqueue_archives _ _ _ _ _ _ own] at queued
                    split at queued
                    · cases queued
                    · rename_i done
                      cases queued
                      exact true_same (true_enqueued kept done (fun positive => absurd positive (Nat.lt_irrefl 0))) rfl rfl
                  · simp [enqueueUpsert,enqueueTyped,own] at queued

-- An event keeps every base, if it meets its condition.
theorem event_true (client : Client Key Note File) (standing : Standing) (event : Event World Key Note File) (held : TrueBases ledger s)
    (drawn : event.Drawn s) (meets : event.Meets client standing s) (ran : event.run client s = some t) :
    TrueBases (noted standing event s t ledger) t := by
  have held' : TrueBases (noted standing event s t ledger) s := true_noted held standing t
  cases event with
  | edit op =>
      cases ran
      exact edit_true client standing op held' (opened_noted (fun _ _ => rfl)) meets
  | enqueue mutationType objectId objectKind expectedRevision envelope mutationId now =>
      cases ran
      exact true_enqueue_leaves _ _ _ _ held' (opened_noted (fun _ _ => rfl)) meets
  | enqueueLocal mutationType objectId envelope mutationId now =>
      cases ran
      exact true_enqueue_local _ _ _ held' (opened_noted (fun _ _ => rfl)) meets
  | resetInFlight =>
      cases ran
      exact true_carried held' (carried_reset s)
  | pull adapter vaultKey options clock fuel w =>
      obtain ⟨⟨w',u,result⟩,pulled,rfl⟩ := Option.map_eq_some_iff.mp ran
      have frame := pull_frame pulled
      exact true_same held' frame.mutations frame.baseVersions
  | push options tick mutation answer =>
      cases ran
      have unused : s.getMutation tick.retryId = none := drawn
      refine true_pushed standing client.codec options tick mutation answer held' (fun conflict is => ?_) (fun resp row is => ?_) (fun conflict is => ?_)
      · subst is
        rw [noted,unused]
        rfl
      · subst is
        exact meets row
      · subst is
        exact meets
  | resolve draw conflictId strategy =>
      cases ran
      have unused : s.getMutation draw.mutationId = none := drawn
      refine true_resolved client.codec client.retitle client.key draw conflictId strategy held' (fun conflict found => ?_) meets
      rw [noted,unused]
      show (s.conflicts.find conflictId).bind _ = _
      rw [found]
      rfl

theorem recorded_base {codec : NoteCodec Key Note} {vaultKey : Option Key} {tick : Tick} {item : PushItemConflict} {record : ConflictRecord}
    (done : recordConflict codec vaultKey tick s item = .ok (record,t)) :
    record.baseEnvelope = s.getBaseVersion item.mutation.objectId item.mutation.expectedRevision := by
  unfold recordConflict at done
  simp only at done
  split at done
  · cases done
  · cases done
    rfl

theorem base_versions_true (client : Client Key Note File) (standing : Standing) (events : List (Event World Key Note File)) (ledger after : Ledger)
    (empty : s.mutations.rows = [])
    (careful : Along (step client standing) (fun event x => event.Drawn x.1 ∧ event.Meets client standing x.1) events (s,ledger))
    (ran : runAll (step client standing) events (s,ledger) = some (t,after)) :
    TrueBases after t ∧
    ∀ m ∈ t.mutations.rows, 0 < m.expectedRevision → ∀ vaultKey tick conflict record u,
      recordConflict client.codec vaultKey tick t ⟨m,conflict⟩ = .ok (record,u) →
      record.baseEnvelope = after m.mutationId m.objectId m.expectedRevision := by
  have held : TrueBases after t := by
    refine run_keeps (fun x => TrueBases x.2 x.1) ?_ events careful ?_ ran
    · intro event x y held fine taken
      obtain ⟨next,went,rfl⟩ := Option.map_eq_some_iff.mp taken
      exact event_true client standing event held fine.1 fine.2 went
    · intro m inside
      rw [empty] at inside
      cases inside
  refine ⟨held,fun m inside positive vaultKey tick conflict record u recorded => ?_⟩
  obtain ⟨envelope,made,base⟩ := held m inside positive
  rw [recorded_base recorded,made]
  exact base

def Client.standIn : Client Unit String String := ⟨.standIn,EditAtomicity.AttachmentCodec.standIn,fun _ title => title,()⟩

def blank : Ledger := fun _ _ _ => none

def shopping : Event Unit Unit String String := .edit (.create firstDraw ⟨"Shopping","AAAA",[]⟩)

def rewritten : Event Unit Unit String String :=
  .edit (.update ⟨"","5f0c1d7e-0000-4000-8000-000000000003","2026-01-01T00:00:01Z",0⟩ firstDraw.objectId ⟨"Shopping","BBBB",[]⟩)

theorem rewritten_note_based :
    (runAll (step .standIn .head) [shopping,rewritten] (.new,blank)).isSome = true ∧
    ∀ x ∈ runAll (step .standIn .head) [shopping,rewritten] (.new,blank), TrueBases x.2 x.1 := by
  refine ⟨rfl,fun x ran => ?_⟩
  have careful : Along (step .standIn .head) (fun event x => event.Drawn x.1 ∧ event.Meets .standIn .head x.1) [shopping,rewritten]
      (.new,blank) := by
    refine ⟨⟨trivial,trivial⟩,fun next taken => ⟨⟨trivial,?_⟩,fun _ _ => trivial⟩⟩
    have unbased : ∀ m ∈ (((shopping.run .standIn .new).getD .new).mutations.rows), m.expectedRevision = 0 := by decide +kernel
    cases taken
    intro stored prior note _ _ _ m inside _ expected positive
    have zero := unbased m inside
    omega
  exact (base_versions_true .standIn .head [shopping,rewritten] blank x.2 rfl careful ran).1

-- The note is synchronised at revision 1, and then a file is attached to it.
def attachment : List (Event Unit Unit String String) :=
  [shopping,
   .push .default ⟨"2026-01-01T00:00:01Z","","",0⟩ ⟨firstDraw.mutationId,firstDraw.objectId,0,objectKindNote,.upsert,
      sealedText firstDraw.objectId "AAAA","2026-01-01T00:00:00Z",0,.pending⟩ (.ok ⟨firstDraw.objectId,1,1⟩),
   .edit (.attach ⟨"5f0c1d7e-0000-4000-8000-000000000004","5f0c1d7e-0000-4000-8000-000000000005","5f0c1d7e-0000-4000-8000-000000000006",
      "2026-01-01T00:00:02Z","2026-01-01T00:00:02Z",0⟩ firstDraw.objectId (.ok "CCCC") none none)]

theorem attached_note_baseless :
    (runAll (step .standIn .head) attachment (.new,blank)).isSome = true ∧
    ∀ x ∈ runAll (step .standIn .head) attachment (.new,blank), ¬TrueBases x.2 x.1 := by
  have missing : ∃ m ∈ ((runAll (step .standIn .head) attachment (.new,blank)).getD (.new,blank)).1.mutations.rows, 0 < m.expectedRevision ∧
      ((runAll (step .standIn .head) attachment (.new,blank)).getD (.new,blank)).1.getBaseVersion m.objectId m.expectedRevision = none := by
    decide +kernel
  refine ⟨rfl,fun x ran held => ?_⟩
  obtain ⟨m,inside,positive,none⟩ := missing
  rw [Option.mem_def.mp ran] at inside none
  obtain ⟨envelope,_,base⟩ := held m inside positive
  rw [show x.1.getBaseVersion m.objectId m.expectedRevision = Option.none from none] at base
  cases base

-- A push is a run of turns, and a sync cycle a run of these and the other events.
theorem settle_report (codec : NoteCodec Key Note) (options : PushOptions Key) (tick : Tick) (mutation : PendingMutation) (s : Storage)
    (report : PushReport) (answer : Except SyncNetworkError PushResponse) :
    (settlePush codec options tick mutation s report answer).1 = (settlePush codec options tick mutation s .default answer).1 := by
  cases answer with
  | ok resp =>
      simp only [settlePush]
      split <;> rfl
  | error e =>
      unfold settlePush
      split
      · rename_i same
        cases same
      · split
        · split <;> rfl
        · dsimp only
          split <;> rfl
      · split <;> rfl

theorem attempt_push_one (adapter : SyncServerAdapter World) (codec : NoteCodec Key Note) (options : PushOptions Key) (tick : Tick)
    (mutation : PendingMutation) (w : World) (s : Storage) (report : PushReport) : ∃ answer,
    (attempt adapter codec options tick mutation w s report).2.1 = pushOne codec options tick mutation answer s := by
  refine ⟨(adapter.pushMutation (requestOf mutation) w).1,?_⟩
  unfold attempt pushOne
  cases markInFlight s mutation.mutationId with
  | error e => rfl
  | ok flying => exact settle_report _ _ _ _ _ _ _

theorem push_events (client : Client Key Note File) (standing : Standing) (adapter : SyncServerAdapter World) (options : PushOptions Key)
    (ticks : Nat → Tick) (list : List PendingMutation) (w : World) (s : Storage) (report : PushReport) (ledger : Ledger) :
    ∃ (events : List (Event World Key Note File)) (after : Ledger), runAll (step client standing) events (s,ledger) =
      some ((pushLoop adapter client.codec options ticks list w s report).2.1,after) := by
  induction list generalizing w s report ledger with
  | nil => exact ⟨[],ledger,rfl⟩
  | cons mutation rest ih =>
      unfold pushLoop
      by_cases most : options.maxMutations.any (fun most => decide (most ≤ report.totalAttempted)) = true
      · rw [if_pos most]
        exact ⟨[],ledger,rfl⟩
      · rw [if_neg most]
        by_cases able : ready mutation = true
        · rw [if_pos able]
          obtain ⟨answer,left⟩ := attempt_push_one adapter client.codec options (ticks report.totalAttempted) mutation w s report
          let event : Event World Key Note File := .push options (ticks report.totalAttempted) mutation answer
          have one : step client standing event (s,ledger) = some (pushOne client.codec options (ticks report.totalAttempted) mutation answer s,
            noted standing event s (pushOne client.codec options (ticks report.totalAttempted) mutation answer s) ledger) := rfl
          rw [← left] at one
          rcases tried : attempt adapter client.codec options (ticks report.totalAttempted) mutation w s report with ⟨w',s',report',flow⟩
          rw [tried] at one
          cases flow with
          | next =>
              obtain ⟨events,after,ran⟩ := ih w' s' report' (noted standing event s s' ledger)
              refine ⟨event :: events,after,?_⟩
              show (step client standing event (s,ledger)).bind _ = _
              rw [one]
              exact ran
          | stop =>
              refine ⟨[event],noted standing event s s' ledger,?_⟩
              show (step client standing event (s,ledger)).bind _ = _
              rw [one]
              rfl
          | abort e =>
              refine ⟨[event],noted standing event s s' ledger,?_⟩
              show (step client standing event (s,ledger)).bind _ = _
              rw [one]
              rfl
        · rw [if_neg able]
          exact ih w s report ledger

theorem pull_event (client : Client Key Note File) (standing : Standing) {adapter : SyncServerAdapter World} {w w' : World}
    {result : Except PullError (PullReport Note)}
    (pulled : pullRemoteChanges adapter client.codec vaultKey options clock fuel w s = some (w',t,result)) (ledger : Ledger) :
    ∃ after, runAll (step client standing) [.pull adapter vaultKey options clock fuel w] (s,ledger) = some (t,after) := by
  refine ⟨noted standing (.pull adapter vaultKey options clock fuel w : Event World Key Note File) s t ledger,?_⟩
  simp only [runAll,step,Event.run,pulled,Option.map_some,Option.bind_some]

theorem cycle_events (client : Client Key Note File) (standing : Standing) {adapter : SyncServerAdapter World} {w w' : World}
    (ran : Orchestrator.runSyncCycle adapter client.codec vaultKey options draws w s = some (w',t,result)) (ledger : Ledger) :
    ∃ (events : List (Event World Key Note File)) (after : Ledger), runAll (step client standing) events (s,ledger) = some (t,after) := by
  have reset : ∃ after, runAll (step client standing) [(.resetInFlight : Event World Key Note File)] (s,ledger) =
      some ((MutationQueue.resetInFlight s).2,after) := ⟨_,rfl⟩
  obtain ⟨ledger₁,reset⟩ := reset
  cases CycleSteps.cycle_phases ran with
  | unpulled pulled =>
      obtain ⟨after,pull⟩ := pull_event client standing pulled ledger₁
      exact ⟨_,after,run_then reset pull⟩
  | unpushed pulled pushed =>
      obtain ⟨ledger₂,pull⟩ := pull_event client standing pulled ledger₁
      obtain ⟨events,after,push⟩ := push_events client standing adapter _ draws.ticks _ _ _ .default ledger₂
      refine ⟨_,after,run_then (run_then reset pull) (push.trans ?_)⟩
      exact congrArg (fun x => some (x.2.1,after)) pushed
  | ended pulled pushed =>
      obtain ⟨ledger₂,pull⟩ := pull_event client standing pulled ledger₁
      obtain ⟨events,after,push⟩ := push_events client standing adapter _ draws.ticks _ _ _ .default ledger₂
      refine ⟨_,after,run_then (run_then reset pull) (push.trans ?_)⟩
      exact congrArg (fun x => some (x.2.1,after)) pushed
  | unfollowed pulled pushed again =>
      obtain ⟨ledger₂,pull⟩ := pull_event client standing pulled ledger₁
      obtain ⟨events,ledger₃,push⟩ := push_events client standing adapter _ draws.ticks _ _ _ .default ledger₂
      obtain ⟨after,more⟩ := pull_event client standing again ledger₃
      refine ⟨_,after,run_then (run_then (run_then reset pull) (push.trans ?_)) more⟩
      exact congrArg (fun x => some (x.2.1,ledger₃)) pushed
  | followed pulled pushed again =>
      obtain ⟨ledger₂,pull⟩ := pull_event client standing pulled ledger₁
      obtain ⟨events,ledger₃,push⟩ := push_events client standing adapter _ draws.ticks _ _ _ .default ledger₂
      obtain ⟨after,more⟩ := pull_event client standing again ledger₃
      refine ⟨_,after,run_then (run_then (run_then reset pull) (push.trans ?_)) more⟩
      exact congrArg (fun x => some (x.2.1,ledger₃)) pushed

end ZkNote.BaseVersions
