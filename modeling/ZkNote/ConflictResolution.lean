import ZkNote.Conflict

namespace ZkNote.ConflictResolution
open Protocol KeyedTable LocalStorage MutationQueue Conflict

variable {Key Note : Type}

inductive ConflictResolutionStrategy (Note : Type) where
  | keepLocal
  | keepRemote
  | merge (note : Note)
  | duplicateAsSeparate (newObjectId : String) (newTitle : Option String)
  | restoreResurrect

structure ConflictResolutionResult where
  conflictId : String
  objectId : String
  retryMutation : Option PendingMutation
  duplicatedObjectId : Option String
  deriving DecidableEq, Repr

-- What one resolution draws: the clock, and again in `enqueue_upsert`, a new
-- mutation's id and the randomness of one sealing.
structure ResolveDraw where
  now : String
  later : String
  mutationId : String
  seed : Nat

-- `ConflictStore::resolve_conflict`
def resolveRecord (s : Storage) (conflictId : String) (resolvedEnvelope : Option EncryptedEnvelope) (resolvedAt : String) : Storage :=
  let close := fun r : ConflictRecord =>
    {r with resolved := true, resolvedAt := some resolvedAt, candidateEnvelope := resolvedEnvelope.or r.candidateEnvelope}
  {s with conflicts := s.conflicts.update (fun r => r.conflictId = conflictId) close (fun _ => rfl)}

def headOf (conflict : ConflictRecord) (isDeleted : Bool) (envelope : EncryptedEnvelope) (now : String) : StoredEncryptedObject :=
  ⟨conflict.objectId,conflict.objectKind,conflict.remoteRevision,0,isDeleted,envelope,now⟩

-- The local or the merged version becomes the head at the remote revision, and is
-- queued on top of it.
def retryWith (draw : ResolveDraw) (conflict : ConflictRecord) (mutationType : MutationType) (envelope : EncryptedEnvelope) (s : Storage) :
    Except QueueError ConflictResolutionResult × Storage :=
  let s := removeForObject s conflict.objectId
  let s := s.putObject (headOf conflict (decide (mutationType = .delete)) envelope draw.now)
  let retry : PendingMutation :=
    ⟨draw.mutationId,conflict.objectId,conflict.remoteRevision,conflict.objectKind,mutationType,envelope,draw.now,0,.pending⟩
  match s.enqueueMutation retry with
  | .error e => (.error (.storage e),s)
  | .ok s => (.ok ⟨conflict.conflictId,conflict.objectId,some retry,none⟩,resolveRecord s conflict.conflictId (some envelope) draw.now)

def acceptRemote (draw : ResolveDraw) (conflict : ConflictRecord) (s : Storage) : Storage :=
  (removeForObject s conflict.objectId).putObject (headOf conflict conflict.remoteIsDeleted conflict.remoteEnvelope draw.now)

-- `retitle` is the assignment to the note's title.
def resolveConflict (codec : NoteCodec Key Note) (retitle : Note → String → Note) (vaultKey : Key) (draw : ResolveDraw) (s : Storage)
    (conflictId : String) (strategy : ConflictResolutionStrategy Note) : Except QueueError ConflictResolutionResult × Storage :=
  match s.conflicts.find conflictId with
  | none => (.error (.notFound s!"conflict record {conflictId} not found"),s)
  | some conflict =>
  if conflict.resolved then (.error (.invalidState s!"conflict record {conflictId} has already been resolved"),s)
  else match strategy with
  | .keepLocal | .restoreResurrect =>
    retryWith draw conflict (if conflict.localIsDeleted then .delete else .upsert) conflict.localEnvelope s
  | .keepRemote =>
    (.ok ⟨conflict.conflictId,conflict.objectId,none,none⟩,
      resolveRecord (acceptRemote draw conflict s) conflict.conflictId (some conflict.remoteEnvelope) draw.now)
  | .merge mergedNote =>
    if conflict.remoteIsDeleted ∨ conflict.localIsDeleted then
      (.error (.invalidState "cannot merge a delete-vs-edit conflict; use KeepLocal/RestoreResurrect to restore, KeepRemote to accept deletion, or DuplicateAsSeparate to restore as a new note"),s)
    else match codec.encrypt draw.seed mergedNote vaultKey conflict.objectId with
    | .error e => (.error (.storage (.backend s!"failed to encrypt merged note: {e}")),s)
    | .ok mergedEnvelope => retryWith draw conflict .upsert mergedEnvelope s
  | .duplicateAsSeparate newObjectId newTitle =>
    -- The remote version stands whatever becomes of the duplicate.
    let s := acceptRemote draw conflict s
    match codec.decrypt conflict.localEnvelope vaultKey with
    | .error e => (.error (.storage (.backend s!"failed to decrypt local note for duplicate: {e}")),s)
    | .ok localNote =>
    match codec.encrypt draw.seed (newTitle.elim localNote (retitle localNote)) vaultKey newObjectId with
    | .error e => (.error (.storage (.backend s!"failed to encrypt duplicated note: {e}")),s)
    | .ok dupEnvelope =>
    match enqueueUpsert s newObjectId conflict.objectKind 0 dupEnvelope draw.mutationId draw.later with
    | .error e => (.error e,s)
    | .ok (dupMutation,s) =>
      let s := s.putObject ⟨newObjectId,conflict.objectKind,1,0,false,dupEnvelope,draw.now⟩
      (.ok ⟨conflict.conflictId,conflict.objectId,some dupMutation,some newObjectId⟩,
        resolveRecord s conflict.conflictId (some conflict.remoteEnvelope) draw.now)

end ZkNote.ConflictResolution
