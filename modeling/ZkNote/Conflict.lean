import ZkNote.Adapter
import ZkNote.MutationQueue
import ZkNote.NoteCodec

namespace ZkNote.Conflict
open Protocol KeyedTable LocalStorage MutationQueue

variable {Key Note : Type}

inductive ConflictPolicy where
  | manual
  | guardedLww
  deriving DecidableEq, Repr

inductive LwwWinner where
  | mine
  | theirs
  deriving DecidableEq, Repr

structure GuardedLwwOutcome where
  conflictId : String
  objectId : String
  winner : LwwWinner
  winningRevision : Nat
  losingRevision : Nat
  retryMutation : Option PendingMutation
  deriving DecidableEq, Repr

structure PushItemConflict where
  mutation : PendingMutation
  conflict : ConflictResponse
  deriving DecidableEq, Repr

-- What one push attempt draws from outside: the clock, two new ids and the
-- randomness of one sealing.
structure Tick where
  now : String
  conflictId : String
  retryId : String
  seed : Nat

def generateMergeCandidate (codec : NoteCodec Key Note) (key : Key) (seed : Nat) (base : Option EncryptedEnvelope)
    (mine theirs : EncryptedEnvelope) : Except StorageError EncryptedEnvelope :=
  match codec.decrypt mine key with
  | .error e => .error (.backend s!"failed to decrypt local note: {e}")
  | .ok localNote =>
  match codec.decrypt theirs key with
  | .error e => .error (.backend s!"failed to decrypt remote note: {e}")
  | .ok remoteNote =>
  match base.elim (.ok codec.blank) (fun envelope => codec.decrypt envelope key) with
  | .error e => .error (.backend s!"failed to decrypt base note: {e}")
  | .ok baseNote =>
  match codec.encrypt seed (codec.threeWayMergeNote baseNote localNote remoteNote) key mine.objectId with
  | .error e => .error (.backend s!"failed to encrypt merge candidate: {e}")
  | .ok candidate => .ok candidate

def recordConflict (codec : NoteCodec Key Note) (vaultKey : Option Key) (tick : Tick) (s : Storage)
    (item : PushItemConflict) : Except StorageError (ConflictRecord × Storage) :=
  let base := s.getBaseVersion item.mutation.objectId item.mutation.expectedRevision
  let localIsDeleted := decide (item.mutation.mutationType = .delete)
  let candidate : Except StorageError (Option EncryptedEnvelope) :=
    if localIsDeleted || item.conflict.isDeleted then .ok none
    else match vaultKey with
      | none => .ok none
      | some key =>
        (generateMergeCandidate codec key tick.seed base item.mutation.envelope item.conflict.currentEnvelope).map some
  match candidate with
  | .error e => .error e
  | .ok candidate =>
    let record : ConflictRecord :=
      { conflictId := tick.conflictId
        objectId := item.mutation.objectId
        objectKind := item.mutation.objectKind
        baseRevision := item.mutation.expectedRevision
        remoteRevision := item.conflict.currentRevision
        baseEnvelope := base
        localEnvelope := item.mutation.envelope
        remoteEnvelope := item.conflict.currentEnvelope
        candidateEnvelope := candidate
        resolved := false
        remoteIsDeleted := item.conflict.isDeleted
        localIsDeleted := localIsDeleted
        createdAt := tick.now
        resolvedAt := none }
    .ok (record,s.putConflict record)

-- Step 2 of the guarded policy: strictly later wins, ties go to the larger
-- ciphertext; without a readable pair of notes the stored copy's time is used.
def localWins (codec : NoteCodec Key Note) (vaultKey : Option Key) (s : Storage) (mutation : PendingMutation)
    (conflict : ConflictResponse) : Bool :=
  let larger := decide (conflict.currentEnvelope.payload.ciphertext < mutation.envelope.payload.ciphertext)
  let opened := vaultKey.bind (fun key =>
    match codec.decrypt mutation.envelope key,codec.decrypt conflict.currentEnvelope key with
    | .ok mine,.ok theirs => some (codec.updatedAt mine,codec.updatedAt theirs)
    | _,_ => none)
  match opened with
  | some (mine,theirs) => if mine ≠ theirs then decide (theirs < mine) else larger
  | none =>
    match ((s.getObject mutation.objectId).filter (fun o => o.revision = conflict.currentRevision)).map (·.updatedAt) with
    | some theirs => if mutation.createdAt ≠ theirs then decide (theirs < mutation.createdAt) else larger
    | none => larger

def removeForObject (s : Storage) (objectId : String) : Storage :=
  (s.listMutationsForObject objectId).foldl (fun s m => s.removeMutation m.mutationId) s

def resolvedRecord (tick : Tick) (mutation : PendingMutation) (conflict : ConflictResponse)
    (base : Option EncryptedEnvelope) (winner : EncryptedEnvelope) : ConflictRecord :=
  { conflictId := tick.conflictId
    objectId := mutation.objectId
    objectKind := mutation.objectKind
    baseRevision := mutation.expectedRevision
    remoteRevision := conflict.currentRevision
    baseEnvelope := base
    localEnvelope := mutation.envelope
    remoteEnvelope := conflict.currentEnvelope
    candidateEnvelope := some winner
    resolved := true
    remoteIsDeleted := false
    localIsDeleted := false
    createdAt := tick.now
    resolvedAt := some tick.now }

def evaluateGuardedLww (codec : NoteCodec Key Note) (vaultKey : Option Key) (tick : Tick) (s : Storage)
    (mutation : PendingMutation) (conflict : ConflictResponse) : Except QueueError GuardedLwwOutcome × Storage :=
  if conflict.isDeleted ∨ mutation.mutationType = .delete then
    (.error (.invalidState "delete-vs-edit conflict cannot be resolved automatically by Guarded LWW; explicit user resolution required (SEC-008)"),s)
  else
    let base := s.getBaseVersion mutation.objectId mutation.expectedRevision
    let head := fun envelope : EncryptedEnvelope =>
      (⟨mutation.objectId,mutation.objectKind,conflict.currentRevision,0,false,envelope,tick.now⟩ : StoredEncryptedObject)
    if localWins codec vaultKey s mutation conflict then
      let s := s.putBaseVersion mutation.objectId conflict.currentRevision conflict.currentEnvelope
      let s := removeForObject (s.putObject (head mutation.envelope)) mutation.objectId
      let retry : PendingMutation :=
        ⟨tick.retryId,mutation.objectId,conflict.currentRevision,mutation.objectKind,.upsert,mutation.envelope,tick.now,0,.pending⟩
      match s.enqueueMutation retry with
      | .error e => (.error (.storage e),s)
      | .ok s =>
        (.ok ⟨tick.conflictId,mutation.objectId,.mine,conflict.currentRevision,conflict.currentRevision,some retry⟩,
          s.putConflict (resolvedRecord tick mutation conflict base mutation.envelope))
    else
      let s := s.putBaseVersion mutation.objectId mutation.expectedRevision mutation.envelope
      let s := removeForObject (s.putObject (head conflict.currentEnvelope)) mutation.objectId
      (.ok ⟨tick.conflictId,mutation.objectId,.theirs,conflict.currentRevision,mutation.expectedRevision,none⟩,
        s.putConflict (resolvedRecord tick mutation conflict base conflict.currentEnvelope))

end ZkNote.Conflict
