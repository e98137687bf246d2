import ZkNote.LocalStorage

namespace ZkNote.MutationQueue
open Protocol KeyedTable LocalStorage

inductive QueueError where
  | storage (error : StorageError)
  | notFound (message : String)
  | invalidState (message : String)
  | validation (message : String)
  deriving DecidableEq, Repr

-- `enqueue_upsert` and `enqueue_delete` differ in the mutation type only. The
-- id and the time are what `Uuid::new_v4` and the clock return.
def enqueueTyped (mutationType : MutationType) (s : Storage) (objectId : String) (objectKind : UInt16)
    (expectedRevision : Nat) (envelope : EncryptedEnvelope) (mutationId now : String) :
    Except QueueError (PendingMutation × Storage) :=
  if envelope.objectId ≠ objectId then
    .error (.validation s!"envelope object_id '{envelope.objectId}' does not match target object_id '{objectId}'")
  else
    let s := match s.getObject objectId with
      | some current =>
        if current.revision = expectedRevision then s.putBaseVersion objectId expectedRevision current.envelope else s
      | none => s
    let mutation : PendingMutation :=
      ⟨mutationId,objectId,expectedRevision,objectKind,mutationType,envelope,now,0,.pending⟩
    match s.enqueueMutation mutation with
    | .error e => .error (.storage e)
    | .ok s => .ok (mutation,s)

def enqueueUpsert : Storage → String → UInt16 → Nat → EncryptedEnvelope → String → String →
    Except QueueError (PendingMutation × Storage) := enqueueTyped .upsert
def enqueueDelete : Storage → String → UInt16 → Nat → EncryptedEnvelope → String → String →
    Except QueueError (PendingMutation × Storage) := enqueueTyped .delete

def enqueueLocalNoteUpsert (s : Storage) (objectId : String) (envelope : EncryptedEnvelope) (mutationId now : String) :
    Except QueueError (PendingMutation × Storage) :=
  match s.getObject objectId with
  | some obj =>
    enqueueUpsert (s.putBaseVersion objectId obj.revision obj.envelope) objectId objectKindNote obj.revision envelope mutationId now
  | none => enqueueUpsert s objectId objectKindNote 0 envelope mutationId now

def enqueueLocalNoteDelete (s : Storage) (objectId : String) (tombstoneEnvelope : EncryptedEnvelope) (mutationId now : String) :
    Except QueueError (PendingMutation × Storage) :=
  match s.getObject objectId with
  | some obj =>
    enqueueDelete (s.putBaseVersion objectId obj.revision obj.envelope) objectId objectKindNote obj.revision
      tombstoneEnvelope mutationId now
  | none => .error (.notFound s!"cannot delete non-existent object '{objectId}'")

-- `mark_in_flight`, `mark_pending` and `mark_failed` share one body.
def mark (status : MutationStatus) (retries : UInt32 → UInt32) (s : Storage) (mutationId : String) : Except QueueError Storage :=
  match s.getMutation mutationId with
  | none => .error (.notFound s!"mutation '{mutationId}' not found")
  | some mutation =>
    match s.updateMutationStatus mutationId status (retries mutation.retryCount) with
    | .error e => .error (.storage e)
    | .ok s => .ok s

def saturatingSucc (n : UInt32) : UInt32 := if n = 4294967295 then n else n+1

def markInFlight : Storage → String → Except QueueError Storage := mark .inFlight saturatingSucc
def markPending : Storage → String → Except QueueError Storage := mark .pending (fun n => n)
def markFailed : Storage → String → Except QueueError Storage := mark .failed (fun n => n)

-- `let _ = queue.mark_..`: the result is dropped.
def orKeep {ε : Type} (s : Storage) : Except ε Storage → Storage
  | .ok t => t
  | .error _ => s

def resetAll : List PendingMutation → Storage → Nat → Except QueueError Nat × Storage
  | [],s,count => (.ok count,s)
  | m :: rest,s,count =>
    if m.status = .inFlight then
      match s.updateMutationStatus m.mutationId .pending m.retryCount with
      | .error e => (.error (.storage e),s)
      | .ok s => resetAll rest s (count+1)
    else resetAll rest s count

def resetInFlight (s : Storage) : Except QueueError Nat × Storage := resetAll s.listPendingMutations s 0

def acknowledgeAccepted (s : Storage) (mutationId : String) (acceptedRevision serverSeq : Nat) (now : String) :
    Except QueueError (StoredEncryptedObject × Storage) :=
  match s.getMutation mutationId with
  | none => .error (.notFound s!"mutation '{mutationId}' not found")
  | some mutation =>
    let stored : StoredEncryptedObject :=
      ⟨mutation.objectId,mutation.objectKind,acceptedRevision,serverSeq,decide (mutation.mutationType = .delete),
        mutation.envelope,now⟩
    -- The object is durable before the mutation leaves the queue.
    .ok (stored,((s.putObject stored).removeMutation mutationId).pruneBaseVersions mutation.objectId acceptedRevision)

end ZkNote.MutationQueue
