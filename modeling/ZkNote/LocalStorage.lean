import Mathlib.Data.List.Sort
import Mathlib.Data.String.Basic
import ZkNote.KeyedTable
import ZkNote.Protocol

namespace ZkNote.LocalStorage
open Protocol KeyedTable

structure StoredEncryptedObject where
  objectId : String
  objectKind : UInt16
  revision : Nat
  serverSeq : Nat
  isDeleted : Bool
  envelope : EncryptedEnvelope
  updatedAt : String
  deriving DecidableEq, Repr

structure ObjectFilter where
  kind : Option UInt16
  includeDeleted : Bool
  deriving DecidableEq, Repr

def ObjectFilter.all : ObjectFilter := ⟨none,true⟩

inductive MutationType where
  | upsert
  | delete
  deriving DecidableEq, Repr

inductive MutationStatus where
  | pending
  | inFlight
  | failed
  deriving DecidableEq, Repr

structure PendingMutation where
  mutationId : String
  objectId : String
  expectedRevision : Nat
  objectKind : UInt16
  mutationType : MutationType
  envelope : EncryptedEnvelope
  createdAt : String
  retryCount : UInt32
  status : MutationStatus
  deriving DecidableEq, Repr

-- A pulled change as it is stored, and a queued mutation as it is sent.
def storedOf (change : ObjectChange) (updatedAt : String) : StoredEncryptedObject :=
  ⟨change.objectId,change.objectKind,change.revision,change.serverSeq,change.isDeleted,change.envelope,updatedAt⟩

-- The statuses both push engines transmit.
def ready (mutation : PendingMutation) : Bool :=
  decide (mutation.status = .pending ∨ mutation.status = .inFlight)

def requestOf (m : PendingMutation) : PushRequest :=
  ⟨m.mutationId,m.objectId,m.expectedRevision,m.objectKind,m.envelope,decide (m.mutationType = .delete)⟩

@[simp] theorem request_mutation (m : PendingMutation) : (requestOf m).mutationId = m.mutationId := rfl
@[simp] theorem request_object (m : PendingMutation) : (requestOf m).objectId = m.objectId := rfl
@[simp] theorem request_expected (m : PendingMutation) : (requestOf m).expectedRevision = m.expectedRevision := rfl

def queued (mutationId objectId : String) (expectedRevision : Nat) (status : MutationStatus) (text createdAt : String) :
    PendingMutation :=
  ⟨mutationId,objectId,expectedRevision,objectKindNote,.upsert,sealedText objectId text,createdAt,0,status⟩

structure BaseVersion where
  objectId : String
  revision : Nat
  envelope : EncryptedEnvelope
  deriving DecidableEq, Repr

structure SyncState where
  syncCursor : Nat
  lastSyncAt : Option String
  deviceId : Option String
  deriving DecidableEq, Repr

structure ConflictRecord where
  conflictId : String
  objectId : String
  objectKind : UInt16
  baseRevision : Nat
  remoteRevision : Nat
  baseEnvelope : Option EncryptedEnvelope
  localEnvelope : EncryptedEnvelope
  remoteEnvelope : EncryptedEnvelope
  candidateEnvelope : Option EncryptedEnvelope
  resolved : Bool
  remoteIsDeleted : Bool
  localIsDeleted : Bool
  createdAt : String
  resolvedAt : Option String
  deriving DecidableEq, Repr

inductive StorageError where
  | notFound (entity id : String)
  | alreadyExists (entity id : String)
  | backend (message : String)
  deriving DecidableEq, Repr

-- The SQLite cache of one device. Rows keep insertion order, which is the order
-- SQLite gives rows that an ORDER BY leaves tied.
structure Storage where
  objects : Table String StoredEncryptedObject (·.objectId)
  mutations : Table String PendingMutation (·.mutationId)
  baseVersions : Table (String × Nat) BaseVersion (fun r => (r.objectId,r.revision))
  syncState : SyncState
  conflicts : Table String ConflictRecord (·.conflictId)

def Storage.new : Storage := ⟨.empty,.empty,.empty,⟨initialSyncCursor,none,none⟩,.empty⟩

namespace Storage

def getObject (s : Storage) (objectId : String) : Option StoredEncryptedObject := s.objects.find objectId

def putObject (s : Storage) (object : StoredEncryptedObject) : Storage :=
  {s with objects := s.objects.upsert object}

def listObjects (s : Storage) (filter : ObjectFilter) : List StoredEncryptedObject :=
  (s.objects.rows.filter (fun o =>
    (filter.includeDeleted || !o.isDeleted) && (filter.kind.all (· == o.objectKind)))).insertionSort
    (fun a b => a.objectId ≤ b.objectId)

def markDeleted (s : Storage) (objectId : String) (revision : Nat) (envelope : EncryptedEnvelope) (updatedAt : String) :
    Except StorageError Storage :=
  match s.objects.find objectId with
  | none => .error (.notFound "object" objectId)
  | some existing =>
    .ok (s.putObject {existing with revision := revision,isDeleted := true,envelope := envelope,updatedAt := updatedAt})

def purgeObject (s : Storage) (objectId : String) : Storage :=
  {s with objects := s.objects.delete (fun o => o.objectId = objectId)}

def enqueueMutation (s : Storage) (mutation : PendingMutation) : Except StorageError Storage :=
  match s.mutations.insert mutation with
  | none => .error (.alreadyExists "pending_mutation" mutation.mutationId)
  | some mutations => .ok {s with mutations := mutations}

def getMutation (s : Storage) (mutationId : String) : Option PendingMutation := s.mutations.find mutationId

-- ORDER BY created_at ASC
def listPendingMutations (s : Storage) : List PendingMutation :=
  s.mutations.rows.insertionSort (fun a b => a.createdAt ≤ b.createdAt)

def listMutationsForObject (s : Storage) (objectId : String) : List PendingMutation :=
  (s.mutations.rows.filter (fun m => m.objectId = objectId)).insertionSort (fun a b => a.createdAt ≤ b.createdAt)

def removeMutation (s : Storage) (mutationId : String) : Storage :=
  {s with mutations := s.mutations.delete (fun m => m.mutationId = mutationId)}

def updateMutationStatus (s : Storage) (mutationId : String) (status : MutationStatus) (retryCount : UInt32) :
    Except StorageError Storage :=
  match s.mutations.find mutationId with
  | none => .error (.notFound "pending_mutation" mutationId)
  | some m => .ok {s with mutations := s.mutations.upsert {m with status := status,retryCount := retryCount}}

def pendingMutationCount (s : Storage) : Nat := s.mutations.rows.length

def getBaseVersion (s : Storage) (objectId : String) (revision : Nat) : Option EncryptedEnvelope :=
  (s.baseVersions.find (objectId,revision)).map (·.envelope)

def putBaseVersion (s : Storage) (objectId : String) (revision : Nat) (envelope : EncryptedEnvelope) : Storage :=
  {s with baseVersions := s.baseVersions.upsert ⟨objectId,revision,envelope⟩}

def pruneBaseVersions (s : Storage) (objectId : String) (olderThanRevision : Nat) : Storage :=
  {s with baseVersions := s.baseVersions.delete (fun b => b.objectId = objectId ∧ b.revision < olderThanRevision)}

def clearBaseVersions (s : Storage) (objectId : String) : Storage :=
  {s with baseVersions := s.baseVersions.delete (fun b => b.objectId = objectId)}

def setSyncCursor (s : Storage) (cursor : Nat) : Storage :=
  {s with syncState := {s.syncState with syncCursor := cursor}}

def setSyncState (s : Storage) (state : SyncState) : Storage := {s with syncState := state}

def putConflict (s : Storage) (conflict : ConflictRecord) : Storage :=
  {s with conflicts := s.conflicts.upsert conflict}

end Storage

-- Rows in ORDER BY order are the same rows.
theorem mem_pending (s : Storage) (m : PendingMutation) : m ∈ s.listPendingMutations ↔ m ∈ s.mutations.rows :=
  (List.perm_insertionSort _ _).mem_iff

theorem pending_ids_nodup (s : Storage) : (s.listPendingMutations.map (·.mutationId)).Nodup :=
  ((List.perm_insertionSort _ _).map _).nodup_iff.mpr s.mutations.unique

theorem enqueue_cases {s t : Storage} (done : s.enqueueMutation m = .ok t) :
    s.getMutation m.mutationId = none ∧ t = {s with mutations := s.mutations.upsert m} := by
  unfold Storage.enqueueMutation at done
  split at done
  · cases done
  · rename_i mutations inserted
    obtain ⟨fresh,rfl⟩ := insert_cases inserted
    exact ⟨fresh,(Except.ok.inj done).symm⟩

end ZkNote.LocalStorage
