import ZkNote.LocalStorage

namespace ZkNote.StateMachine
open Protocol LocalStorage

inductive SyncPhase where
  | initial
  | pullingInitial
  | pushing
  | pullingFollowup
  | complete
  | failed
  deriving DecidableEq, Repr

inductive SyncAction where
  | fetchPull (after limit : Nat)
  | storeObject (object : StoredEncryptedObject)
  | advanceCursor (cursor : Nat)
  | resetInFlightMutations
  | markMutationInFlight (mutationId : String) (retryCount : UInt32)
  | sendPush (request : PushRequest)
  | acknowledgeAccepted (object : StoredEncryptedObject) (mutationId : String)
  | recordConflict (conflictRecord : ConflictRecord) (mutationId : String)
  | resetMutationToPending (mutationId : String)
  | markMutationFailed (mutationId : String)
  | updateSyncState (cursor : Nat) (lastSyncAt : String)
  deriving DecidableEq, Repr

structure SyncStateMachineOptions where
  pageLimit : Nat
  stopOnConflict : Bool
  alwaysFollowupPull : Bool
  deriving DecidableEq, Repr

def SyncStateMachineOptions.default : SyncStateMachineOptions := ⟨50,false,false⟩

structure PullSummary where
  pagesFetched : Nat
  totalChanges : Nat
  appliedChanges : Nat
  initialCursor : Nat
  finalCursor : Nat
  deriving DecidableEq, Repr

def PullSummary.at (cursor : Nat) : PullSummary := ⟨0,0,0,cursor,cursor⟩

structure PushSummary where
  totalAttempted : Nat
  accepted : List PushResponse
  conflicts : List ConflictRecord
  transientFailures : Nat
  deriving DecidableEq, Repr

-- `conflicted_objects` is only inserted into and asked for membership.
structure SyncStateMachine where
  phase : SyncPhase
  initialCursor : Nat
  currentCursor : Nat
  pendingMutations : List PendingMutation
  mutationIndex : Nat
  conflictedObjects : List String
  pageLimit : Nat
  stopOnConflict : Bool
  alwaysFollowupPull : Bool
  initialPull : PullSummary
  followupPull : Option PullSummary
  push : PushSummary
  completed : Bool
  deriving DecidableEq, Repr

namespace SyncStateMachine

def new (initialCursor : Nat) (pendingMutations : List PendingMutation) (options : SyncStateMachineOptions) :
    SyncStateMachine where
  phase := .initial
  initialCursor := initialCursor
  currentCursor := initialCursor
  pendingMutations := pendingMutations
  mutationIndex := 0
  conflictedObjects := []
  pageLimit := max 1 (min options.pageLimit 500)
  stopOnConflict := options.stopOnConflict
  alwaysFollowupPull := options.alwaysFollowupPull
  initialPull := .at initialCursor
  followupPull := none
  push := ⟨0,[],[],0⟩
  completed := false

def fetch (m : SyncStateMachine) : SyncAction := .fetchPull m.currentCursor m.pageLimit

def start (m : SyncStateMachine) : SyncStateMachine × List SyncAction :=
  ({m with phase := .pullingInitial},[.resetInFlightMutations,m.fetch])

-- The last steps of a cycle, the same text in `step_push` and, when it stops at
-- a conflict, in `handle_push_conflict`.
def finish (m : SyncStateMachine) (now : String) : SyncStateMachine × List SyncAction :=
  if m.push.accepted ≠ [] ∨ m.alwaysFollowupPull then ({m with phase := .pullingFollowup},[m.fetch])
  else ({m with phase := .complete,completed := true},[.updateSyncState m.currentCursor now])

def eligible (m : SyncStateMachine) (mutation : PendingMutation) : Bool :=
  ready mutation && !m.conflictedObjects.contains mutation.objectId

-- The while loop moves `mutation_index` to the first eligible entry, or past
-- the last one. `retry_count + 1` wraps as it does in a release build.
def stepPush (m : SyncStateMachine) (now : String) : SyncStateMachine × List SyncAction :=
  let index := m.mutationIndex + (m.pendingMutations.drop m.mutationIndex).findIdx m.eligible
  let m := {m with mutationIndex := index}
  match m.pendingMutations[index]? with
  | some mutation =>
    ({m with push := {m.push with totalAttempted := m.push.totalAttempted+1}},
      [.markMutationInFlight mutation.mutationId (mutation.retryCount+1),.sendPush (requestOf mutation)])
  | none =>
    if 0 < m.push.transientFailures then ({m with phase := .failed},[])
    else m.finish now

-- One pass over a page: the actions, the cursor after it and the number applied.
def storeChanges (clock : Nat → String) : Nat → Nat → List ObjectChange → List SyncAction × Nat × Nat
  | _,cursor,[] => ([],cursor,0)
  | i,cursor,change :: rest =>
    if change.serverSeq ≤ cursor ∧ 0 < cursor then storeChanges clock (i+1) cursor rest
    else
      let (actions,last,applied) := storeChanges clock (i+1) change.serverSeq rest
      (.storeObject (storedOf change (clock i)) :: .advanceCursor change.serverSeq :: actions,last,applied+1)

def countPage (summary : PullSummary) (total applied cursor : Nat) : PullSummary :=
  {summary with
    pagesFetched := summary.pagesFetched+1
    totalChanges := summary.totalChanges+total
    appliedChanges := summary.appliedChanges+applied
    finalCursor := if applied = 0 then summary.finalCursor else cursor}

def handlePullResponse (m : SyncStateMachine) (clock : Nat → String) (resp : PullChangesResponse) :
    SyncStateMachine × List SyncAction :=
  let isInitial := m.phase = .pullingInitial
  let (actions,cursor,applied) := storeChanges clock 0 m.currentCursor resp.changes
  let counted := fun summary => countPage summary resp.changes.length applied cursor
  let m : SyncStateMachine :=
    if isInitial then {m with currentCursor := cursor,initialPull := counted m.initialPull}
    else {m with currentCursor := cursor,followupPull := some (counted (m.followupPull.getD (.at m.currentCursor)))}
  let now := clock resp.changes.length
  if resp.hasMore then (m,actions ++ [m.fetch])
  else if isInitial then
    let (m,more) := stepPush {m with phase := .pushing} now
    (m,actions ++ more)
  else ({m with phase := .complete,completed := true},actions ++ [.updateSyncState m.currentCursor now])

-- The check the three handlers of a push answer begin with.
def inFlight (m : SyncStateMachine) (mutationId : String) : Except String PendingMutation :=
  match m.pendingMutations[m.mutationIndex]? with
  | none => .error "no mutation currently in flight"
  | some mutation =>
    if mutation.mutationId ≠ mutationId then
      .error s!"mutation ID mismatch: expected '{mutation.mutationId}', got '{mutationId}'"
    else .ok mutation

def handlePushSuccess (m : SyncStateMachine) (now : String) (mutationId : String) (resp : PushResponse) :
    Except String (SyncStateMachine × List SyncAction) := do
  let mutation ← m.inFlight mutationId
  let stored : StoredEncryptedObject :=
    ⟨resp.objectId,mutation.objectKind,resp.revision,resp.serverSeq,decide (mutation.mutationType = .delete),
      mutation.envelope,now⟩
  let (m,more) := stepPush {m with
    push := {m.push with accepted := m.push.accepted ++ [resp]}
    mutationIndex := m.mutationIndex+1} now
  return (m,.acknowledgeAccepted stored mutationId :: more)

-- Gating is keyed on the record the driver passes, not on the mutation in flight.
def handlePushConflict (m : SyncStateMachine) (now : String) (mutationId : String) (conflictRecord : ConflictRecord) :
    Except String (SyncStateMachine × List SyncAction) := do
  let _ ← m.inFlight mutationId
  let m := {m with
    conflictedObjects := conflictRecord.objectId :: m.conflictedObjects
    push := {m.push with conflicts := m.push.conflicts ++ [conflictRecord]}
    mutationIndex := m.mutationIndex+1}
  let (m,more) := if m.stopOnConflict then m.finish now else m.stepPush now
  return (m,.recordConflict conflictRecord mutationId :: .resetMutationToPending mutationId :: more)

def handlePushTransientError (m : SyncStateMachine) (mutationId : String) :
    Except String (SyncStateMachine × List SyncAction) := do
  let _ ← m.inFlight mutationId
  return ({m with
    push := {m.push with transientFailures := m.push.transientFailures+1}
    mutationIndex := m.mutationIndex+1
    phase := .failed},[.resetMutationToPending mutationId])

def handlePushFatalError (m : SyncStateMachine) (mutationId : String) (_error : String) :
    Except String (SyncStateMachine × List SyncAction) :=
  return ({m with phase := .failed},[.markMutationFailed mutationId])

end SyncStateMachine

structure StateMachineReport where
  initialPull : PullSummary
  push : PushSummary
  followupPull : Option PullSummary
  initialCursor : Nat
  finalCursor : Nat
  mutationsAccepted : Nat
  mutationsConflicted : Nat
  mutationsRemaining : Nat
  deriving DecidableEq, Repr

def SyncStateMachine.getReport (m : SyncStateMachine) : StateMachineReport where
  initialPull := m.initialPull
  push := m.push
  followupPull := m.followupPull
  initialCursor := m.initialCursor
  finalCursor := m.currentCursor
  mutationsAccepted := m.push.accepted.length
  mutationsConflicted := m.push.conflicts.length
  mutationsRemaining :=
    (m.pendingMutations.filter (fun x =>
      !m.push.accepted.any (fun a => a.objectId = x.objectId ∧ x.mutationId ≠ ""))).length - m.push.accepted.length

end ZkNote.StateMachine
