import ZkNote.Conflict
import ZkNote.IndexedDb
import ZkNote.StateMachine

namespace ZkNote.BrowserSync
open Protocol LocalStorage IndexedDb StateMachine SyncStateMachine Conflict

variable {World Key Note : Type}

-- What `pushMutation` of the adapter brings back, with thrown errors sorted as
-- the catch block of `sync` sorts them.
inductive PushAnswer where
  | accepted (response : PushResponse)
  | conflict (response : ConflictResponse)
  | retryable (message : String)
  | fatal (message : String)
  deriving DecidableEq, Repr

structure BrowserServer (World : Type) where
  pushMutation : PushRequest → World → PushAnswer × World
  fetchPullChanges : Nat → Nat → World → Except String PullChangesResponse × World

-- Times, a new id and randomness, drawn while one answer is handled.
structure Draw where
  clock : Nat → String
  conflictId : String
  seed : Nat

-- What one call of `sync` is given. `vaultKey` is the key an unlocked worker
-- uses for merge candidates; without a worker, or locked, there is none.
structure Browser (World Key Note : Type) where
  server : BrowserServer World
  codec : NoteCodec Key Note
  vaultKey : Option Key
  collation : Collation
  identity : String
  options : SyncStateMachineOptions
  draws : Nat → Draw

-- `build_conflict_record`, and `record_conflict` of an unlocked session.
def buildConflictRecord (codec : NoteCodec Key Note) (vaultKey : Option Key) (draw : Draw) (mutation : PendingMutation)
    (conflict : ConflictResponse) (base : Option EncryptedEnvelope) : Except String ConflictRecord :=
  let localIsDeleted := decide (mutation.mutationType = .delete)
  let candidate : Except String (Option EncryptedEnvelope) :=
    if localIsDeleted || conflict.isDeleted then .ok none
    else match vaultKey with
      | none => .ok none
      | some key =>
        match generateMergeCandidate codec key draw.seed base mutation.envelope conflict.currentEnvelope with
        | .error _ => .error "failed to generate merge candidate"
        | .ok envelope => .ok (some envelope)
  candidate.map (fun candidate =>
    { conflictId := draw.conflictId
      objectId := mutation.objectId
      objectKind := mutation.objectKind
      baseRevision := mutation.expectedRevision
      remoteRevision := conflict.currentRevision
      baseEnvelope := base
      localEnvelope := mutation.envelope
      remoteEnvelope := conflict.currentEnvelope
      candidateEnvelope := candidate
      resolved := false
      remoteIsDeleted := conflict.isDeleted
      localIsDeleted := localIsDeleted
      createdAt := draw.clock 0
      resolvedAt := none })

-- The variables of `sync`: the machine, its queue of actions, and how many
-- answers it has handled. `done` records the executed actions in order.
structure SyncCycle (World : Type) where
  machine : SyncStateMachine
  actions : List SyncAction
  storage : WebDb
  world : World
  answered : Nat
  done : List SyncAction

inductive Step (World : Type) where
  | go (cycle : SyncCycle World)
  | thrown (message : String) (cycle : SyncCycle World)

def SyncCycle.stored (c : SyncCycle World) : Except String WebDb → Step World
  | .ok storage => .go {c with storage := storage}
  | .error message => .thrown message c

def SyncCycle.queue (c : SyncCycle World) (machine : SyncStateMachine) (next : List SyncAction) : SyncCycle World :=
  {c with machine := machine,actions := c.actions ++ next,answered := c.answered+1}

-- After an error only the mutation's status is written back; then it is thrown.
def drain (wanted : SyncAction → Option (String × MutationStatus)) (message : String) : List SyncAction → SyncCycle World → Step World
  | [],c => .thrown message {c with actions := []}
  | action :: rest,c =>
    match wanted action with
    | none => drain wanted message rest c
    | some (mutationId,status) =>
      match c.storage.updateMutationStatus mutationId status none with
      | .error failed => .thrown failed {c with actions := rest}
      | .ok storage => drain wanted message rest {c with storage := storage}

def resetting : SyncAction → Option (String × MutationStatus)
  | .resetMutationToPending mutationId => some (mutationId,.pending)
  | _ => none

def failing : SyncAction → Option (String × MutationStatus)
  | .markMutationFailed mutationId => some (mutationId,.failed)
  | _ => none

def giveUp (wanted : SyncAction → Option (String × MutationStatus)) (message : String) (c : SyncCycle World) :
    Except String (SyncStateMachine × List SyncAction) → Step World
  | .error failed => .thrown failed c
  | .ok (machine,next) => drain wanted message (c.actions ++ next) (c.queue machine next)

def fail (message : String) (c : SyncCycle World) (request : PushRequest) : Step World :=
  giveUp failing message c (c.machine.handlePushFatalError request.mutationId message)

def retryLater (message : String) (c : SyncCycle World) (request : PushRequest) : Step World :=
  giveUp resetting message c (c.machine.handlePushTransientError request.mutationId)

-- The catch block's record: `currentMutation`, or the request, which is no mutation.
def recordFor (b : Browser World Key Note) (answered : Nat) (machine : SyncStateMachine) (storage : WebDb) (request : PushRequest)
    (response : ConflictResponse) : Except String ConflictRecord :=
  match machine.pendingMutations.find? (fun m => m.mutationId = request.mutationId) with
  | none => .error "missing field"
  | some mutation => buildConflictRecord b.codec b.vaultKey (b.draws answered) mutation response
      (storage.getBaseVersion request.objectId request.expectedRevision)

-- The `SendPush` case, once the server has answered. An error of the machine's
-- success handler is caught by the same catch block.
def settle (b : Browser World Key Note) (c : SyncCycle World) (request : PushRequest) : PushAnswer → Step World
  | .accepted response =>
    match c.machine.handlePushSuccess ((b.draws c.answered).clock 0) request.mutationId response with
    | .error message => fail message c request
    | .ok (machine,next) => .go (c.queue machine next)
  | .conflict response =>
    match recordFor b c.answered c.machine c.storage request response with
    | .error message => retryLater message c request
    | .ok record =>
      match c.machine.handlePushConflict ((b.draws c.answered).clock 0) request.mutationId record with
      | .error message => .thrown message c
      | .ok (machine,next) => .go (c.queue machine next)
  | .retryable message => retryLater message c request
  | .fatal message => fail message c request

def perform (b : Browser World Key Note) (deviceId : Option String) (c : SyncCycle World) : SyncAction → Step World
  | .resetInFlightMutations => c.stored (c.storage.resetInFlightMutations.map (·.2))
  | .fetchPull after limit =>
    match b.server.fetchPullChanges after (max 1 (min 500 limit)) c.world with
    | (.error message,world) => .thrown message {c with world := world}
    | (.ok response,world) =>
      let (machine,next) := c.machine.handlePullResponse (b.draws c.answered).clock response
      .go ({c with world := world}.queue machine next)
  | .storeObject object => .go {c with storage := c.storage.putObject object}
  | .advanceCursor cursor => .go {c with storage := c.storage.setSyncCursor cursor b.identity}
  | .markMutationInFlight mutationId retryCount =>
    c.stored (c.storage.updateMutationStatus mutationId .inFlight (some retryCount))
  | .sendPush request =>
    let (answer,world) := b.server.pushMutation request c.world
    settle b {c with world := world} request answer
  | .acknowledgeAccepted object mutationId =>
    .go {c with storage := ((c.storage.putObject object).removeMutation mutationId).2}
  | .recordConflict record _ => .go {c with storage := c.storage.putConflict record}
  | .resetMutationToPending mutationId => c.stored (c.storage.updateMutationStatus mutationId .pending none)
  | .markMutationFailed mutationId => c.stored (c.storage.updateMutationStatus mutationId .failed none)
  | .updateSyncState cursor lastSyncAt =>
    .go {c with storage := c.storage.setSyncState ⟨cursor,some lastSyncAt,deviceId⟩ b.identity}

-- The while loop; `none` says that so many actions were not enough.
def loop (b : Browser World Key Note) (deviceId : Option String) : Nat → SyncCycle World → Option (SyncCycle World × Except String Unit)
  | 0,_ => none
  | fuel+1,c =>
    match c.actions with
    | [] => some (c,.ok ())
    | action :: rest =>
      match perform b deviceId {c with actions := rest,done := c.done ++ [action]} action with
      | .go c => loop b deviceId fuel c
      | .thrown message c => some (c,.error message)

-- What the first turns of the loop execute, whether or not it ever ends.
def executed (b : Browser World Key Note) (deviceId : Option String) : Nat → SyncCycle World → List SyncAction
  | 0,c => c.done
  | turns+1,c =>
    match c.actions with
    | [] => c.done
    | action :: rest =>
      match perform b deviceId {c with actions := rest,done := c.done ++ [action]} action with
      | .go c => executed b deviceId turns c
      | .thrown _ c => c.done

-- The pending list is read before the machine's first action is executed.
def start (b : Browser World Key Note) (world : World) (db : WebDb) : SyncCycle World :=
  let machine := new (db.getSyncState b.identity).syncCursor (db.listPendingMutations b.collation) b.options
  ⟨machine.start.1,machine.start.2,db,world,0,[]⟩

def sync (b : Browser World Key Note) (fuel : Nat) (world : World) (db : WebDb) : Option (SyncCycle World × Except String Unit) :=
  loop b (db.getSyncState b.identity).deviceId fuel (start b world db)

end ZkNote.BrowserSync
