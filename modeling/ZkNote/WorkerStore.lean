import ZkNote.ServerRoutes

namespace ZkNote.WorkerStore
open Protocol KeyedTable ServerStore ServerRoutes

-- `encode` is `serde_json::to_string` of a push request, `decode` reads one back
-- from the text, whose keys neither server forbids. Columns of JSON text hold
-- what they serialise and the request hash column the digest it spells.
structure WorkerCrates where
  crates : Crates
  encode : PushRequest → List UInt8
  decode : List UInt8 → Option PushRequest

structure ObjectRow where
  accountId : String
  objectId : String
  revision : Nat
  serverSeq : Nat
  objectKind : UInt16
  envelope : EncryptedEnvelope
  isDeleted : Bool
  deriving DecidableEq, Repr

structure ProcessedRow where
  accountId : String
  mutationId : String
  requestHash : List UInt8
  responseBody : PushResponse
  deriving DecidableEq, Repr

inductive AttemptResponse where
  | code (code message : String)
  | accepted (response : PushResponse)
  | conflict (response : ConflictResponse)
  deriving DecidableEq, Repr

structure AttemptRow where
  id : String
  accountId : String
  mutationId : String
  objectId : String
  wireObjectId : String
  expectedRevision : Nat
  objectKind : UInt16
  envelope : EncryptedEnvelope
  isDeleted : Bool
  requestHash : List UInt8
  status : Option Nat
  response : Option AttemptResponse
  deriving DecidableEq, Repr

structure D1 where
  accounts : Table String AccountRow (·.id)
  sequences : Table String SequenceRow (·.accountId)
  objects : Table (String × String) ObjectRow (fun r => (r.accountId,r.objectId))
  history : Table (String × String × Nat) ObjectRow (fun r => (r.accountId,r.objectId,r.revision))
  processed : Table (String × String) ProcessedRow (fun r => (r.accountId,r.mutationId))
  attempts : Table String AttemptRow (·.id)

-- The trigger `apply_mutation`, statement by statement; `new` is NEW.
def replayed (db : D1) (new : AttemptRow) : Option ProcessedRow := db.processed.find (new.accountId,new.mutationId)

def head (db : D1) (new : AttemptRow) : Option ObjectRow := db.objects.find (new.accountId,new.objectId)

def attemptStatus (db : D1) (new : AttemptRow) : Nat :=
  if (replayed db new).any (fun row => decide (row.requestHash ≠ new.requestHash)) then 409
  else if (replayed db new).isSome then 200
  else if (head db new).any (fun row => decide (row.revision ≠ new.expectedRevision)) then 409
  else if (head db new).isNone ∧ new.expectedRevision ≠ 0 then 404
  else 201

def conflictOf (new : AttemptRow) (row : ObjectRow) : ConflictResponse :=
  { error := errorRevisionConflict
    objectId := new.wireObjectId
    expectedRevision := new.expectedRevision
    currentRevision := row.revision
    currentServerSeq := row.serverSeq
    currentEnvelope := row.envelope
    isDeleted := row.isDeleted }

def attemptResponse (db : D1) (new : AttemptRow) (status : Nat) : Option AttemptResponse :=
  if (replayed db new).any (fun row => decide (row.requestHash ≠ new.requestHash)) then
    some (.code errorMutationReplayMismatch "Mutation ID reused with a different request")
  else if status = 200 then (replayed db new).map (fun row => .accepted row.responseBody)
  else if status = 409 then (head db new).map (fun row => .conflict (conflictOf new row))
  else if status = 404 then some (.code errorObjectNotFound "Object not found")
  else none

-- INSERT INTO object_history SELECT .. FROM encrypted_objects
def archiveHead (db : D1) (new : AttemptRow) : Option D1 :=
  match head db new with
  | none => some db
  | some row => (db.history.insert row).map (fun history => {db with history := history})

-- INSERT INTO account_sequences .. ON CONFLICT DO UPDATE, under the foreign key
-- to the accounts and the column's CHECK.
def bumpSequence (db : D1) (accountId : String) : Option (Nat × D1) :=
  let next := ((db.sequences.find accountId).map (·.currentSeq)).getD 0 + 1
  if (db.accounts.find accountId).isSome ∧ next ≤ 9007199254740991 then
    some (next,{db with sequences := db.sequences.upsert ⟨accountId,next⟩})
  else none

-- INSERT INTO encrypted_objects .. ON CONFLICT DO UPDATE, under the unique index
-- on account and sequence.
def writeHead (db : D1) (row : ObjectRow) : Option D1 :=
  if db.objects.rows.any (fun r => r.accountId = row.accountId ∧ r.serverSeq = row.serverSeq ∧ r.objectId ≠ row.objectId) then none
  else some {db with objects := db.objects.upsert row}

def recordProcessed (db : D1) (row : ProcessedRow) : Option D1 :=
  (db.processed.insert row).map (fun processed => {db with processed := processed})

-- The four statements guarded by status 201. The row they answer with is the one
-- the last of them stored.
def acceptAttempt (db : D1) (new : AttemptRow) : Option (PushResponse × D1) := do
  let db ← archiveHead db new
  let (seq,db) ← bumpSequence db new.accountId
  let db ← writeHead db ⟨new.accountId,new.objectId,new.expectedRevision+1,seq,new.objectKind,new.envelope,new.isDeleted⟩
  let response : PushResponse := ⟨new.wireObjectId,new.expectedRevision+1,seq⟩
  let db ← recordProcessed db ⟨new.accountId,new.mutationId,new.requestHash,response⟩
  return (response,db)

def applyMutation (db : D1) (new : AttemptRow) : Option D1 :=
  let status := attemptStatus db new
  let response := attemptResponse db new status
  if status = 201 then
    (acceptAttempt db new).map (fun (response,db) =>
      {db with attempts := db.attempts.upsert {new with status := some 200,response := some (.accepted response)}})
  else some {db with attempts := db.attempts.upsert {new with status := some status,response := response}}

-- The batch of `push`: insert, with the trigger, then select and delete.
def attemptBatch (db : D1) (new : AttemptRow) : Option (AttemptRow × D1) := do
  let attempts ← db.attempts.insert new
  let db ← applyMutation {db with attempts := attempts} new
  let row ← db.attempts.find new.id
  return (row,{db with attempts := db.attempts.delete (fun r => r.id = new.id)})

structure ApiError where
  status : Nat
  code : String
  deriving DecidableEq, Repr

def errorPayloadTooLarge : String := "PAYLOAD_TOO_LARGE"

-- The stream of a body, chunk by chunk.
def body (most : Nat) : List (List UInt8) → List UInt8 → Except ApiError (List UInt8)
  | [],out => .ok out
  | chunk :: rest,out =>
    if most - out.length < chunk.length then .error ⟨413,errorPayloadTooLarge⟩
    else body most rest (out ++ chunk)

def maxBody : Nat := 128 * 1024

def parse (c : WorkerCrates) (chunks : List (List UInt8)) : Except ApiError PushRequest := do
  let bytes ← body maxBody chunks []
  match c.decode bytes with
  | none => .error ⟨400,errorInvalidEnvelope⟩
  | some request => .ok request

def refuse (c : WorkerCrates) (request : PushRequest) : Option ApiError :=
  if (c.crates.parseUuid request.objectId).toOption = none then some ⟨400,errorInvalidEnvelope⟩
  else if (c.crates.parseUuid request.mutationId).toOption = none then some ⟨400,errorInvalidEnvelope⟩
  else if request.envelope.envelopeVersion ≠ 1 then some ⟨400,errorCryptoUnsupportedVersion⟩
  else if request.envelope.objectId ≠ request.objectId ∨ 9007199254740991 ≤ request.expectedRevision then some ⟨400,errorInvalidEnvelope⟩
  else if !(c.crates.decodable request.envelope.wrappedKey.nonce && c.crates.decodable request.envelope.wrappedKey.ciphertext &&
      c.crates.decodable request.envelope.payload.nonce && c.crates.decodable request.envelope.payload.ciphertext) then
    some ⟨400,errorInvalidEnvelope⟩
  else none

def attemptOf (c : WorkerCrates) (attempt account object mutation : String) (request : PushRequest) : AttemptRow :=
  { id := attempt
    accountId := account
    mutationId := mutation
    objectId := object
    wireObjectId := request.objectId
    expectedRevision := request.expectedRevision
    objectKind := request.objectKind
    envelope := request.envelope
    isDeleted := request.isDeleted
    requestHash := c.crates.blake2s (c.encode request)
    status := none
    response := none }

inductive WorkerReply where
  | response (status : Nat) (value : AttemptResponse)
  | failed (error : ApiError)
  deriving DecidableEq, Repr

-- What `push` makes of the selected row: a response of status 200 has to be an
-- acceptance, any other is passed on under its status.
def attemptReply (row : AttemptRow) : WorkerReply :=
  match row.status,row.response with
  | some 200,some (.accepted response) => .response 200 (.accepted response)
  | some 200,some _ => .failed ⟨500,errorServerFailure⟩
  | some status,some value => .response status value
  | _,_ => .failed ⟨500,errorServerFailure⟩

-- `attempt` is the drawn id. A failing batch leaves the database as it was.
def push (c : WorkerCrates) (attempt : String) (db : D1) (account : String) (chunks : List (List UInt8)) : WorkerReply × D1 :=
  match parse c chunks with
  | .error e => (.failed e,db)
  | .ok request =>
    match refuse c request with
    | some e => (.failed e,db)
    | none =>
      match c.crates.parseUuid request.objectId,c.crates.parseUuid request.mutationId with
      | .ok object,.ok mutation =>
        match attemptBatch db (attemptOf c attempt account object mutation request) with
        | none => (.failed ⟨500,errorServerFailure⟩,db)
        | some (row,db) => (attemptReply row,db)
      | _,_ => (.failed ⟨400,errorInvalidEnvelope⟩,db)

def changeOf (row : ObjectRow) : ObjectChange :=
  ⟨row.serverSeq,row.objectId,row.revision,row.objectKind,row.isDeleted,row.envelope⟩

-- WHERE account_id=?1 AND server_seq>?2 ORDER BY server_seq
def rowsAfter (db : D1) (account : String) (after : Nat) : List ObjectRow :=
  (db.objects.rows.filter (fun r => r.accountId = account ∧ after < r.serverSeq)).insertionSort (fun a b => a.serverSeq ≤ b.serverSeq)

def clamp : Option Nat → Nat
  | none => 50
  | some limit => if limit = 0 then 50 else min limit 500

def pull (db : D1) (account : String) (after : Nat) (limit : Option Nat) : Except ApiError PullChangesResponse :=
  if 9007199254740991 < after then .error ⟨400,errorSyncCursorInvalid⟩
  else
    let limit := clamp limit
    let result := (rowsAfter db account after).take (limit+1)
    let changes := (result.take limit).map changeOf
    .ok ⟨changes,((changes.getLast?).map (·.serverSeq)).getD after,decide (limit < result.length)⟩

end ZkNote.WorkerStore
