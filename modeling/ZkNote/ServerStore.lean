import Mathlib.Algebra.Group.Int.Defs
import Mathlib.Algebra.Group.Nat.Defs
import Mathlib.Data.List.Sort
import ZkNote.KeyedTable
import ZkNote.Protocol

namespace ZkNote.ServerStore
open Protocol KeyedTable

-- What the server takes from crates outside the repository: `Uuid::parse_str`
-- followed by `to_string`, the Blake2s256 digest, and Base64 decodability.
-- Reading back the canonical spelling gives that spelling again.
structure Crates where
  parseUuid : String → Except String String
  canonical : ∀ text spelling, parseUuid text = .ok spelling → parseUuid spelling = .ok spelling
  blake2s : List UInt8 → List UInt8
  decodable : String → Bool

-- A stand-in that agrees with the crates on hyphenated lower-case ids and on
-- unpadded groups of four Base64 letters; its digest has no collisions.
def hexDigit (c : Char) : Bool := decide ('0' ≤ c ∧ c ≤ '9') || decide ('a' ≤ c ∧ c ≤ 'f')

def hyphenated (text : String) : Bool :=
  decide (text.length = 36) &&
    text.toList.zipIdx.all (fun (c,i) => if i ∈ [8,13,18,23] then c == '-' else hexDigit c)

def Crates.standIn : Crates where
  parseUuid text := if hyphenated text then .ok text else .error "invalid character"
  canonical := by
    intro text spelling read
    split at read
    · rename_i canonical
      cases read
      exact if_pos canonical
    · cases read
  blake2s bytes := bytes
  decodable text := wholeGroups text

inductive PushOutcome where
  | success (response : PushResponse)
  | conflict (response : ConflictResponse)
  | objectNotFound (message : String)
  | replayMismatch (message : String)
  deriving DecidableEq, Repr

inductive DbError where
  | sqlite (message : String)
  | invalidUuid (message : String)
  deriving DecidableEq, Repr

def DbError.text : DbError → String
  | .sqlite message => s!"database failure: {message}"
  | .invalidUuid message => s!"invalid UUID format: {message}"

-- Table rows. The JSON columns hold the containers they serialise; the
-- timestamp columns are left out because nothing here reads them.
structure EncryptedObjectRow where
  accountId : String
  objectId : String
  objectKind : UInt16
  revision : Nat
  serverSeq : Nat
  envelopeVersion : UInt32
  wrappedKey : EncryptedKeyContainer
  payload : EncryptedPayloadContainer
  isDeleted : Bool
  deriving DecidableEq, Repr

structure ObjectHistoryRow where
  accountId : String
  objectId : String
  revision : Nat
  serverSeq : Nat
  envelopeVersion : UInt32
  wrappedKey : EncryptedKeyContainer
  payload : EncryptedPayloadContainer
  isDeleted : Bool
  deriving DecidableEq, Repr

-- `request_hash` is nullable: rows older than the column carry none.
structure ProcessedMutationRow where
  accountId : String
  mutationId : String
  objectId : String
  resultingRevision : Nat
  resultingServerSeq : Nat
  responseBody : PushResponse
  requestHash : Option (List UInt8)
  deriving DecidableEq, Repr

structure AccountRow where
  id : String
  status : String
  deriving DecidableEq, Repr

structure SequenceRow where
  accountId : String
  currentSeq : Nat
  deriving DecidableEq, Repr

structure ServerDb where
  accounts : Table String AccountRow (·.id)
  objects : Table (String × String) EncryptedObjectRow (fun r => (r.accountId,r.objectId))
  history : Table (String × String × Nat) ObjectHistoryRow (fun r => (r.accountId,r.objectId,r.revision))
  sequences : Table String SequenceRow (·.accountId)
  processed : Table (String × String) ProcessedMutationRow (fun r => (r.accountId,r.mutationId))

def ServerDb.newInMemory : ServerDb :=
  ⟨.empty,.empty,.empty,.empty,.empty⟩

def asBytes (text : String) : List UInt8 := text.toList.flatMap String.utf8EncodeChar

def toLeBytes : Nat → Nat → List UInt8
  | 0,_ => []
  | width+1,n => UInt8.ofNat n :: toLeBytes width (n / 256)

def mutationRequestBytes (request : PushRequest) : List UInt8 :=
  asBytes request.objectId ++
  toLeBytes 8 request.expectedRevision ++
  toLeBytes 2 request.objectKind.toNat ++
  [if request.isDeleted then 1 else 0] ++
  toLeBytes 4 request.envelope.envelopeVersion.toNat ++
  asBytes request.envelope.objectId ++
  toLeBytes 2 request.envelope.objectKind.toNat ++
  asBytes request.envelope.wrappedKey.nonce ++
  asBytes request.envelope.wrappedKey.ciphertext ++
  asBytes request.envelope.payload.nonce ++
  asBytes request.envelope.payload.ciphertext

def computeMutationRequestHash (crates : Crates) (request : PushRequest) : List UInt8 :=
  crates.blake2s (mutationRequestBytes request)

-- INSERT .. ON CONFLICT DO NOTHING
def ensureAccount (db : ServerDb) (accountId : String) : ServerDb :=
  match db.accounts.find accountId with
  | some _ => db
  | none => {db with accounts := db.accounts.upsert ⟨accountId,"active"⟩}

def currentSequence (db : ServerDb) (accountId : String) : Nat :=
  ((db.sequences.find accountId).map (·.currentSeq)).getD 0

def allocateSequenceInTx (db : ServerDb) (accountId : String) : Nat × ServerDb :=
  let db := ensureAccount db accountId
  match db.sequences.find accountId with
  | none => (1,{db with sequences := db.sequences.upsert ⟨accountId,1⟩})
  | some row =>
    (row.currentSeq+1,{db with sequences := db.sequences.upsert {row with currentSeq := row.currentSeq+1}})

-- The unique index on (account_id, server_seq) refuses a sequence that another
-- object of the account already carries.
def writeObject (db : ServerDb) (row : EncryptedObjectRow) : Option ServerDb :=
  if db.objects.rows.any (fun r => r.accountId = row.accountId ∧ r.serverSeq = row.serverSeq ∧ r.objectId ≠ row.objectId)
  then none
  else some {db with objects := db.objects.upsert row}

-- Steps 6 and 8-10, the same text in the update and the create branch.
def acceptInTx (crates : Crates) (db : ServerDb) (accountId objStr mutStr : String)
    (request : PushRequest) (newRevision : Nat) : Except DbError (PushOutcome × ServerDb) :=
  let (nextSeq,db) := allocateSequenceInTx db accountId
  let row : EncryptedObjectRow :=
    ⟨accountId,objStr,request.objectKind,newRevision,nextSeq,request.envelope.envelopeVersion,
      request.envelope.wrappedKey,request.envelope.payload,request.isDeleted⟩
  match writeObject db row with
  | none => .error (.sqlite "UNIQUE constraint failed: encrypted_objects.account_id, encrypted_objects.server_seq")
  | some db =>
    let pushResp : PushResponse := ⟨request.objectId,newRevision,nextSeq⟩
    let done : ProcessedMutationRow :=
      ⟨accountId,mutStr,objStr,newRevision,nextSeq,pushResp,some (computeMutationRequestHash crates request)⟩
    match db.processed.insert done with
    | none => .error (.sqlite "UNIQUE constraint failed: processed_mutations.account_id, processed_mutations.mutation_id")
    | some processed => .ok (.success pushResp,{db with processed := processed})

def historyOf (row : EncryptedObjectRow) : ObjectHistoryRow :=
  ⟨row.accountId,row.objectId,row.revision,row.serverSeq,row.envelopeVersion,row.wrappedKey,row.payload,row.isDeleted⟩

def conflictWith (current : EncryptedObjectRow) (request : PushRequest) : ConflictResponse :=
  { error := errorRevisionConflict
    objectId := request.objectId
    expectedRevision := request.expectedRevision
    currentRevision := current.revision
    currentServerSeq := current.serverSeq
    currentEnvelope :=
      { envelopeVersion := current.envelopeVersion
        objectId := request.objectId
        objectKind := current.objectKind
        wrappedKey := current.wrappedKey
        payload := current.payload }
    isDeleted := current.isDeleted }

-- Steps 1 and 2: the answer to a mutation id that is already on record.
def replayOutcome (row : ProcessedMutationRow) (objStr : String) (reqHash : List UInt8)
    (request : PushRequest) : PushOutcome :=
  if row.objectId ≠ objStr then
    .replayMismatch s!"mutation_id '{request.mutationId}' was previously processed for object '{row.objectId}', not '{objStr}'"
  else match row.requestHash with
    | none => .success row.responseBody
    | some hash =>
      if hash ≠ reqHash then
        .replayMismatch s!"mutation_id '{request.mutationId}' was previously processed with an incompatible payload"
      else .success row.responseBody

def pushMutationInTx (crates : Crates) (db : ServerDb) (accountId : String) (request : PushRequest) :
    Except DbError (PushOutcome × ServerDb) :=
  match crates.parseUuid request.objectId with
  | .error e => .error (.invalidUuid s!"invalid object_id: {e}")
  | .ok objStr =>
  match crates.parseUuid request.mutationId with
  | .error e => .error (.invalidUuid s!"invalid mutation_id: {e}")
  | .ok mutStr =>
  match db.processed.find (accountId,mutStr) with
  | some row => .ok (replayOutcome row objStr (computeMutationRequestHash crates request) request,db)
  | none =>
  match db.objects.find (accountId,objStr) with
  | some current =>
    if request.expectedRevision ≠ current.revision then .ok (.conflict (conflictWith current request),db)
    else match db.history.insert (historyOf current) with
      | none => .error (.sqlite "UNIQUE constraint failed: object_history.account_id, object_history.object_id, object_history.revision")
      | some history =>
        acceptInTx crates {db with history := history} accountId objStr mutStr request (current.revision+1)
  | none =>
    if request.expectedRevision ≠ 0 then
      .ok (.objectNotFound s!"object '{request.objectId}' not found, expected revision {request.expectedRevision}",db)
    else acceptInTx crates db accountId objStr mutStr request 1

-- The transaction commits on success only; every other end rolls back to the
-- state after `ensure_account`, which runs in a statement of its own.
def pushMutation (crates : Crates) (db : ServerDb) (accountId : String) (request : PushRequest) :
    Except DbError PushOutcome × ServerDb :=
  let db := ensureAccount db accountId
  match pushMutationInTx crates db accountId request with
  | .error e => (.error e,db)
  | .ok (.success response,committed) => (.ok (.success response),committed)
  | .ok (outcome,_) => (.ok outcome,db)

def getEncryptedObject (db : ServerDb) (accountId objectId : String) : Option EncryptedObjectRow :=
  db.objects.find (accountId,objectId)

def getObjectHistory (db : ServerDb) (accountId objectId : String) : List ObjectHistoryRow :=
  (db.history.rows.filter (fun r => r.accountId = accountId ∧ r.objectId = objectId)).insertionSort
    (fun a b => a.revision ≤ b.revision)

-- `after as i64`: two's complement, so a cursor from 2^63 on turns negative.
def asI64 (n : Nat) : Int :=
  if n % 2^64 < 2^63 then (n % 2^64 : Nat) else (n % 2^64 : Nat) - 2^64

def changeOf (row : EncryptedObjectRow) : ObjectChange :=
  { serverSeq := row.serverSeq
    objectId := row.objectId
    revision := row.revision
    objectKind := row.objectKind
    isDeleted := row.isDeleted
    envelope :=
      { envelopeVersion := row.envelopeVersion
        objectId := row.objectId
        objectKind := row.objectKind
        wrappedKey := row.wrappedKey
        payload := row.payload } }

-- WHERE account_id = ?1 AND server_seq > ?2 ORDER BY server_seq ASC
def rowsAfter (db : ServerDb) (accountId : String) (after : Int) : List EncryptedObjectRow :=
  (db.objects.rows.filter (fun r => r.accountId = accountId ∧ after < r.serverSeq)).insertionSort
    (fun a b => a.serverSeq ≤ b.serverSeq)

-- LIMIT limit+1: the extra row is only looked at to set `has_more`.
def pullChanges (db : ServerDb) (accountId : String) (after limit : Nat) : PullChangesResponse × ServerDb :=
  let db := ensureAccount db accountId
  let fetched := (rowsAfter db accountId (asI64 after)).take (limit+1)
  let items := (fetched.take limit).map changeOf
  (⟨items,((items.getLast?).map (·.serverSeq)).getD after,decide (limit < fetched.length)⟩,db)

-- What the steps of a push did where they succeeded.
section Inversion

variable {crates : Crates} {db next : ServerDb} {row : EncryptedObjectRow} {a o m : String} {request : PushRequest} {revision : Nat}
  {outcome : PushOutcome}

theorem write_cases (written : writeObject db row = some next) : next = {db with objects := db.objects.upsert row} := by
  unfold writeObject at written
  split at written
  · cases written
  · exact (Option.some.inj written).symm

theorem accept_cases (accepted : acceptInTx crates db a o m request revision = .ok (outcome,next)) :
    ∃ row full done processed, row.accountId = a ∧ row.objectId = o ∧ writeObject (allocateSequenceInTx db a).2 row = some full ∧
      done.accountId = a ∧ full.processed.insert done = some processed ∧ next = {full with processed := processed} := by
  unfold acceptInTx at accepted
  simp only at accepted
  split at accepted
  · cases accepted
  · rename_i full written
    split at accepted
    · cases accepted
    · rename_i processed filed
      cases accepted
      exact ⟨_,full,_,processed,rfl,rfl,written,rfl,filed,rfl⟩

theorem tx_cases (ran : pushMutationInTx crates db a request = .ok (outcome,next)) :
    next = db ∨ ∃ o m revision history, crates.parseUuid request.objectId = .ok o ∧
      (history = db.history ∨ ∃ current : EncryptedObjectRow, current.accountId = a ∧ db.history.insert (historyOf current) = some history) ∧
      acceptInTx crates {db with history := history} a o m request revision = .ok (outcome,next) := by
  unfold pushMutationInTx at ran
  split at ran
  · cases ran
  rename_i o read
  split at ran
  · cases ran
  split at ran
  · cases ran
    exact .inl rfl
  split at ran
  · rename_i current found
    split at ran
    · cases ran
      exact .inl rfl
    split at ran
    · cases ran
    · rename_i history filed
      exact .inr ⟨o,_,_,history,read,.inr ⟨current,congrArg Prod.fst (find_key found),filed⟩,ran⟩
  · split at ran
    · cases ran
      exact .inl rfl
    · exact .inr ⟨o,_,_,db.history,read,.inl rfl,ran⟩

end Inversion

end ZkNote.ServerStore
