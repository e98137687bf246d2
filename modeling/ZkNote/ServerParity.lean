import ZkNote.EnvelopeRoundTrip
import ZkNote.RequestHash

namespace ZkNote.ServerParity
open Protocol Adapter KeyedTable ServerStore ServerRoutes ServerHistory ServerPages WorkerStore RequestHash

-- One request to either deployment, by an account that is logged in. `attempt`
-- is the id the worker draws for its attempt row.
inductive SyncCall where
  | push (attempt accountId : String) (chunks : List (List UInt8))
  | pull (accountId : String) (after : Nat) (limit : Option Nat)

inductive Verdict where
  | accepted (response : PushResponse)
  | replayed (response : PushResponse)
  | conflict (response : ConflictResponse)
  | replayMismatch
  | notFound
  | refused (status : Nat) (code : Option String)
  deriving DecidableEq, Repr

def ofCode (status : Nat) (code : Option String) : Verdict :=
  if code = some errorMutationReplayMismatch then .replayMismatch
  else if code = some errorObjectNotFound then .notFound
  else .refused status code

-- `known` tells an acceptance from the replay of one: both are answered 200.
def nativeVerdict (known : Bool) : Reply PushResponse → Verdict
  | .dropped _ => .refused 0 none
  | .response status body =>
    match body.value,body.conflict with
    | .ok response,_ => if known then .replayed response else .accepted response
    | _,some conflict => .conflict conflict
    | _,none => ofCode status (body.errorJson.bind (·.code))

def workerVerdict (known : Bool) : WorkerReply → Verdict
  | .response _ (.accepted response) => if known then .replayed response else .accepted response
  | .response _ (.conflict conflict) => .conflict conflict
  | .response status (.code code _) => ofCode status (some code)
  | .failed e => .refused e.status (some e.code)

inductive Seen where
  | pushed (verdict : Verdict)
  | pulled (result : Except (Nat × String) PullChangesResponse)
  deriving DecidableEq

def nativePush (c : WorkerCrates) (db : ServerDb) (account : String) (chunks : List (List UInt8)) : Seen × ServerDb :=
  match c.decode chunks.flatten with
  | none => (.pushed (.refused 400 (some errorInvalidEnvelope)),db)
  | some request =>
    let known := ((c.crates.parseUuid request.mutationId).toOption.bind (fun m => db.processed.find (account,m))).isSome
    let (reply,db) := pushMutationHandler c.crates db account request
    (.pushed (nativeVerdict known reply),db)

def nativeServe (c : WorkerCrates) (db : ServerDb) : SyncCall → Seen × ServerDb
  | .push _ account chunks => nativePush c db account chunks
  | .pull account after limit =>
    let (page,db) := pullChanges db account after (clampLimit limit)
    (.pulled (.ok page),db)

def workerServe (c : WorkerCrates) (db : D1) : SyncCall → Seen × D1
  | .push attempt account chunks =>
    let known := ((c.decode chunks.flatten).bind (fun request =>
      (c.crates.parseUuid request.mutationId).toOption.bind (fun m => db.processed.find (account,m)))).isSome
    let (reply,db) := push c attempt db account chunks
    (.pushed (workerVerdict known reply),db)
  | .pull account after limit => (.pulled ((pull db account after limit).mapError (fun e => (e.status,e.code))),db)

-- A run of calls against one server, with everything its callers see.
def runCalls {Db : Type} (serve : Db → SyncCall → Seen × Db) : Db → List SyncCall → List Seen
  | _,[] => []
  | db,call :: rest => (serve db call).1 :: runCalls serve (serve db call).2 rest

def D1.empty (accounts : Table String AccountRow (·.id)) : D1 := ⟨accounts,.empty,.empty,.empty,.empty,.empty⟩

variable {c : WorkerCrates} {spelling : Spelling c.crates} {requests : List PushRequest} {accounts : Table String AccountRow (·.id)}

-- A body that the worker reads to its end.
theorem body_read (most : Nat) (chunks : List (List UInt8)) (out : List UInt8) (fits : out.length + chunks.flatten.length ≤ most) :
    body most chunks out = .ok (out ++ chunks.flatten) := by
  induction chunks generalizing out with
  | nil => simp [body]
  | cons chunk rest ih =>
      simp only [List.flatten_cons,List.length_append] at fits
      have room : ¬most - out.length < chunk.length := by omega
      rw [body,if_neg room,ih (out ++ chunk) (by simp only [List.length_append]; omega)]
      simp

theorem body_refused (most : Nat) (chunks : List (List UInt8)) (out : List UInt8) (start : out.length ≤ most)
    (large : most < out.length + chunks.flatten.length) : body most chunks out = .error ⟨413,errorPayloadTooLarge⟩ := by
  induction chunks generalizing out with
  | nil =>
      simp at large
      omega
  | cons chunk rest ih =>
      rw [body]
      split
      · rfl
      · rename_i room
        simp only [List.flatten_cons,List.length_append] at large
        exact ih (out ++ chunk) (by simp only [List.length_append]; omega) (by simp only [List.length_append]; omega)

theorem parse_read (decoded : c.decode chunks.flatten = some request) (small : chunks.flatten.length ≤ maxBody) :
    parse c chunks = .ok request := by
  have read := body_read maxBody chunks [] (by simpa using small)
  simp only [parse,read,List.nil_append,bind,Except.bind,decoded]

-- The two databases side by side, over the log of what both accepted.
def mirrored (row : EncryptedObjectRow) : ObjectRow :=
  ⟨row.accountId,row.objectId,row.revision,row.serverSeq,row.objectKind,(ServerStore.changeOf row).envelope,row.isDeleted⟩

def workerProcessed (c : WorkerCrates) (e : Acceptance) : ProcessedRow :=
  ⟨e.accountId,e.mutationId,c.crates.blake2s (c.encode e.request),responseOf e⟩

structure Together (spelling : Spelling c.crates) (requests : List PushRequest) (accounts : Table String AccountRow (·.id))
    (log : List Acceptance) (native : ServerDb) (worker : D1) : Prop where
  rep : Represents c.crates log native
  asked : ∀ e ∈ log, e.request ∈ requests ∧ Fit spelling e.request
  accounts : worker.accounts = accounts
  sequences : worker.sequences = native.sequences
  objects : worker.objects.rows = native.objects.rows.map mirrored
  history : ∀ k, native.history.find k = none → worker.history.find k = none
  processed : ∀ a m, worker.processed.find (a,m) = (ofMutation log a m).map (workerProcessed c)
  attempts : worker.attempts = .empty

variable {log : List Acceptance} {native : ServerDb} {worker : D1} {request : PushRequest}

theorem empty_together : Together spelling requests accounts [] .newInMemory (D1.empty accounts) := by
  refine ⟨initial_represents,by simp,rfl,rfl,rfl,?_,?_,rfl⟩
  · intro k _
    rfl
  · intro a m
    rfl

theorem mirrored_key (row : EncryptedObjectRow) : ((mirrored row).accountId,(mirrored row).objectId) = (row.accountId,row.objectId) := rfl

theorem together_head (together : Together spelling requests accounts log native worker) (a o : String) :
    worker.objects.find (a,o) = (native.objects.find (a,o)).map mirrored :=
  find_mapped mirrored mirrored_key together.objects (a,o)

theorem together_ensured (together : Together spelling requests accounts log native worker) (a : String) :
    Together spelling requests accounts log (ensureAccount native a) worker := by
  obtain ⟨rep,asked,known,sequences,objects,history,processed,attempts⟩ := together
  refine ⟨represents_ensured rep a,asked,known,?_,?_,?_,processed,attempts⟩
  · simpa using sequences
  · simpa using objects
  · simpa using history

-- The four statements neither read the attempts nor write them.
theorem archive_attempts (db : D1) (new : AttemptRow) (t : Table String AttemptRow (·.id)) :
    archiveHead {db with attempts := t} new = (archiveHead db new).map (fun next => {next with attempts := t}) := by
  have same : head {db with attempts := t} new = head db new := rfl
  unfold archiveHead
  rw [same]
  cases head db new with
  | none => rfl
  | some row => cases inserted : db.history.insert row <;> simp [inserted]

theorem bump_attempts (db : D1) (a : String) (t : Table String AttemptRow (·.id)) :
    bumpSequence {db with attempts := t} a = (bumpSequence db a).map (fun (seq,next) => (seq,{next with attempts := t})) := by
  unfold bumpSequence
  dsimp only
  split <;> rfl

theorem write_attempts (db : D1) (row : ObjectRow) (t : Table String AttemptRow (·.id)) :
    writeHead {db with attempts := t} row = (writeHead db row).map (fun next => {next with attempts := t}) := by
  unfold writeHead
  dsimp only
  split <;> rfl

theorem record_attempts (db : D1) (row : ProcessedRow) (t : Table String AttemptRow (·.id)) :
    recordProcessed {db with attempts := t} row = (recordProcessed db row).map (fun next => {next with attempts := t}) := by
  unfold recordProcessed
  cases db.processed.insert row <;> rfl

theorem accept_attempts (db : D1) (new : AttemptRow) (t : Table String AttemptRow (·.id)) :
    acceptAttempt {db with attempts := t} new =
      (acceptAttempt db new).map (fun (response,next) => (response,{next with attempts := t})) := by
  simp only [acceptAttempt,archive_attempts,bind,Option.bind]
  cases archiveHead db new with
  | none => rfl
  | some db =>
      simp only [Option.map_some,bump_attempts]
      cases bumpSequence db new.accountId with
      | none => rfl
      | some bumped =>
          obtain ⟨seq,db⟩ := bumped
          simp only [Option.map_some,write_attempts]
          cases writeHead db ⟨new.accountId,new.objectId,new.expectedRevision+1,seq,new.objectKind,new.envelope,new.isDeleted⟩ with
          | none => rfl
          | some db =>
              simp only [Option.map_some,record_attempts]
              cases recordProcessed db ⟨new.accountId,new.mutationId,new.requestHash,⟨new.wireObjectId,new.expectedRevision+1,seq⟩⟩ <;> rfl

-- The batch, on a database that holds no attempt.
theorem insert_first (new : AttemptRow) : (Table.empty : Table String AttemptRow (·.id)).insert new = some (Table.empty.upsert new) := rfl

theorem upsert_only (new row : AttemptRow) (same : row.id = new.id) :
    ((Table.empty : Table String AttemptRow (·.id)).upsert new).upsert row = Table.empty.upsert row := by
  apply table_ext
  simp [Table.upsert,place,Table.empty,same]

theorem find_only (row : AttemptRow) : ((Table.empty : Table String AttemptRow (·.id)).upsert row).find row.id = some row := by
  simp

theorem delete_only (row : AttemptRow) :
    ((Table.empty : Table String AttemptRow (·.id)).upsert row).delete (fun r => decide (r.id = row.id)) = .empty := by
  apply table_ext
  simp [Table.upsert,place,Table.empty,Table.delete]

theorem batch_answered {db : D1} {new : AttemptRow} (empty : db.attempts = .empty) (status : attemptStatus db new ≠ 201) :
    attemptBatch db new = some ({new with status := some (attemptStatus db new),response := attemptResponse db new (attemptStatus db new)},db) := by
  have sameStatus : attemptStatus {db with attempts := Table.empty.upsert new} new = attemptStatus db new := rfl
  have sameResponse : attemptResponse {db with attempts := Table.empty.upsert new} new = attemptResponse db new := rfl
  have applied : applyMutation {db with attempts := Table.empty.upsert new} new =
      some {db with attempts := Table.empty.upsert {new with status := some (attemptStatus db new),response := attemptResponse db new (attemptStatus db new)}} := by
    simp only [applyMutation,sameStatus,sameResponse,if_neg status]
    rw [upsert_only]
    rfl
  simp only [attemptBatch,empty,insert_first,bind,Option.bind,applied]
  have found := find_only {new with status := some (attemptStatus db new),response := attemptResponse db new (attemptStatus db new)}
  have gone := delete_only {new with status := some (attemptStatus db new),response := attemptResponse db new (attemptStatus db new)}
  dsimp only at found gone
  rw [found]
  simp only [gone]
  rw [← empty]
  rfl

theorem batch_accepted {db next : D1} {new : AttemptRow} (empty : db.attempts = .empty) (status : attemptStatus db new = 201)
    (accepted : acceptAttempt db new = some (response,next)) :
    attemptBatch db new = some ({new with status := some 200,response := some (.accepted response)},{next with attempts := .empty}) := by
  have sameStatus : attemptStatus {db with attempts := Table.empty.upsert new} new = attemptStatus db new := rfl
  have applied : applyMutation {db with attempts := Table.empty.upsert new} new =
      some {next with attempts := Table.empty.upsert {new with status := some 200,response := some (.accepted response)}} := by
    simp only [applyMutation,sameStatus,if_pos status,accept_attempts,accepted,Option.map_some]
    rw [upsert_only]
    rfl
  simp only [attemptBatch,empty,insert_first,bind,Option.bind,applied]
  have found := find_only {new with status := some 200,response := some (.accepted response)}
  have gone := delete_only {new with status := some 200,response := some (.accepted response)}
  dsimp only at found gone
  rw [found]
  simp only [gone]
  rfl

-- The four statements of an acceptance, when each finds what it needs.
def acceptedTables (db : D1) (new : AttemptRow) (seq : Nat) : D1 :=
  {db with
    history := match head db new with
      | none => db.history
      | some row => db.history.upsert row
    sequences := db.sequences.upsert ⟨new.accountId,seq⟩
    objects := db.objects.upsert ⟨new.accountId,new.objectId,new.expectedRevision+1,seq,new.objectKind,new.envelope,new.isDeleted⟩
    processed := db.processed.upsert ⟨new.accountId,new.mutationId,new.requestHash,⟨new.wireObjectId,new.expectedRevision+1,seq⟩⟩}

theorem accept_spec {db : D1} {new : AttemptRow} (free : ∀ row, head db new = some row → db.history.find (row.accountId,row.objectId,row.revision) = none)
    (known : (db.accounts.find new.accountId).isSome) (sequence : ((db.sequences.find new.accountId).map (·.currentSeq)).getD 0 = seq)
    (room : seq+1 ≤ 9007199254740991)
    (bounded : ∀ r ∈ db.objects.rows, r.accountId = new.accountId → r.serverSeq ≤ seq)
    (fresh : db.processed.find (new.accountId,new.mutationId) = none) :
    acceptAttempt db new = some (⟨new.wireObjectId,new.expectedRevision+1,seq+1⟩,acceptedTables db new (seq+1)) := by
  have archived : archiveHead db new = some {db with
      history := match head db new with
        | none => db.history
        | some row => db.history.upsert row} := by
    unfold archiveHead
    cases found : head db new with
    | none => rfl
    | some row => simp [insert_fresh (free row found)]
  have unclashed : ¬db.objects.rows.any (fun r => r.accountId = new.accountId ∧ r.serverSeq = seq+1 ∧ r.objectId ≠ new.objectId) = true := by
    intro clash
    obtain ⟨r,inside,holds⟩ := List.any_eq_true.mp clash
    simp only [decide_eq_true_eq] at holds
    have bound := bounded r inside holds.1
    omega
  have recorded : db.processed.insert ⟨new.accountId,new.mutationId,new.requestHash,⟨new.wireObjectId,new.expectedRevision+1,seq+1⟩⟩ =
      some (db.processed.upsert ⟨new.accountId,new.mutationId,new.requestHash,⟨new.wireObjectId,new.expectedRevision+1,seq+1⟩⟩) :=
    insert_fresh fresh
  simp only [acceptAttempt,archived,bind,Option.bind,bumpSequence,sequence,known,room,and_self,if_true,writeHead,if_neg unclashed,
    recordProcessed,recorded,Option.map_some,pure,acceptedTables]

theorem refused_alike (fit : Fit spelling request) :
    (refuse c request = none ∧ rejectPush c.crates request = none) ∨
    ∃ status code message, refuse c request = some ⟨status,code⟩ ∧ rejectPush c.crates request = some (errorReply status code message) ∧
      code ≠ errorMutationReplayMismatch ∧ code ≠ errorObjectNotFound := by
  have exact := fit.exact
  have large : ¬9007199254740991 ≤ request.expectedRevision := by omega
  simp only [refuse,rejectPush,fit.object,fit.mutation,fit.envelopeObject,size_decodable fit.keyNonce,size_decodable fit.wrappedKey,
    size_decodable fit.payloadNonce,Except.toOption,large,envelopeVersionV1]
  by_cases version : request.envelope.envelopeVersion = 1
  · by_cases payload : c.crates.decodable request.envelope.payload.ciphertext = true
    · simp [version,payload]
    · right
      refine ⟨400,errorInvalidEnvelope,"Envelope nonce and ciphertext fields must be valid standard Base64",?_,?_,by decide,by decide⟩
      · simp [version,payload]
      · simp [version,payload]
  · right
    refine ⟨400,errorCryptoUnsupportedVersion,
      s!"Unsupported envelope_version '{request.envelope.envelopeVersion}', expected {envelopeVersionV1}",?_,?_,by decide,by decide⟩
    · simp [version]
    · simp [version,envelopeVersionV1]

-- The attempt of a request in canonical spelling.
def attemptFor (c : WorkerCrates) (attempt account : String) (request : PushRequest) : AttemptRow :=
  attemptOf c attempt account request.objectId request.mutationId request

@[simp] theorem attempt_hash (c : WorkerCrates) (attempt account : String) (request : PushRequest) :
    (attemptFor c attempt account request).requestHash = c.crates.blake2s (c.encode request) := rfl

@[simp] theorem attempt_expected (c : WorkerCrates) (attempt account : String) (request : PushRequest) :
    (attemptFor c attempt account request).expectedRevision = request.expectedRevision := rfl

@[simp] theorem attempt_wire (c : WorkerCrates) (attempt account : String) (request : PushRequest) :
    (attemptFor c attempt account request).wireObjectId = request.objectId := rfl

-- A mutation id on record: both servers answer what they recorded, or both call
-- the request a different one.
theorem replay_alike (attempt : String) (apart : Apart c requests) (together : Together spelling requests accounts log native worker)
    (fit : Fit spelling request) (inside : request ∈ requests) (old : ofMutation log a request.mutationId = some e) :
    let row : AttemptRow := {attemptFor c attempt a request with
      status := some (attemptStatus worker (attemptFor c attempt a request))
      response := attemptResponse worker (attemptFor c attempt a request) (attemptStatus worker (attemptFor c attempt a request))}
    attemptStatus worker (attemptFor c attempt a request) ≠ 201 ∧
    workerVerdict true (attemptReply row) =
      nativeVerdict true (pushReply (.ok (replayOutcome (processedOf c.crates e) request.objectId (computeMutationRequestHash c.crates request) request))) := by
  obtain ⟨inLog,account,mutation⟩ := ofMutation_mem old
  obtain ⟨inE,fitE⟩ := together.asked e inLog
  have parsedE := together.rep.parsed e inLog
  have objectE : e.objectId = e.request.objectId := by
    have read := parsedE.object.symm.trans fitE.object
    simpa using read
  have mutationE : e.mutationId = e.request.mutationId := by
    have read := parsedE.mutation.symm.trans fitE.mutation
    simpa using read
  have held : replayed worker (attemptFor c attempt a request) = some (workerProcessed c e) := by
    have found := together.processed a request.mutationId
    rw [old] at found
    exact found
  by_cases same : e.request = request
  · subst same
    have status : attemptStatus worker (attemptFor c attempt a e.request) = 200 := by
      simp [attemptStatus,held,workerProcessed,attempt_hash]
    have response : attemptResponse worker (attemptFor c attempt a e.request) 200 = some (.accepted (responseOf e)) := by
      simp [attemptResponse,held,workerProcessed,attempt_hash]
    have outcome := replay_same c.crates e
    rw [objectE] at outcome
    refine ⟨by simp [status],?_⟩
    simp [status,response,outcome,attemptReply,workerVerdict,pushReply,nativeVerdict]
  · have different : c.crates.blake2s (c.encode e.request) ≠ c.crates.blake2s (c.encode request) :=
      fun equal => same (apart.lossless _ inE _ inside (apart.worker _ inE _ inside equal))
    have digests : computeMutationRequestHash c.crates e.request ≠ computeMutationRequestHash c.crates request :=
      fun equal => different ((hashes_agree apart inE inside fitE fit (mutationE.symm.trans mutation)).mp equal)
    have status : attemptStatus worker (attemptFor c attempt a request) = 409 := by
      simp [attemptStatus,held,workerProcessed,different]
    have response : attemptResponse worker (attemptFor c attempt a request) 409 =
        some (.code errorMutationReplayMismatch "Mutation ID reused with a different request") := by
      simp [attemptResponse,held,workerProcessed,different]
    have outcome : ∃ message, replayOutcome (processedOf c.crates e) request.objectId (computeMutationRequestHash c.crates request) request =
        .replayMismatch message := by
      unfold replayOutcome
      by_cases object : (processedOf c.crates e).objectId ≠ request.objectId
      · exact ⟨_,if_pos object⟩
      · rw [if_neg object]
        exact ⟨_,if_pos digests⟩
    obtain ⟨message,outcome⟩ := outcome
    refine ⟨by simp [status],?_⟩
    simp [status,response,outcome,attemptReply,workerVerdict,pushReply,nativeVerdict,errorReply,ofCode]

-- A new mutation id.
theorem fresh_replayed (attempt : String) (together : Together spelling requests accounts log native worker) (fresh : ofMutation log a request.mutationId = none) :
    replayed worker (attemptFor c attempt a request) = none := by
  have found := together.processed a request.mutationId
  rw [fresh] at found
  exact found

theorem attempt_head (attempt a : String) (together : Together spelling requests accounts log native worker) (request : PushRequest) :
    head worker (attemptFor c attempt a request) = ((ofObject log a request.objectId).getLast?.map headOf).map mirrored := by
  rw [← together.rep.head]
  exact together_head together a request.objectId

theorem conflict_alike (attempt : String) (together : Together spelling requests accounts log native worker)
    (fresh : ofMutation log a request.mutationId = none) (last : (ofObject log a request.objectId).getLast? = some e)
    (stale : request.expectedRevision ≠ e.revision) :
    attemptStatus worker (attemptFor c attempt a request) = 409 ∧
    attemptResponse worker (attemptFor c attempt a request) 409 = some (.conflict (conflictWith (headOf e) request)) := by
  have none := fresh_replayed (c := c) attempt together fresh
  have row := attempt_head (c := c) attempt a together request
  rw [last] at row
  have moved : e.revision ≠ request.expectedRevision := fun same => stale same.symm
  have owner := last_mem last
  constructor
  · simp [attemptStatus,none,row,mirrored,headOf,moved]
  · simp [attemptResponse,none,row,conflictOf,conflictWith,mirrored,headOf,ServerStore.changeOf,owner.2.2]

theorem missing_alike (attempt : String) (together : Together spelling requests accounts log native worker)
    (fresh : ofMutation log a request.mutationId = none) (absent : headRevision log a request.objectId = 0) (stale : request.expectedRevision ≠ 0) :
    attemptStatus worker (attemptFor c attempt a request) = 404 ∧
    attemptResponse worker (attemptFor c attempt a request) 404 = some (.code errorObjectNotFound "Object not found") := by
  have none := fresh_replayed (c := c) attempt together fresh
  have row := attempt_head (c := c) attempt a together request
  rw [last_none absent] at row
  constructor
  · simp [attemptStatus,none,row,stale]
  · simp [attemptResponse,none]

theorem fit_envelope (fit : Fit spelling request) : request.envelope =
    ⟨request.envelope.envelopeVersion,request.objectId,request.objectKind,request.envelope.wrappedKey,request.envelope.payload⟩ := by
  have object := fit.envelopeObject
  have kind := fit.envelopeKind
  cases written : request.envelope with
  | mk version object' kind' wrappedKey payload =>
      rw [written] at object kind
      cases object
      cases kind
      rfl

-- The next acceptance, on the worker's tables.
theorem accept_alike (attempt : String) (together : Together spelling requests accounts log native worker) (fit : Fit spelling request)
    (inside : request ∈ requests) (registered : (accounts.find a).isSome) (room : log.length+1 ≤ 9007199254740991)
    (fresh : ofMutation log a request.mutationId = none) (current : request.expectedRevision = headRevision log a request.objectId) :
    attemptStatus worker (attemptFor c attempt a request) = 201 ∧
    acceptAttempt worker (attemptFor c attempt a request) =
        some (responseOf (nextAcceptance log a request.objectId request.mutationId request),
          acceptedTables worker (attemptFor c attempt a request) ((ofAccount log a).length+1)) ∧
    Together spelling requests accounts (log ++ [nextAcceptance log a request.objectId request.mutationId request])
      (settle c.crates (archive (ensureAccount native a) a request.objectId) (nextAcceptance log a request.objectId request.mutationId request))
      (acceptedTables worker (attemptFor c attempt a request) ((ofAccount log a).length+1)) := by
  have none := fresh_replayed (c := c) attempt together fresh
  have row := attempt_head (c := c) attempt a together request
  have count : ((worker.sequences.find a).map (·.currentSeq)).getD 0 = (ofAccount log a).length := by
    rw [together.sequences]
    exact together.rep.sequence a
  have few : (ofAccount log a).length ≤ log.length := List.length_filter_le _ _
  have status : attemptStatus worker (attemptFor c attempt a request) = 201 := by
    by_cases empty : headRevision log a request.objectId = 0
    · rw [last_none empty] at row
      simp [attemptStatus,none,row,current,empty]
    · obtain ⟨e,last⟩ := last_some empty
      have revision : e.revision = request.expectedRevision := (last_revision together.rep last).trans current.symm
      rw [last] at row
      simp [attemptStatus,none,row,mirrored,headOf,revision]
  have free : ∀ row, head worker (attemptFor c attempt a request) = some row →
      worker.history.find (row.accountId,row.objectId,row.revision) = Option.none := by
    intro found is
    rw [row] at is
    cases last : (ofObject log a request.objectId).getLast? with
    | none =>
        rw [last] at is
        cases is
    | some e =>
        rw [last] at is
        cases is
        exact together.history _ (history_free together.rep last)
  have bounded : ∀ r ∈ worker.objects.rows, r.accountId = a → r.serverSeq ≤ (ofAccount log a).length := by
    intro r member mine
    rw [together.objects] at member
    obtain ⟨q,held,rfl⟩ := List.mem_map.mp member
    have bound := represented_heads_bounded together.rep q held mine
    rw [together.rep.sequence] at bound
    exact bound
  have unprocessed : worker.processed.find (a,request.mutationId) = Option.none := none
  have accepted := accept_spec free (by rw [together.accounts]; exact registered) count (by omega) bounded unprocessed
  have parsed : Parsed c.crates request request.objectId request.mutationId := ⟨fit.object,fit.mutation⟩
  refine ⟨status,?_,settle_represents together.rep fresh parsed current,?_,together.accounts,?_,?_,?_,?_,together.attempts⟩
  · rw [accepted]
    simp only [attempt_wire,attempt_expected,current]
    rfl
  · intro e member
    rcases List.mem_append.mp member with before | last
    · exact together.asked e before
    · rw [List.mem_singleton.mp last]
      exact ⟨inside,fit⟩
  · simp only [acceptedTables,settle,archive_sequences,ensure_sequences,together.sequences]
    rfl
  · have row : (⟨a,request.objectId,request.expectedRevision+1,(ofAccount log a).length+1,request.objectKind,request.envelope,request.isDeleted⟩ : ObjectRow) =
        mirrored (headOf (nextAcceptance log a request.objectId request.mutationId request)) := by
      simp only [mirrored,headOf,nextAcceptance,ServerStore.changeOf,← current]
      rw [← fit_envelope fit]
    have moved := upsert_mapped mirrored mirrored_key together.objects (headOf (nextAcceptance log a request.objectId request.mutationId request))
    rw [← row] at moved
    simp only [settle,archive_objects,ensure_objects]
    exact moved
  · intro k free
    have same : (settle c.crates (archive (ensureAccount native a) a request.objectId)
        (nextAcceptance log a request.objectId request.mutationId request)).history = (archive (ensureAccount native a) a request.objectId).history :=
      ensure_history _ _
    rw [same] at free
    simp only [acceptedTables,row,← together.rep.head,archive,ensure_objects] at free ⊢
    cases held : native.objects.find (a,request.objectId) with
    | none =>
        rw [held] at free
        exact together.history k (by simpa using free)
    | some current =>
        simp only [held,ensure_history,find_upsert] at free
        simp only [Option.map_some,find_upsert]
        by_cases here : (current.accountId,current.objectId,current.revision) = k
        · rw [if_pos (by exact here)] at free
          cases free
        · rw [if_neg (by exact here)] at free
          rw [if_neg (by exact here)]
          exact together.history k free
  · intro b m
    have row : (⟨a,request.mutationId,c.crates.blake2s (c.encode request),⟨request.objectId,request.expectedRevision+1,(ofAccount log a).length+1⟩⟩ : ProcessedRow) =
        workerProcessed c (nextAcceptance log a request.objectId request.mutationId request) := by
      simp only [workerProcessed,nextAcceptance,responseOf,← current]
    have stored : (acceptedTables worker (attemptFor c attempt a request) ((ofAccount log a).length+1)).processed =
        worker.processed.upsert (workerProcessed c (nextAcceptance log a request.objectId request.mutationId request)) := by
      rw [← row]
      rfl
    rw [stored,ofMutation_append,find_upsert]
    by_cases same : a = b ∧ request.mutationId = m
    · obtain ⟨rfl,rfl⟩ := same
      simp [workerProcessed,nextAcceptance,fresh]
    · have apart : ¬((workerProcessed c (nextAcceptance log a request.objectId request.mutationId request)).accountId,
          (workerProcessed c (nextAcceptance log a request.objectId request.mutationId request)).mutationId) = (b,m) := by
        simpa [workerProcessed,nextAcceptance] using same
      rw [if_neg apart,together.processed]
      simp [nextAcceptance,same]

theorem push_refused (decoded : c.decode chunks.flatten = some request) (small : chunks.flatten.length ≤ maxBody)
    (refused : refuse c request = some e) (db : D1) : push c attempt db a chunks = (.failed e,db) := by
  simp only [push,parse_read decoded small,refused]

theorem push_batched (decoded : c.decode chunks.flatten = some request) (small : chunks.flatten.length ≤ maxBody)
    (fit : Fit spelling request) (passed : refuse c request = none) (batch : attemptBatch db (attemptFor c attempt a request) = some (row,next)) :
    push c attempt db a chunks = (attemptReply row,next) := by
  simp only [push,parse_read decoded small,passed,fit.object,fit.mutation]
  rw [show attemptOf c attempt a request.objectId request.mutationId request = attemptFor c attempt a request from rfl,batch]

-- What a caller of `push` sees, and what the two servers are left with.
theorem push_alike (apart : Apart c requests) (together : Together spelling requests accounts log native worker)
    (small : chunks.flatten.length ≤ maxBody) (decoded : c.decode chunks.flatten = some request) (fit : Fit spelling request)
    (inside : request ∈ requests) (registered : (accounts.find a).isSome) (room : log.length+1 ≤ 9007199254740991) :
    (workerServe c worker (.push attempt a chunks)).1 = (nativeServe c native (.push attempt a chunks)).1 ∧
    ∃ more, more.length ≤ 1 ∧ Together spelling requests accounts (log ++ more)
      (nativeServe c native (.push attempt a chunks)).2 (workerServe c worker (.push attempt a chunks)).2 := by
  have knownNative : ((c.crates.parseUuid request.mutationId).toOption.bind (fun m => native.processed.find (a,m))).isSome =
      (ofMutation log a request.mutationId).isSome := by
    simp [fit.mutation,Except.toOption,together.rep.processed]
  have knownWorker : ((c.crates.parseUuid request.mutationId).toOption.bind (fun m => worker.processed.find (a,m))).isSome =
      (ofMutation log a request.mutationId).isSome := by
    simp [fit.mutation,Except.toOption,together.processed]
  have still := together_ensured together a
  simp only [workerServe,nativeServe,nativePush,decoded,Option.bind_some,knownNative,knownWorker,pushMutationHandler]
  rcases refused_alike (c := c) fit with ⟨passed,taken⟩ | ⟨status,code,message,refused,rejected,other,another⟩
  · have ends := push_ends together.rep a request
    simp only [taken]
    generalize acceptance c.crates native a request = added at ends
    generalize pushMutation c.crates native a request = result at ends ⊢
    have parsedObject : ∀ o, c.crates.parseUuid request.objectId = .ok o → o = request.objectId := by
      intro o read
      have same := read.symm.trans fit.object
      simpa using same
    have parsedMutation : ∀ m, c.crates.parseUuid request.mutationId = .ok m → m = request.mutationId := by
      intro m read
      have same := read.symm.trans fit.mutation
      simpa using same
    cases ends with
    | malformed bad e => exact absurd ⟨fit.object,fit.mutation⟩ (bad _ _)
    | @replayed _ m e parsed old =>
        cases parsedObject _ parsed.object
        cases parsedMutation _ parsed.mutation
        obtain ⟨status,verdict⟩ := replay_alike attempt apart together fit inside old
        rw [push_batched decoded small fit passed (batch_answered together.attempts status),old]
        exact ⟨congrArg Seen.pushed verdict,[],by simp,by simpa using still⟩
    | @conflicting _ m e parsed fresh last stale =>
        cases parsedObject _ parsed.object
        cases parsedMutation _ parsed.mutation
        obtain ⟨status,response⟩ := conflict_alike attempt together fresh last stale
        rw [push_batched decoded small fit passed (batch_answered together.attempts (by simp [status])),fresh,status,response]
        exact ⟨rfl,[],by simp,by simpa using still⟩
    | missing parsed fresh absent stale message =>
        cases parsedObject _ parsed.object
        cases parsedMutation _ parsed.mutation
        obtain ⟨status,response⟩ := missing_alike attempt together fresh absent stale
        rw [push_batched decoded small fit passed (batch_answered together.attempts (by simp [status])),fresh,status,response]
        refine ⟨?_,[],by simp,by simpa using still⟩
        simp [attemptReply,workerVerdict,pushReply,nativeVerdict,errorReply]
    | accepted parsed fresh current =>
        cases parsedObject _ parsed.object
        cases parsedMutation _ parsed.mutation
        obtain ⟨status,accepted,next⟩ := accept_alike attempt together fit inside registered room fresh current
        rw [push_batched decoded small fit passed (batch_accepted together.attempts status accepted),fresh]
        refine ⟨rfl,[nextAcceptance log a request.objectId request.mutationId request],by simp,?_⟩
        have attempts := next.attempts
        rw [show ({acceptedTables worker (attemptFor c attempt a request) ((ofAccount log a).length+1) with attempts := .empty} : D1) =
          acceptedTables worker (attemptFor c attempt a request) ((ofAccount log a).length+1) by rw [← attempts]]
        exact next
  · simp only [push_refused decoded small refused,rejected]
    refine ⟨?_,[],by simp,by simpa using together⟩
    simp [workerVerdict,nativeVerdict,errorReply,ofCode,other,another]

-- The rows of a page are the same heads in the same order.
theorem rows_alike (together : Together spelling requests accounts log native worker) (a : String) (after : Nat) :
    WorkerStore.rowsAfter worker a after = (ServerStore.rowsAfter native a after).map mirrored := by
  have keep : (worker.objects.rows.filter (fun r => decide (r.accountId = a ∧ after < r.serverSeq))) =
      (native.objects.rows.filter (fun r => decide (r.accountId = a ∧ ((after : Nat) : Int) < r.serverSeq))).map mirrored := by
    rw [together.objects,List.filter_map]
    congr 1
    apply List.filter_congr
    intro r _
    exact decide_eq_decide.mpr (by simp [mirrored])
  have sorted : ∀ rows : List EncryptedObjectRow, (rows.map mirrored).insertionSort (fun x y => x.serverSeq ≤ y.serverSeq) =
      (rows.insertionSort (fun x y => x.serverSeq ≤ y.serverSeq)).map mirrored := by
    intro rows
    exact (List.map_insertionSort (fun x y : EncryptedObjectRow => x.serverSeq ≤ y.serverSeq)
      (fun x y : ObjectRow => x.serverSeq ≤ y.serverSeq) mirrored rows (fun _ _ _ _ => Iff.rfl)).symm
  unfold WorkerStore.rowsAfter ServerStore.rowsAfter
  rw [keep,sorted]

theorem clamp_alike (limit : Option Nat) : clamp limit = clampLimit limit := by
  cases limit with
  | none => rfl
  | some v =>
      simp only [clamp,clampLimit]
      split
      · rfl
      · split <;> omega

theorem pull_alike (together : Together spelling requests accounts log native worker) (after : Nat) (exact : after < 2^53) (limit : Option Nat) :
    (workerServe c worker (.pull a after limit)).1 = (nativeServe c native (.pull a after limit)).1 := by
  have still := together_ensured together a
  have rows := rows_alike still a after
  have cursor : ¬9007199254740991 < after := by omega
  have signed : asI64 after = after := asI64_small (by omega)
  have change : ∀ r : EncryptedObjectRow, WorkerStore.changeOf (mirrored r) = ServerStore.changeOf r := fun r => rfl
  simp only [workerServe,nativeServe,pull,if_neg cursor,pullChanges,clamp_alike,signed,rows,Except.mapError]
  simp [← List.map_take,Function.comp_def,change]

-- A call within the limits: the caller is registered, and the body is small
-- enough and the text of a request as the clients build it.
def Proper (spelling : Spelling c.crates) (accounts : Table String AccountRow (·.id)) : SyncCall → Prop
  | .push _ account chunks => (accounts.find account).isSome ∧ chunks.flatten.length ≤ maxBody ∧
      ∃ request, chunks.flatten = c.encode request ∧ c.decode chunks.flatten = some request ∧ Fit spelling request
  | .pull _ after _ => after < 2^53

def pushed (c : WorkerCrates) (calls : List SyncCall) : List PushRequest :=
  calls.filterMap (fun call => match call with
    | .push _ _ chunks => c.decode chunks.flatten
    | .pull .. => none)

theorem call_alike (apart : Apart c requests) (together : Together spelling requests accounts log native worker)
    (proper : Proper spelling accounts call) (asked : ∀ request ∈ pushed c [call], request ∈ requests) (room : log.length+1 ≤ 9007199254740991) :
    (workerServe c worker call).1 = (nativeServe c native call).1 ∧
    ∃ more, more.length ≤ 1 ∧ Together spelling requests accounts (log ++ more) (nativeServe c native call).2 (workerServe c worker call).2 := by
  cases call with
  | pull a after limit =>
      refine ⟨pull_alike together after proper limit,[],by simp,?_⟩
      simpa [nativeServe,workerServe,pullChanges] using together_ensured together a
  | push attempt a chunks =>
      obtain ⟨registered,small,request,_,decoded,fit⟩ := proper
      exact push_alike apart together small decoded fit (asked request (by simp [pushed,decoded])) registered room

theorem runs_alike (apart : Apart c requests) (together : Together spelling requests accounts log native worker)
    (proper : ∀ call ∈ calls, Proper spelling accounts call) (asked : ∀ request ∈ pushed c calls, request ∈ requests)
    (room : log.length+calls.length ≤ 9007199254740991) : runCalls (workerServe c) worker calls = runCalls (nativeServe c) native calls := by
  induction calls generalizing log native worker with
  | nil => rfl
  | cons call rest ih =>
      have first : ∀ request ∈ pushed c [call], request ∈ requests := by
        intro request member
        apply asked
        simp only [pushed,List.mem_filterMap] at member ⊢
        obtain ⟨one,inside,decoded⟩ := member
        exact ⟨one,by simp [List.mem_singleton.mp inside],decoded⟩
      have later : ∀ request ∈ pushed c rest, request ∈ requests := by
        intro request member
        apply asked
        simp only [pushed,List.mem_filterMap] at member ⊢
        obtain ⟨one,inside,decoded⟩ := member
        exact ⟨one,List.mem_cons_of_mem _ inside,decoded⟩
      simp only [List.length_cons] at room
      obtain ⟨same,more,short,next⟩ := call_alike apart together (proper call List.mem_cons_self) first (by omega)
      have tail := ih next (fun one inside => proper one (List.mem_cons_of_mem _ inside)) later (by simp only [List.length_append]; omega)
      rw [runCalls,runCalls,same,tail]

-- A client cannot tell the two deployments apart by the protocol.
theorem servers_agree (c : WorkerCrates) (spelling : Spelling c.crates) (accounts : Table String AccountRow (·.id)) (calls : List SyncCall)
    (apart : Apart c (pushed c calls)) (proper : ∀ call ∈ calls, Proper spelling accounts call) (few : calls.length < 2^53) :
    runCalls (workerServe c) (D1.empty accounts) calls = runCalls (nativeServe c) .newInMemory calls :=
  runs_alike apart empty_together proper (fun _ member => member) (by simp only [List.length_nil]; omega)

-- Stand-ins that agree with the crates on canonical ids, on Base64 of letters and
-- digits, and on the JSON of requests without characters to escape.
def letterValue (letter : Char) : Option Nat :=
  if 'A' ≤ letter ∧ letter ≤ 'Z' then some (letter.toNat-65)
  else if 'a' ≤ letter ∧ letter ≤ 'z' then some (letter.toNat-71)
  else if '0' ≤ letter ∧ letter ≤ '9' then some (letter.toNat+4)
  else none

def decodeLetters : List Char → Option (List UInt8)
  | [] => some []
  | w :: x :: y :: z :: rest => do
    let group := (← letterValue w) * 262144 + (← letterValue x) * 4096 + (← letterValue y) * 64 + (← letterValue z)
    return UInt8.ofNat (group / 65536) :: UInt8.ofNat (group / 256) :: UInt8.ofNat group :: (← decodeLetters rest)
  | _ => none

def letterCrates : Crates := {Crates.standIn with decodable := fun text => (decodeLetters text.toList).isSome}

theorem ascii_bytes (text : String) (ascii : ∀ letter ∈ text.toList, letter.val ≤ 127) : (asBytes text).length = text.toList.length := by
  unfold asBytes
  generalize text.toList = letters at ascii ⊢
  induction letters with
  | nil => rfl
  | cons letter rest ih =>
      have one : (String.utf8EncodeChar letter).length = 1 := by
        have small := ascii letter List.mem_cons_self
        rw [String.length_utf8EncodeChar,Char.utf8Size_eq_one_iff]
        exact small
      simp only [List.flatMap_cons,List.length_append,one,List.length_cons,ih (fun x inside => ascii x (List.mem_cons_of_mem _ inside))]
      omega

theorem below_ascii {letter top : Char} (below : letter ≤ top) (ascii : top.val ≤ 127) : letter.val ≤ 127 :=
  UInt32.le_trans (Char.le_def.mp below) ascii

theorem letter_ascii (read : letterValue letter = some n) : letter.val ≤ 127 := by
  unfold letterValue at read
  split at read
  · rename_i upper
    exact below_ascii upper.2 (by decide)
  split at read
  · rename_i lower
    exact below_ascii lower.2 (by decide)
  split at read
  · rename_i digit
    exact below_ascii digit.2 (by decide)
  · cases read

theorem letters_read (letters : List Char) (read : decodeLetters letters = some bytes) :
    letters.length = 4 * ((bytes.length+2) / 3) ∧ ∀ letter ∈ letters, letter.val ≤ 127 := by
  induction letters using decodeLetters.induct generalizing bytes with
  | case1 =>
      cases read
      simp
  | case2 w x y z rest ih =>
      simp only [decodeLetters,bind,Option.bind_eq_some_iff,pure,Option.some.injEq] at read
      obtain ⟨a,readW,b,readX,c,readY,d,readZ,tail,readRest,rfl⟩ := read
      obtain ⟨length,ascii⟩ := ih readRest
      refine ⟨by simp only [List.length_cons]; omega,?_⟩
      simp only [List.mem_cons,forall_eq_or_imp]
      exact ⟨letter_ascii readW,letter_ascii readX,letter_ascii readY,letter_ascii readZ,ascii⟩
  | case3 letters short long =>
      rw [decodeLetters] at read
      · cases read
      · exact short
      · exact long

theorem id_ascii (allowed : (if i ∈ [8,13,18,23] then letter == '-' else hexDigit letter) = true) : letter.val ≤ 127 := by
  split at allowed
  · rw [eq_of_beq allowed]
    decide
  · simp only [hexDigit,Bool.or_eq_true,decide_eq_true_eq] at allowed
    rcases allowed with digit | lower
    · exact below_ascii digit.2 (by decide)
    · exact below_ascii lower.2 (by decide)

def letterSpelling : Spelling letterCrates where
  decodeBase64 text := decodeLetters text.toList
  decodable _ := rfl
  padded text bytes read := by
    obtain ⟨length,ascii⟩ := letters_read text.toList read
    rw [ascii_bytes text ascii,length]
  hyphenated text spelling read := by
    have parsed : (if hyphenated text then .ok text else .error "invalid character" : Except String String) = .ok spelling := read
    split at parsed
    · rename_i canonical
      cases parsed
      simp only [hyphenated,Bool.and_eq_true,decide_eq_true_eq,List.all_eq_true] at canonical
      have ascii : ∀ letter ∈ text.toList, letter.val ≤ 127 := by
        intro letter inside
        obtain ⟨i,bound,rfl⟩ := List.getElem_of_mem inside
        have allowed := canonical.2 (text.toList[i],i) (List.mem_zipIdx_iff_getElem?.mpr (List.getElem?_eq_getElem bound))
        exact id_ascii allowed
      rw [ascii_bytes text ascii,String.length_toList,canonical.1]
    · cases parsed

def containerJson (nonce ciphertext : String) : List UInt8 :=
  asBytes "\x7b\"nonce\":\"" ++ asBytes nonce ++ asBytes "\",\"ciphertext\":\"" ++ asBytes ciphertext ++ asBytes "\"\x7d"

def envelopeJson (e : EncryptedEnvelope) : List UInt8 :=
  asBytes "\x7b\"envelope_version\":" ++ asBytes (toString e.envelopeVersion.toNat) ++ asBytes ",\"object_id\":\"" ++ asBytes e.objectId ++
    asBytes "\",\"object_kind\":" ++ asBytes (toString e.objectKind.toNat) ++ asBytes ",\"wrapped_key\":" ++
    containerJson e.wrappedKey.nonce e.wrappedKey.ciphertext ++ asBytes ",\"payload\":" ++
    containerJson e.payload.nonce e.payload.ciphertext ++ asBytes "\x7d"

def encodeJson (r : PushRequest) : List UInt8 :=
  asBytes "\x7b\"mutation_id\":\"" ++ asBytes r.mutationId ++ asBytes "\",\"object_id\":\"" ++ asBytes r.objectId ++
    asBytes "\",\"expected_revision\":" ++ asBytes (toString r.expectedRevision) ++ asBytes ",\"object_kind\":" ++
    asBytes (toString r.objectKind.toNat) ++ asBytes ",\"envelope\":" ++ envelopeJson r.envelope ++
    (asBytes ",\"is_deleted\":" ++ asBytes (toString r.isDeleted) ++ asBytes "\x7d")

def jsonCrates (known : List PushRequest) : WorkerCrates :=
  ⟨letterCrates,encodeJson,fun bytes => known.find? (fun r => decide (encodeJson r = bytes))⟩

theorem encode_mk (crates : Crates) (encode : PushRequest → List UInt8) (decode : List UInt8 → Option PushRequest) :
    (WorkerCrates.mk crates encode decode).encode = encode := rfl

theorem json_crates (known : List PushRequest) : jsonCrates known =
    ⟨letterCrates,encodeJson,fun bytes => known.find? (fun r => decide (encodeJson r = bytes))⟩ := rfl

-- Through the fields, so that no text is spelled out to see it.
theorem json_encode (known : List PushRequest) : (jsonCrates known).encode = encodeJson :=
  (congrArg WorkerCrates.encode (json_crates known)).trans (encode_mk _ _ _)

theorem json_digest (known : List PushRequest) : (jsonCrates known).crates.blake2s = id := rfl

def letters (n : Nat) : String := String.ofList (List.replicate n 'A')

def noteRequest (mutation : String) (expected : Nat) (ciphertext : String) : PushRequest :=
  ⟨mutation,firstNote,expected,1,⟨1,firstNote,1,⟨"AAAAAAAAAAAAAAAAAAAAAAAAAAAAAAAA",
    "AAAAAAAAAAAAAAAAAAAAAAAAAAAAAAAAAAAAAAAAAAAAAAAAAAAAAAAAAAAAAAAA"⟩,⟨"AAAAAAAAAAAAAAAAAAAAAAAAAAAAAAAA",ciphertext⟩⟩,false⟩

def noteCall (request : PushRequest) : SyncCall := .push "attempt" "alice" [encodeJson request]

def aliceOnly : Table String AccountRow (·.id) := Table.empty.upsert ⟨"alice","active"⟩

theorem noteRequest_fit (canonical : letterCrates.parseUuid mutation = .ok mutation) (exact : expected < 2^53-1) (ciphertext : String) :
    Fit letterSpelling (noteRequest mutation expected ciphertext) := by
  have nonce : OfSize letterSpelling 24 "AAAAAAAAAAAAAAAAAAAAAAAAAAAAAAAA" := ⟨_,rfl,by decide⟩
  have key : OfSize letterSpelling 48 "AAAAAAAAAAAAAAAAAAAAAAAAAAAAAAAAAAAAAAAAAAAAAAAAAAAAAAAAAAAAAAAA" :=
    ⟨_,rfl,by decide⟩
  exact ⟨show letterCrates.parseUuid firstNote = .ok firstNote by decide,canonical,rfl,rfl,nonce,key,nonce,exact⟩

def aliceRequests : List PushRequest := [noteRequest change1 0 "AAAA",noteRequest change2 0 "BBBB"]

def aliceCalls : List SyncCall :=
  [noteCall (noteRequest change1 0 "AAAA"),noteCall (noteRequest change1 0 "AAAA"),noteCall (noteRequest change2 0 "BBBB"),
    .pull "alice" 0 (some 0)]

theorem json_read (known : List PushRequest) (calls : List SyncCall) (member : x ∈ pushed (jsonCrates known) calls) :
    known.find? (fun r => decide (encodeJson r = encodeJson x)) = some x := by
  obtain ⟨call,_,decoded⟩ := List.mem_filterMap.mp member
  cases call with
  | pull => cases decoded
  | push _ _ chunks =>
      have found : known.find? (fun r => decide (encodeJson r = chunks.flatten)) = some x := decoded
      have spelled := List.find?_some found
      rw [of_decide_eq_true spelled]
      exact found

theorem json_apart (known : List PushRequest) (calls : List SyncCall) : Apart (jsonCrates known) (pushed (jsonCrates known) calls) := by
  refine ⟨?_,?_,?_⟩
  · intro x _ y _ same
    rw [json_digest] at same
    exact same
  · intro x _ y _ same
    rw [json_digest] at same
    exact same
  · intro x inX y inY spelled
    rw [json_encode] at spelled
    have one := json_read known calls inX
    rw [spelled,json_read known calls inY] at one
    exact (Option.some.inj one).symm

theorem note_proper (found : known.find? (fun r => decide (encodeJson r = encodeJson (noteRequest mutation expected text))) =
      some (noteRequest mutation expected text)) (small : (encodeJson (noteRequest mutation expected text)).length ≤ maxBody)
    (canonical : letterCrates.parseUuid mutation = .ok mutation) (exact : expected < 2^53-1) :
    Proper (c := jsonCrates known) letterSpelling aliceOnly (noteCall (noteRequest mutation expected text)) := by
  have whole : [encodeJson (noteRequest mutation expected text)].flatten = encodeJson (noteRequest mutation expected text) := by
    rw [List.flatten_singleton]
  refine ⟨by decide,?_,noteRequest mutation expected text,?_,?_,noteRequest_fit canonical exact text⟩
  · rw [whole]
    exact small
  · rw [json_encode]
    exact whole
  · rw [whole]
    exact found

-- An acceptance, its replay, a conflict and a pull.
theorem alice_servers_agree :
    runCalls (workerServe (jsonCrates aliceRequests)) (D1.empty aliceOnly) aliceCalls =
      runCalls (nativeServe (jsonCrates aliceRequests)) .newInMemory aliceCalls := by
  have first : Proper (c := jsonCrates aliceRequests) letterSpelling aliceOnly (noteCall (noteRequest change1 0 "AAAA")) :=
    note_proper (List.find?_cons_of_pos (decide_eq_true rfl)) (by decide +kernel) (by decide) (by decide)
  have second : Proper (c := jsonCrates aliceRequests) letterSpelling aliceOnly (noteCall (noteRequest change2 0 "BBBB")) :=
    note_proper (by decide +kernel) (by decide +kernel) (by decide) (by decide)
  have proper : ∀ call ∈ aliceCalls, Proper (c := jsonCrates aliceRequests) letterSpelling aliceOnly call := by
    intro call member
    simp only [aliceCalls,List.mem_cons,List.not_mem_nil,or_false] at member
    rcases member with rfl | rfl | rfl | rfl
    · exact first
    · exact first
    · exact second
    · exact show 0 < 2^53 by decide
  exact servers_agree (jsonCrates aliceRequests) letterSpelling aliceOnly aliceCalls (json_apart aliceRequests aliceCalls) proper (by decide)

-- A note that the native server stores and the worker reads no further than its
-- limit.
def largeRequest : PushRequest := noteRequest change1 0 (letters (4*32769))

theorem letters_bytes (n : Nat) : (asBytes (letters n)).length = n := by
  rw [ascii_bytes]
  · simp [letters]
  · intro letter inside
    simp only [letters,String.toList_ofList] at inside
    rw [List.eq_of_mem_replicate inside]
    decide

theorem letters_decodable (n : Nat) : letterCrates.decodable (letters (4*n)) = true := by
  have text : (letters (4*n)).toList = List.replicate (4*n) 'A' := String.toList_ofList
  show (decodeLetters (letters (4*n)).toList).isSome = true
  rw [text]
  induction n with
  | zero => rfl
  | succ n ih =>
      obtain ⟨bytes,read⟩ := Option.isSome_iff_exists.mp (ih String.toList_ofList)
      rw [show 4*(n+1) = 4*n+4 by omega]
      simp [List.replicate_succ,decodeLetters,read,letterValue]

theorem body_longer (r : PushRequest) : (asBytes r.envelope.payload.ciphertext).length ≤ (encodeJson r).length := by
  have container : asBytes r.envelope.payload.ciphertext <:+: (containerJson r.envelope.payload.nonce r.envelope.payload.ciphertext) :=
    ⟨_,_,rfl⟩
  have envelope : (containerJson r.envelope.payload.nonce r.envelope.payload.ciphertext) <:+: (envelopeJson r.envelope) :=
    ⟨_,_,rfl⟩
  have request : (envelopeJson r.envelope) <:+: encodeJson r := ⟨_,_,rfl⟩
  exact ((container.trans envelope).trans request).length_le

theorem note_read (text : String) : (jsonCrates [noteRequest mutation expected text]).decode (encodeJson (noteRequest mutation expected text)) =
    some (noteRequest mutation expected text) := by
  rw [json_crates]
  simp

-- Any note that is Base64 is accepted by a native server.
theorem native_accepts (payload : letterCrates.decodable text = true) :
    runCalls (nativeServe (jsonCrates [noteRequest change1 0 text])) .newInMemory [noteCall (noteRequest change1 0 text)] =
      [.pushed (.accepted ⟨firstNote,1,1⟩)] := by
  have fit : Fit letterSpelling (noteRequest change1 0 text) := noteRequest_fit (by decide) (by decide) text
  have parsed : Parsed letterCrates (noteRequest change1 0 text) firstNote change1 := ⟨fit.object,fit.mutation⟩
  have admitted : Admitted letterCrates (noteRequest change1 0 text) :=
    ⟨⟨_,parsed.mutation⟩,⟨_,parsed.object⟩,rfl,rfl,size_decodable fit.keyNonce,size_decodable fit.wrappedKey,size_decodable fit.payloadNonce,payload⟩
  have passed : rejectPush (jsonCrates [noteRequest change1 0 text]).crates (noteRequest change1 0 text) = none := admitted_passes admitted
  have begun : Represents letterCrates [] .newInMemory := initial_represents
  have accepted : pushMutation (jsonCrates [noteRequest change1 0 text]).crates .newInMemory "alice" (noteRequest change1 0 text) = _ :=
    push_accepted (a := "alice") begun parsed (by rfl) (by rfl)
  have read : (jsonCrates [noteRequest change1 0 text]).decode [encodeJson (noteRequest change1 0 text)].flatten = some (noteRequest change1 0 text) := by
    rw [List.flatten_singleton,note_read]
  simp only [runCalls,noteCall,nativeServe,nativePush,read,pushMutationHandler,passed,accepted]
  rw [show (jsonCrates [noteRequest change1 0 text]).crates.parseUuid (noteRequest change1 0 text).mutationId = _ from fit.mutation]
  rfl

theorem worker_refuses (large : maxBody < (encodeJson request).length) :
    runCalls (workerServe (jsonCrates [request])) (D1.empty aliceOnly) [noteCall request] =
      [.pushed (.refused 413 (some errorPayloadTooLarge))] := by
  have whole : maxBody < ([] : List UInt8).length + [encodeJson request].flatten.length := by
    rw [List.flatten_singleton]
    simpa using large
  have unread := body_refused maxBody [encodeJson request] [] (Nat.zero_le _) whole
  have unparsed : parse (jsonCrates [request]) [encodeJson request] = .error ⟨413,errorPayloadTooLarge⟩ := by
    simp only [parse,unread,bind,Except.bind]
  simp only [runCalls,noteCall,workerServe,push,unparsed,workerVerdict]

theorem large_note_refused :
    Fit letterSpelling largeRequest ∧
    runCalls (nativeServe (jsonCrates [largeRequest])) .newInMemory [noteCall largeRequest] = [.pushed (.accepted ⟨firstNote,1,1⟩)] ∧
    runCalls (workerServe (jsonCrates [largeRequest])) (D1.empty aliceOnly) [noteCall largeRequest] =
      [.pushed (.refused 413 (some errorPayloadTooLarge))] := by
  have large : maxBody < (encodeJson largeRequest).length :=
    Nat.lt_of_lt_of_le (show maxBody < (asBytes (letters (4*32769))).length by rw [letters_bytes]; decide) (body_longer largeRequest)
  exact ⟨noteRequest_fit (by decide) (by decide) _,native_accepts (letters_decodable 32769),worker_refuses large⟩

end ZkNote.ServerParity
