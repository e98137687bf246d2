import ZkNote.TableTotals
import ZkNote.WorkerStore

namespace ZkNote.WorkerBlobs
open KeyedTable
open WorkerStore (ApiError body)

structure AccountRow where
  id : String
  blobBytes : Int
  reservedBytes : Int
  deriving DecidableEq, Repr

structure BlobRow where
  accountId : String
  blobId : String
  storageKey : String
  size : Int
  deriving DecidableEq, Repr

-- Times are seconds, which is what `datetime` and CURRENT_TIMESTAMP spell.
structure UploadRow where
  storageKey : String
  accountId : String
  blobId : String
  size : Int
  expiresAt : Nat
  deriving DecidableEq, Repr

structure GarbageRow where
  storageKey : String
  retryForever : Bool
  nextAttempt : Nat
  deriving DecidableEq, Repr

structure D1 where
  accounts : Table String AccountRow (·.id)
  blobs : Table (String × String) BlobRow (fun r => (r.accountId,r.blobId))
  uploads : Table String UploadRow (·.storageKey)
  garbage : Table String GarbageRow (·.storageKey)

-- Why a statement fails; the batch it stands in is then rolled back.
inductive Abort where
  | check
  | unique
  deriving DecidableEq, Repr

-- UPDATE accounts SET blob_bytes=blob_bytes+.., reserved_bytes=reserved_bytes+..
def charge (db : D1) (accountId : String) (blob reserved : Int) : Except Abort D1 :=
  match db.accounts.find accountId with
  | none => .ok db
  | some a =>
    if 0 ≤ a.blobBytes + blob ∧ 0 ≤ a.reservedBytes + reserved then
      .ok {db with accounts := db.accounts.upsert ⟨a.id,a.blobBytes + blob,a.reservedBytes + reserved⟩}
    else .error .check

-- INSERT INTO blob_garbage that leaves a row which is there as it is.
def addGarbage (db : D1) (storageKey : String) (retryForever : Bool) (now : Nat) : D1 :=
  {db with garbage := (db.garbage.insert ⟨storageKey,retryForever,now⟩).getD db.garbage}

-- The triggers; `old` and `new` are OLD and NEW.
def reserveBlob (db : D1) (new : UploadRow) : Except Abort D1 := charge db new.accountId 0 new.size
def releaseReservation (db : D1) (old : UploadRow) : Except Abort D1 := charge db old.accountId 0 (-old.size)
def blobCreated (db : D1) (new : BlobRow) : Except Abort D1 := charge db new.accountId new.size 0
def blobReplaced (db : D1) (old new : BlobRow) (now : Nat) : Except Abort D1 := do
  let db ← charge db new.accountId (new.size - old.size) 0
  return addGarbage db old.storageKey false now
def blobDeleted (db : D1) (old : BlobRow) (now : Nat) : Except Abort D1 := do
  let db ← charge db old.accountId (-old.size) 0
  return addGarbage db old.storageKey false now

-- Each row a statement writes, with the trigger it fires.
def insertUpload (db : D1) (new : UploadRow) : Except Abort D1 :=
  if new.size < 0 then .error .check
  else match db.uploads.insert new with
  | none => .error .unique
  | some uploads => reserveBlob {db with uploads := uploads} new

def deleteUpload (db : D1) (storageKey : String) : Except Abort D1 :=
  match db.uploads.find storageKey with
  | none => .ok db
  | some old => releaseReservation {db with uploads := db.uploads.delete (fun u => u.storageKey = storageKey)} old

def upsertBlob (db : D1) (new : BlobRow) (now : Nat) : Except Abort D1 :=
  if new.size < 0 then .error .check
  else if db.blobs.rows.any (fun b => b.storageKey = new.storageKey ∧ (b.accountId,b.blobId) ≠ (new.accountId,new.blobId)) then .error .unique
  else match db.blobs.find (new.accountId,new.blobId) with
  | none => blobCreated {db with blobs := db.blobs.upsert new} new
  | some old => blobReplaced {db with blobs := db.blobs.upsert new} old new now

def uploadLifetime : Nat := 3600
def retryInterval : Nat := 86400

-- The statement that opens a PUT: whether it returned a row.
def reserve (db : D1) (storageKey accountId blobId : String) (size : Int) (quota : Nat) (now : Nat) : Except Abort (D1 × Bool) :=
  match db.accounts.find accountId with
  | none => .ok (db,false)
  | some a =>
    if a.blobBytes + a.reservedBytes + size ≤ quota then do
      let db ← insertUpload db ⟨storageKey,accountId,blobId,size,now + uploadLifetime⟩
      return (db,true)
    else .ok (db,false)

-- The batch that closes a PUT, statement by statement; only the first reads the clock.
def publishUpload (db : D1) (storageKey : String) (now : Nat) : Except Abort (D1 × Bool) :=
  match db.uploads.find storageKey with
  | none => .ok (db,false)
  | some u =>
    if now < u.expiresAt then do
      let db ← upsertBlob db ⟨u.accountId,u.blobId,u.storageKey,u.size⟩ now
      return (db,true)
    else .ok (db,false)

def dropPublished (db : D1) (storageKey : String) : Except Abort D1 :=
  if db.blobs.rows.any (fun b => b.storageKey = storageKey) then deleteUpload db storageKey else .ok db

def publish (db : D1) (storageKey : String) (now : Nat) : Except Abort (D1 × Bool) := do
  let (db,published) ← publishUpload db storageKey now
  let db ← dropPublished db storageKey
  return (db,published)

def cancel (db : D1) (storageKey : String) (now : Nat) : Except Abort (D1 × Bool) := do
  let db := match db.uploads.find storageKey with
    | none => db
    | some u => addGarbage db u.storageKey true now
  let db ← deleteUpload db storageKey
  return (db,true)

def deleteBlob (db : D1) (accountId blobId : String) (now : Nat) : Except Abort (D1 × Bool) :=
  match db.blobs.find (accountId,blobId) with
  | none => .ok (db,false)
  | some old => do
    let db ← blobDeleted {db with blobs := db.blobs.delete (fun b => (b.accountId,b.blobId) = (accountId,blobId))} old now
    return (db,true)

-- ORDER BY a time: SQLite may return ties in any order, here that of `rank`.
def before {ρ : Type} (time : ρ → Nat) (name : ρ → String) (rank : String → Nat) (x y : ρ) : Bool :=
  decide (time x < time y) || decide (time x = time y) &&
    (decide (rank (name x) < rank (name y)) || decide (rank (name x) = rank (name y)) && decide (name x < name y))

-- .. WHERE time<=CURRENT_TIMESTAMP ORDER BY time LIMIT 8: what fewer than eight rows precede.
def firstDue {ρ : Type} (time : ρ → Nat) (name : ρ → String) (rank : String → Nat) (now : Nat) (rows : List ρ) : List ρ :=
  rows.filter (fun y => decide (time y ≤ now) && decide ((rows.filter (fun x => decide (time x ≤ now) && before time name rank x y)).length < 8))

def expiredUploads (rank : String → Nat) (now : Nat) (db : D1) : List UploadRow :=
  firstDue (·.expiresAt) (·.storageKey) rank now db.uploads.rows

-- The batch of `reconcile`. Its two statements pick the expired uploads each for
-- itself: the clock may have moved on, and ties may fall otherwise.
def collect (db : D1) (rank rank' : String → Nat) (now later : Nat) : Except Abort (D1 × Bool) := do
  let db := (expiredUploads rank now db).foldl (fun db u => addGarbage db u.storageKey true now) db
  let db ← (expiredUploads rank' later db).foldlM (fun db u => deleteUpload db u.storageKey) db
  return (db,true)

def dueGarbage (rank : String → Nat) (now : Nat) (db : D1) : List GarbageRow :=
  firstDue (·.nextAttempt) (·.storageKey) rank now db.garbage.rows

-- What `reconcile` does of a garbage row once the bucket has deleted its object.
def settle (db : D1) (row : GarbageRow) (now : Nat) : D1 :=
  if row.retryForever then
    {db with garbage := db.garbage.update (fun g => g.storageKey = row.storageKey) (fun g => {g with nextAttempt := now + retryInterval}) (fun _ => rfl)}
  else {db with garbage := db.garbage.delete (fun g => g.storageKey = row.storageKey)}

def validBlobId (blob : String) : Bool :=
  !blob.isEmpty && decide (blob.utf8ByteSize ≤ 128) && blob.toList.all (fun c => c.isAlphanum || c == '-' || c == '_')

def forbiddenHeaders : List String :=
  ["x-filename","x-file-name","x-mime-type","x-mime","x-content-type-original","x-note-id","x-note-title","x-tag"]

structure PutRequest where
  accountId : String
  blobId : String
  headers : List String
  chunks : List (List UInt8)

structure WorkerVars where
  maxBlobSize : Nat
  accountBlobQuota : Nat

-- A PUT up to its first statement.
def receive (vars : WorkerVars) (request : PutRequest) : Except ApiError (List UInt8) :=
  if validBlobId request.blobId = false then .error ⟨400,"INVALID_BLOB_ID"⟩
  else if forbiddenHeaders.any request.headers.contains then .error ⟨400,"PLAINTEXT_METADATA_FORBIDDEN"⟩
  else body (min vars.maxBlobSize (8 * 1024 * 1024)) request.chunks []

-- What one run of the worker still has to do.
inductive Task where
  | upload (storageKey : String)
  | cancel (storageKey : String)
  | publish (storageKey : String)
  | list
  | sweep (rows : List GarbageRow)
  | settle (row : GarbageRow) (rest : List GarbageRow)
  deriving DecidableEq, Repr

-- The database and the bucket, the runs under way and the clock; `sent` are the
-- keys handed to the bucket, `late` those whose put was reported as failed and may
-- still complete, `cleared` those of a delete that was reported as done, `drawn`
-- all keys so far.
structure World where
  db : D1
  bucket : List String
  tasks : List Task
  now : Nat
  sent : List String
  late : List String
  cleared : List String
  drawn : List String

-- A database call is applied and answered, applied with its answer lost, or not applied.
inductive Outcome where
  | answered
  | unanswered
  | failed
  deriving DecidableEq, Repr

inductive Event where
  | register (accountId : String)
  | put (request : PutRequest) (id : String) (now : Nat) (outcome : Outcome)
  | upload (i : Nat) (stored reported : Bool)
  | land (storageKey : String)
  | cancel (i now : Nat) (outcome : Outcome)
  | publish (i now : Nat) (outcome : Outcome)
  | delete (accountId blobId : String) (now : Nat) (outcome : Outcome)
  | reconcile (rank rank' : String → Nat) (now later : Nat) (outcome : Outcome)
  | list (i : Nat) (rank : String → Nat) (now : Nat) (outcome : Outcome)
  | sweep (i : Nat) (deleted reported : Bool)
  | settle (i now : Nat) (outcome : Outcome)

def keyOf (request : PutRequest) (id : String) : String := s!"{request.accountId}/{request.blobId}/{id}"

-- The database call of an event: what it leaves, and whether it returns a row.
def query (vars : WorkerVars) : Event → World → Except Abort (D1 × Bool)
  | .put request id now _,w =>
    match receive vars request with
    | .error _ => .ok (w.db,false)
    | .ok bytes => reserve w.db (keyOf request id) request.accountId request.blobId bytes.length vars.accountBlobQuota now
  | .cancel i now _,w =>
    match w.tasks[i]? with
    | some (.cancel storageKey) => cancel w.db storageKey now
    | _ => .ok (w.db,false)
  | .publish i now _,w =>
    match w.tasks[i]? with
    | some (.publish storageKey) => publish w.db storageKey now
    | _ => .ok (w.db,false)
  | .delete accountId blobId now _,w => deleteBlob w.db accountId blobId now
  | .reconcile rank rank' now later _,w => collect w.db rank rank' now later
  | .settle i now _,w =>
    match w.tasks[i]? with
    | some (.settle row _) => .ok (settle w.db row now,true)
    | _ => .ok (w.db,false)
  | _,w => .ok (w.db,false)

-- A constraint that fails rolls the call back.
def Outcome.apply (db : D1) : Outcome → Except Abort (D1 × Bool) → D1 × Bool
  | .failed,_ => (db,false)
  | _,.error _ => (db,false)
  | .answered,.ok (db,returned) => (db,returned)
  | .unanswered,.ok (db,_) => (db,false)

def step (vars : WorkerVars) (event : Event) (w : World) : Option World :=
  match event with
  | .register accountId =>
    some {w with db := {w.db with accounts := (w.db.accounts.insert ⟨accountId,0,0⟩).getD w.db.accounts}}
  | .put request id now outcome =>
    if w.now ≤ now ∧ keyOf request id ∉ w.drawn then
      let (db,reserved) := outcome.apply w.db (query vars event w)
      some {w with
        db := db
        now := now
        drawn := keyOf request id :: w.drawn
        tasks := if reserved then w.tasks ++ [.upload (keyOf request id)] else w.tasks}
    else none
  | .upload i stored reported =>
    match w.tasks[i]? with
    | some (.upload storageKey) =>
      if reported && !stored then none
      else some {w with
        bucket := if stored then storageKey :: w.bucket else w.bucket
        sent := storageKey :: w.sent
        late := if reported then w.late else storageKey :: w.late
        tasks := w.tasks.set i (if reported then .publish storageKey else .cancel storageKey)}
    | _ => none
  | .land storageKey => if storageKey ∈ w.late then some {w with bucket := storageKey :: w.bucket} else none
  | .cancel i now outcome =>
    match w.tasks[i]? with
    | some (.cancel _) =>
      if w.now ≤ now then some {w with db := (outcome.apply w.db (query vars event w)).1, now := now, tasks := w.tasks.eraseIdx i} else none
    | _ => none
  | .publish i now outcome =>
    match w.tasks[i]? with
    | some (.publish _) =>
      if w.now ≤ now then some {w with db := (outcome.apply w.db (query vars event w)).1, now := now, tasks := w.tasks.eraseIdx i} else none
    | _ => none
  | .delete _ _ now outcome =>
    if w.now ≤ now then some {w with db := (outcome.apply w.db (query vars event w)).1, now := now} else none
  | .reconcile _ _ now later outcome =>
    if w.now ≤ now ∧ now ≤ later then
      let (db,collected) := outcome.apply w.db (query vars event w)
      some {w with db := db, now := later, tasks := if collected then w.tasks ++ [.list] else w.tasks}
    else none
  | .list i rank now outcome =>
    match w.tasks[i]? with
    | some .list =>
      if w.now ≤ now then
        some {w with now := now, tasks := if outcome = .answered then w.tasks.set i (.sweep (dueGarbage rank now w.db)) else w.tasks.eraseIdx i}
      else none
    | _ => none
  | .sweep i deleted reported =>
    match w.tasks[i]? with
    | some (.sweep (row :: rest)) =>
      if reported && !deleted then none
      else some {w with
        bucket := if deleted then w.bucket.filter (· ≠ row.storageKey) else w.bucket
        cleared := if reported then row.storageKey :: w.cleared else w.cleared
        tasks := if reported then w.tasks.set i (.settle row rest) else w.tasks.eraseIdx i}
    | _ => none
  | .settle i now outcome =>
    match w.tasks[i]? with
    | some (.settle _ rest) =>
      if w.now ≤ now then
        let (db,settled) := outcome.apply w.db (query vars event w)
        some {w with db := db, now := now, tasks := if settled then w.tasks.set i (.sweep rest) else w.tasks.eraseIdx i}
      else none
    | _ => none

def World.new : World := ⟨⟨.empty,.empty,.empty,.empty⟩,[],[],0,[],[],[],[]⟩

end ZkNote.WorkerBlobs
