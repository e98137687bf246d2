import ZkNote.ServerBlobs
import ZkNote.ServerStore
import ZkNote.WebauthnLogin

namespace ZkNote.AccountServer
open Protocol KeyedTable ServerStore ServerBlobs SshAuth
open WebauthnLogin (revokeSessions revokeSession)

-- The one database of a native server: what signs an account in, its objects
-- and its blobs. The accounts table belongs to both halves.
structure Server extends AuthDb where
  objects : Table (String × String) EncryptedObjectRow (fun r => (r.accountId,r.objectId))
  history : Table (String × String × Nat) ObjectHistoryRow (fun r => (r.accountId,r.objectId,r.revision))
  sequences : Table String SequenceRow (·.accountId)
  processed : Table (String × String) ProcessedMutationRow (fun r => (r.accountId,r.mutationId))
  blobs : BlobTable

def Server.newInMemory : Server := ⟨.newInMemory,.empty,.empty,.empty,.empty,.empty⟩

def Server.store (s : Server) : ServerDb := ⟨s.accounts,s.objects,s.history,s.sequences,s.processed⟩

def Server.withStore (s : Server) (db : ServerDb) : Server :=
  {s with accounts := db.accounts, objects := db.objects, history := db.history, sequences := db.sequences, processed := db.processed}

def Server.withAuth (s : Server) (db : AuthDb) : Server := {s with toAuthDb := db}

def revokeAllSessionsForAccount (now : Nat) (account : String) (db : AuthDb) : Nat × AuthDb :=
  revokeSessions now account (fun _ => true) db

def revokeDeviceSessions (now : Nat) (account device : String) (db : AuthDb) : Nat × AuthDb :=
  revokeSessions now account (fun row => row.deviceId == some device) db

-- ORDER BY created_at ASC
def listDevices (account : String) (db : AuthDb) : List DeviceRow :=
  (db.devices.rows.filter (fun row => row.accountId == account)).insertionSort (fun a b => a.createdAt ≤ b.createdAt)

def Server.ensureAccount (account : String) (s : Server) : Server := s.withStore (ServerStore.ensureAccount s.store account)

-- The size is checked before the account is made sure of, the quota after.
def putBlob (account blobId : String) (data : List UInt8) (accountBlobQuota maxBlobSize : Nat) (s : Server) :
    Except ServerBlobs.DbError Nat × Server :=
  if maxBlobSize < data.length then (.error (.blobSizeExceeded maxBlobSize data.length),s)
  else match ServerBlobs.putBlob s.blobs account blobId data accountBlobQuota maxBlobSize with
    | .error failure => (.error failure,s.ensureAccount account)
    | .ok (size,blobs) => (.ok size,{s.ensureAccount account with blobs := blobs})

-- `ensureAccount` takes the connection by itself before most of the others, so
-- that another account's statements can come between.
inductive Operation where
  | ensureAccount
  | pushMutation (request : PushRequest)
  | pullChanges (after limit : Nat)
  | putBlob (blobId : String) (data : List UInt8) (accountBlobQuota maxBlobSize : Nat)
  | getBlob (blobId : String)
  | deleteBlob (blobId : String)
  | createSession (sessionId : String) (entropy : List UInt8) (device displayName : Option String) (expiresInSecs : Option Int)
  | validateSessionToken (token : String)
  | revokeSession (session : String)
  | revokeAllSessions
  | registerDevice (device : String) (displayName : Option String)
  | revokeDevice (device : String)
  | revokeDeviceSessions (device : String)
  | isDeviceRevoked (device : String)
  | listDevices
  deriving DecidableEq, Repr

inductive Answer where
  | done
  | pushed (result : Except ServerStore.DbError PushOutcome)
  | pulled (page : PullChangesResponse)
  | put (result : Except ServerBlobs.DbError Nat)
  | got (data : Option (List UInt8))
  | deleted (existed : Bool)
  | created (result : Except SshAuth.DbError (AuthenticatedSession × String))
  | validated (result : Option SessionValidationResult)
  | sessionRevoked (changed : Bool)
  | sessionsRevoked (count : Nat)
  | registered (device : Option DeviceRow)
  | isRevoked (revoked : Bool)
  | listed (devices : List DeviceRow)

structure Event where
  account : String
  now : Nat
  operation : Operation
  deriving DecidableEq, Repr

def perform (crates : Crates) (ssh : SshCrates) (account : String) (now : Nat) : Operation → Server → Answer × Server
  | .ensureAccount,s => (.done,s.ensureAccount account)
  | .pushMutation request,s =>
    let (result,db) := pushMutation crates s.store account request
    (.pushed result,s.withStore db)
  | .pullChanges after limit,s =>
    let (page,db) := pullChanges s.store account after limit
    (.pulled page,s.withStore db)
  | .putBlob blobId data accountBlobQuota maxBlobSize,s =>
    let (result,s) := putBlob account blobId data accountBlobQuota maxBlobSize s
    (.put result,s)
  | .getBlob blobId,s => (.got (getBlob s.blobs account blobId),s)
  | .deleteBlob blobId,s =>
    let (existed,blobs) := deleteBlob s.blobs account blobId
    (.deleted existed,{s with blobs := blobs})
  | .createSession sessionId entropy device displayName expiresInSecs,s =>
    let (db,result) := createSession ssh now sessionId entropy account device displayName expiresInSecs s.toAuthDb
    (.created result,s.withAuth db)
  | .validateSessionToken token,s => (.validated (validateSessionToken ssh now token s.toAuthDb),s)
  | .revokeSession session,s =>
    let (changed,db) := revokeSession now account session s.toAuthDb
    (.sessionRevoked changed,s.withAuth db)
  | .revokeAllSessions,s =>
    let (count,db) := revokeAllSessionsForAccount now account s.toAuthDb
    (.sessionsRevoked count,s.withAuth db)
  | .registerDevice device displayName,s =>
    let db := registerDevice now account device displayName s.toAuthDb
    (.registered (db.devices.find (account,device)),s.withAuth db)
  | .revokeDevice device,s => (.done,s.withAuth (WebauthnLogin.revokeDevice now account device s.toAuthDb))
  | .revokeDeviceSessions device,s =>
    let (count,db) := revokeDeviceSessions now account device s.toAuthDb
    (.sessionsRevoked count,s.withAuth db)
  | .isDeviceRevoked device,s => (.isRevoked (isDeviceRevoked account device s.toAuthDb),s)
  | .listDevices,s => (.listed (listDevices account s.toAuthDb),s)

def step (crates : Crates) (ssh : SshCrates) (e : Event) (s : Server) : Answer × Server := perform crates ssh e.account e.now e.operation s

-- The server draws a session's id and token; a token that is validated is
-- looked for in the same column.
def drawnId : Operation → Option String
  | .createSession sessionId .. => some sessionId
  | _ => none

def drawnHash (ssh : SshCrates) : Operation → Option (List UInt8)
  | .createSession _ entropy .. => some (tokenHash ssh (rawToken ssh entropy))
  | _ => none

def soughtHash (ssh : SshCrates) : Operation → Option (List UInt8)
  | .validateSessionToken token => some (tokenHash ssh token)
  | operation => drawnHash ssh operation

end ZkNote.AccountServer
