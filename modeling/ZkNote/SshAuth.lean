import ZkNote.ServerStore
import ZkNote.StdText

namespace ZkNote.SshAuth
open KeyedTable ServerStore StdText

-- What the crates outside the repository decide: OpenSSH keys and signatures,
-- the two Base64 alphabets without padding, and the token digest.
structure PublicKey where
  algorithm : String
  canonical : String
  fingerprint : String
  deriving DecidableEq, Repr

structure Signature where
  algorithm : String
  data : List UInt8
  deriving DecidableEq, Repr

structure SshCrates where
  fromOpenssh : String → Option PublicKey
  parsesFingerprint : String → Bool
  signatureFrom : List UInt8 → Option Signature
  verifies : PublicKey → List UInt8 → Signature → Bool
  decodeBase64 : String → Option (List UInt8)
  encodeBase64 : List UInt8 → String
  decodeBase64Url : String → Option (List UInt8)
  encodeBase64Url : List UInt8 → String
  uuidBytes : String → List UInt8
  blake2s : List UInt8 → List UInt8

def nilUuid : String := "00000000-0000-0000-0000-000000000000"
def sshAuthVersion : Nat := 1
def sshAuthDomain : String := "zk-note-ssh-auth-v1"

-- The canonical spelling of an Ed25519 key and its fingerprint.
def parsePublicKey (crates : SshCrates) (input : String) : Option PublicKey :=
  if input.utf8ByteSize > 4096 then none
  else if (trim input).toList.any isControl then none
  else match crates.fromOpenssh (trim input) with
    | none => none
    | some key => if key.algorithm ≠ "ssh-ed25519" then none else some key

def verifySignature (crates : SshCrates) (publicKey : String) (message : List UInt8) (encodedSignature : String) : Bool :=
  match parsePublicKey crates publicKey with
  | none => false
  | some key =>
    if encodedSignature.utf8ByteSize > 1024 then false
    else match (crates.decodeBase64Url encodedSignature).bind crates.signatureFrom with
      | none => false
      | some signature => signature.algorithm == "ssh-ed25519" && crates.verifies key message signature

structure SshStartRequest where
  version : Nat
  fingerprint : String
  audience : String
  accountId : Option String
  deviceId : String
  deriving DecidableEq, Repr

structure SshChallenge where
  request : SshStartRequest
  challengeId : String
  nonce : String
  expiresAt : Nat
  deriving DecidableEq, Repr

structure SshFinishRequest where
  challenge : SshChallenge
  signature : String
  deriving DecidableEq, Repr

def toBeBytes (width n : Nat) : List UInt8 := (toLeBytes width n).reverse

def appendString (value : String) : List UInt8 := toBeBytes 4 value.utf8ByteSize ++ asBytes value

def asciiPlain (c : Char) : Bool := decide (0x21 ≤ c.toNat ∧ c.toNat ≤ 0x7e)

-- The bytes a proof signs; none where a field is not canonical.
def signingBytes (crates : SshCrates) (c : SshChallenge) : Option (List UInt8) :=
  let r := c.request
  if r.fingerprint.utf8ByteSize ≠ 50 ∨ c.nonce.utf8ByteSize ≠ 43 then none
  else if startsWith r.fingerprint "SHA256:" = false then none
  else
    let fingerprint := String.ofList (r.fingerprint.toList.drop 7)
    match crates.decodeBase64 fingerprint, crates.decodeBase64Url c.nonce with
    | some digest,some nonce =>
      if r.version ≠ sshAuthVersion ∨ r.deviceId = nilUuid ∨ c.challengeId = nilUuid ∨ r.accountId = some nilUuid ∨ c.expiresAt = 0 ∨
          nonce.length ≠ 32 ∨ digest.length ≠ 32 ∨ crates.encodeBase64 digest ≠ fingerprint ∨ crates.encodeBase64Url nonce ≠ c.nonce ∨
          r.audience.utf8ByteSize > 2048 ∨ r.audience.toList.all asciiPlain = false ∨
          (startsWith r.audience "https://" || startsWith r.audience "http://") = false then none
      else some (appendString sshAuthDomain ++ toBeBytes 4 r.version ++ appendString r.audience ++ appendString r.fingerprint ++
        (match r.accountId with
          | some account => 1 :: crates.uuidBytes account
          | none => [0]) ++
        crates.uuidBytes r.deviceId ++ crates.uuidBytes c.challengeId ++ nonce ++ toBeBytes 8 c.expiresAt)
    | _,_ => none

-- Rows. Times are whole seconds, as both `CURRENT_TIMESTAMP` and the proof's
-- clock count them.
structure DeviceRow where
  accountId : String
  deviceId : String
  displayName : Option String
  createdAt : Nat
  lastSeen : Nat
  lastAckServerSeq : Nat
  revokedAt : Option Nat
  deriving DecidableEq, Repr

structure SessionRow where
  sessionId : String
  accountId : String
  deviceId : Option String
  tokenHash : List UInt8
  displayName : Option String
  createdAt : Nat
  expiresAt : Option Int
  revokedAt : Option Nat
  sshCredentialId : Option String
  deriving DecidableEq, Repr

structure CredentialRow where
  credentialId : String
  accountId : String
  fingerprint : String
  publicKey : String
  label : Option String
  deviceId : Option String
  createdAt : Nat
  revokedAt : Option Nat
  deriving DecidableEq, Repr

-- The JSON column holds the challenge it serialises.
structure ChallengeRow where
  challengeId : String
  purpose : String
  challenge : SshChallenge
  expiresAt : Nat
  credentialId : Option String
  deriving DecidableEq, Repr

structure AuthDb where
  accounts : Table String AccountRow (·.id)
  devices : Table (String × String) DeviceRow (fun r => (r.accountId,r.deviceId))
  sessions : Table String SessionRow (·.sessionId)
  credentials : Table String CredentialRow (·.credentialId)
  challenges : Table String ChallengeRow (·.challengeId)

def AuthDb.newInMemory : AuthDb := ⟨.empty,.empty,.empty,.empty,.empty⟩

inductive DbError where
  | sqlite (message : String)
  | schemaVerificationFailed (message : String)
  | sshAuthFailed
  | sshAccountNotFound
  | sshCredentialAlreadyExists
  | challengeNotFound
  deriving DecidableEq, Repr

structure SshCredential where
  credentialId : String
  fingerprint : String
  label : Option String
  deviceId : Option String
  revoked : Bool
  deriving DecidableEq, Repr

def activeAccount (accounts : Table String AccountRow (·.id)) (account : String) : Bool :=
  (accounts.find account).any (fun row => row.status == "active")

-- `id` is a new uuid. What fails leaves the transaction, and so nothing.
def addSshKey (crates : SshCrates) (now : Nat) (id account publicKey : String) (label : Option String) (createAccount : Bool) (db : AuthDb) :
    Except DbError (AuthDb × SshCredential) :=
  match parsePublicKey crates publicKey with
  | none => .error .sshAuthFailed
  | some key =>
    if label.any (fun text => decide (text.utf8ByteSize > 128) || text.toList.any isControl) then .error .sshAuthFailed
    else match (if createAccount then db.accounts.insert ⟨account,"active"⟩ else some db.accounts) with
      | none => .error (.sqlite "UNIQUE constraint failed: accounts.id")
      | some accounts =>
        if activeAccount accounts account = false then .error .sshAccountNotFound
        else if db.credentials.rows.any (fun row => row.fingerprint == key.fingerprint || row.publicKey == key.canonical) then
          .error .sshCredentialAlreadyExists
        else match db.credentials.insert ⟨id,account,key.fingerprint,key.canonical,label,none,now,none⟩ with
          | none => .error (.sqlite "UNIQUE constraint failed: ssh_credentials.credential_id")
          | some credentials => .ok ({db with accounts := accounts, credentials := credentials},⟨id,key.fingerprint,label,none,false⟩)

-- COALESCE(revoked_at, CURRENT_TIMESTAMP)
def SessionRow.revoke (now : Nat) (row : SessionRow) : SessionRow := {row with revokedAt := some (row.revokedAt.getD now)}
def DeviceRow.revoke (now : Nat) (row : DeviceRow) : DeviceRow := {row with revokedAt := some (row.revokedAt.getD now)}
def CredentialRow.revoke (now : Nat) (row : CredentialRow) : CredentialRow := {row with revokedAt := some (row.revokedAt.getD now)}

theorem session_key (now : Nat) (row : SessionRow) : (row.revoke now).sessionId = row.sessionId := rfl
theorem device_key (now : Nat) (row : DeviceRow) : ((row.revoke now).accountId,(row.revoke now).deviceId) = (row.accountId,row.deviceId) := rfl
theorem credential_key (now : Nat) (row : CredentialRow) : (row.revoke now).credentialId = row.credentialId := rfl
theorem revoked_id (now : Nat) (row : SessionRow) : {row with revokedAt := some now}.sessionId = row.sessionId := rfl

def pinnedDevice (db : AuthDb) (account credential : String) : Option String :=
  ((db.credentials.find credential).filter (fun row => row.accountId == account)).bind (·.deviceId)

-- A lost machine's pinned device and all its sessions are revoked too.
def revokeSshKey (now : Nat) (account credential : String) (db : AuthDb) : AuthDb × Bool :=
  let device := pinnedDevice db account credential
  ({db with
    credentials := db.credentials.update (fun row => row.accountId == account && row.credentialId == credential) (CredentialRow.revoke now)
      (credential_key now)
    devices := db.devices.update (fun row => row.accountId == account && device == some row.deviceId) (DeviceRow.revoke now) (device_key now)
    sessions := (db.sessions.update (fun row => row.accountId == account && (device.isSome && row.deviceId == device)) (SessionRow.revoke now)
      (session_key now)).update (fun row => row.accountId == account && row.sshCredentialId == some credential) (SessionRow.revoke now)
      (session_key now)},
    (db.credentials.find credential).any (fun row => row.accountId == account))

-- The new session carries the key of the one that asked for it, or is revoked.
def inheritSshCredential (now : Nat) (account source target : String) (db : AuthDb) : AuthDb × Except DbError Unit :=
  let mine (row : SessionRow) : Bool := row.accountId == account && row.sessionId == target
  let credential := ((db.sessions.find source).filter (fun row =>
    row.accountId == account && row.revokedAt.isNone && row.expiresAt.all (fun expires => decide ((now : Int) < expires)))).map (·.sshCredentialId)
  let carried := match credential with
    | some key => db.sessions.update mine (fun row => {row with sshCredentialId := key}) (fun _ => rfl)
    | none => db.sessions
  let valid : Bool := match credential with
    | some (some key) => (db.credentials.find key).any (·.revokedAt.isNone)
    | some none => true
    | none => false
  if valid then ({db with sessions := carried},.ok ())
  else ({db with sessions := carried.update mine (fun row => {row with revokedAt := some now}) (fun _ => rfl)},.error .sshAuthFailed)

-- `timestamp` is read before the connection's lock is taken.
def startSshLogin (crates : SshCrates) (audience : String) (timestamp : Nat) (entropy : List UInt8) (challengeId : String)
    (request : SshStartRequest) (db : AuthDb) : AuthDb × Except DbError SshChallenge :=
  if request.version ≠ sshAuthVersion ∨ request.audience ≠ audience ∨ request.deviceId = nilUuid ∨
      request.fingerprint.utf8ByteSize > 100 ∨ crates.parsesFingerprint request.fingerprint = false then (db,.error .sshAuthFailed)
  else
    let challenge : SshChallenge := ⟨request,challengeId,crates.encodeBase64Url entropy,timestamp + 120⟩
    if (signingBytes crates challenge).isNone then (db,.error .sshAuthFailed)
    else
      let credential := (db.credentials.rows.find? (fun row =>
        row.fingerprint == request.fingerprint && row.revokedAt.isNone && activeAccount db.accounts row.accountId)).map (·.credentialId)
      let kept := db.challenges.delete (fun row => decide (row.expiresAt ≤ timestamp))
      match kept.insert ⟨challengeId,"login-v1",challenge,challenge.expiresAt,credential⟩ with
      | none => ({db with challenges := kept},.error (.sqlite "UNIQUE constraint failed: ssh_challenges.challenge_id"))
      | some challenges => ({db with challenges := challenges},.ok challenge)

def registerDeviceOn (now : Nat) (account device : String) (displayName : Option String) (db : AuthDb) : AuthDb :=
  {db with devices := db.devices.upsert (match db.devices.find (account,device) with
    | some row => {row with displayName := displayName.or row.displayName, lastSeen := now}
    | none => ⟨account,device,displayName,now,now,0,none⟩)}

def isDeviceRevoked (account device : String) (db : AuthDb) : Bool :=
  ((db.devices.find (account,device)).map (·.revokedAt.isSome)).getD false

structure AuthenticatedSession where
  sessionId : String
  accountId : String
  deviceId : Option String
  displayName : Option String
  createdAt : Nat
  expiresAt : Option Int
  isRevoked : Bool
  deriving DecidableEq, Repr

def rawToken (crates : SshCrates) (entropy : List UInt8) : String := "zk_sess_" ++ crates.encodeBase64Url entropy

def tokenHash (crates : SshCrates) (token : String) : List UInt8 := crates.blake2s (asBytes token)

-- What SQLite's `datetime` makes of a time: nothing before 4714 BC or after the
-- year 9999.
def datetime (seconds : Int) : Option Int := if -210866760000 ≤ seconds ∧ seconds < 253402300800 then some seconds else none

-- Both columns of the insert are unique: the id, and the digest.
def createSessionOn (crates : SshCrates) (now : Nat) (sessionId : String) (entropy : List UInt8) (account : String) (device : Option String)
    (displayName : Option String) (expiresInSecs : Option Int) (db : AuthDb) : Except DbError (AuthDb × AuthenticatedSession × String) :=
  let registered := match device with
    | some device => registerDeviceOn now account device displayName db
    | none => db
  if device.any (fun device => isDeviceRevoked account device registered) then
    .error (.schemaVerificationFailed "cannot create session for a revoked device")
  else
    let token := rawToken crates entropy
    let expires := expiresInSecs.bind (fun secs => datetime (now + secs))
    if registered.sessions.rows.any (fun row => row.tokenHash == tokenHash crates token) then
      .error (.sqlite "UNIQUE constraint failed: sessions.token_hash")
    else match registered.sessions.insert ⟨sessionId,account,device,tokenHash crates token,displayName,now,expires,none,none⟩ with
      | none => .error (.sqlite "UNIQUE constraint failed: sessions.session_id")
      | some sessions => .ok ({registered with sessions := sessions},⟨sessionId,account,device,displayName,now,expires,false⟩,token)

structure SessionResponse where
  token : String
  sessionId : String
  accountId : String
  deviceId : Option String
  expiresAt : Option Int
  deriving DecidableEq, Repr

-- The active credential that a stored challenge is linked to.
def linkedCredential (db : AuthDb) (row : ChallengeRow) : Option CredentialRow :=
  db.credentials.rows.find? (fun c => c.fingerprint == row.challenge.request.fingerprint && some c.credentialId == row.credentialId &&
    c.revokedAt.isNone && activeAccount db.accounts c.accountId)

-- The second transaction, once the proof's challenge is used up.
def issueSession (crates : SshCrates) (now : Nat) (sessionId : String) (entropy : List UInt8) (req : SshFinishRequest) (row : ChallengeRow)
    (db : AuthDb) : Except DbError (AuthDb × SessionResponse) :=
  match linkedCredential db row with
  | none => .error .sshAuthFailed
  | some credential =>
    let device := row.challenge.request.deviceId
    if row.challenge.request.accountId.any (· != credential.accountId) || credential.deviceId.any (· != device) then .error .sshAuthFailed
    else if isDeviceRevoked credential.accountId device db then .error .sshAuthFailed
    else match signingBytes crates row.challenge with
      | none => .error .sshAuthFailed
      | some message =>
        if verifySignature crates credential.publicKey message req.signature = false then .error .sshAuthFailed
        else match createSessionOn crates now sessionId entropy credential.accountId (some device) (some "SSH native client") (some 3600) db with
          | .error failure => .error failure
          | .ok (issued,session,token) =>
            .ok ({issued with
              credentials := issued.credentials.update (fun c => c.credentialId == credential.credentialId)
                (fun c => {c with deviceId := some device}) (fun _ => rfl)
              sessions := issued.sessions.update (fun s => s.sessionId == session.sessionId)
                (fun s => {s with sshCredentialId := some credential.credentialId}) (fun _ => rfl)},
              ⟨token,session.sessionId,credential.accountId,some device,session.expiresAt⟩)

-- The challenge goes first, in a transaction of its own, so that a bad proof
-- cannot try it again.
def finishSshLogin (crates : SshCrates) (audience : String) (now : Nat) (sessionId : String) (entropy : List UInt8) (req : SshFinishRequest)
    (db : AuthDb) : AuthDb × Except DbError SessionResponse :=
  match db.challenges.find req.challenge.challengeId with
  | none => (db,.error .challengeNotFound)
  | some row =>
    let consumed := {db with challenges := db.challenges.delete (fun r => decide (r.challengeId = req.challenge.challengeId))}
    if row.purpose ≠ "login-v1" then (consumed,.error .sshAuthFailed)
    else if row.challenge ≠ req.challenge ∨ row.challenge.expiresAt ≤ now ∨ row.challenge.request.audience ≠ audience ∨
        row.challenge.request.version ≠ sshAuthVersion then (consumed,.error .challengeNotFound)
    else match issueSession crates now sessionId entropy req row consumed with
      | .error failure => (consumed,.error failure)
      | .ok (issued,response) => (issued,.ok response)

inductive SessionValidationResult where
  | valid (accountId : String) (deviceId : Option String) (sessionId : String)
  | expired
  | revoked
  | deviceRevoked
  deriving DecidableEq, Repr

def validateSessionToken (crates : SshCrates) (now : Nat) (token : String) (db : AuthDb) : Option SessionValidationResult :=
  (db.sessions.rows.find? (fun row => row.tokenHash == tokenHash crates token)).map (fun row =>
    if row.deviceId.any (fun device => isDeviceRevoked row.accountId device db) then .deviceRevoked
    else if row.revokedAt.isSome then .revoked
    else if row.expiresAt.any (fun expires => decide (expires ≤ (now : Int))) then .expired
    else .valid row.accountId row.deviceId row.sessionId)

structure AuthenticatedAccount where
  accountId : String
  deviceId : Option String
  sessionId : Option String
  deriving DecidableEq, Repr

inductive AuthError where
  | invalidToken
  | expiredToken
  | revokedToken
  | deviceRevoked
  | forbiddenAccountAccess
  deriving DecidableEq, Repr

def authenticateBearerToken (crates : SshCrates) (now : Nat) (token : String) (db : AuthDb) : Except AuthError AuthenticatedAccount :=
  match validateSessionToken crates now token db with
  | some (.valid account device session) => .ok ⟨account,device,some session⟩
  | some .expired => .error .expiredToken
  | some .revoked => .error .revokedToken
  | some .deviceRevoked => .error .deviceRevoked
  | none => .error .invalidToken

def ownerIdentity (crates : SshCrates) (now : Nat) (token account : String) (db : AuthDb) : Except AuthError AuthenticatedAccount :=
  match authenticateBearerToken crates now token db with
  | .error failure => .error failure
  | .ok auth => if auth.accountId ≠ account then .error .forbiddenAccountAccess else .ok auth

def ensureAccount (account : String) (db : AuthDb) : AuthDb :=
  match db.accounts.find account with
  | some _ => db
  | none => {db with accounts := db.accounts.upsert ⟨account,"active"⟩}

def registerDevice (now : Nat) (account device : String) (displayName : Option String) (db : AuthDb) : AuthDb :=
  registerDeviceOn now account device displayName (ensureAccount account db)

def createSession (crates : SshCrates) (now : Nat) (sessionId : String) (entropy : List UInt8) (account : String) (device : Option String)
    (displayName : Option String) (expiresInSecs : Option Int) (db : AuthDb) : AuthDb × Except DbError (AuthenticatedSession × String) :=
  match createSessionOn crates now sessionId entropy account device displayName expiresInSecs (ensureAccount account db) with
  | .error failure => (ensureAccount account db,.error failure)
  | .ok (created,session,token) => (created,.ok (session,token))

end ZkNote.SshAuth
