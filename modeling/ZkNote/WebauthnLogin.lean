import ZkNote.SshSessions

namespace ZkNote.WebauthnLogin
open KeyedTable SshAuth SshSessions StdText

structure ClientData where
  kind : String
  challenge : String
  origin : String
  crossOrigin : Bool
  deriving DecidableEq, Repr

-- The crates behind WebAuthn: unpadded Base64url and padded Base64, JSON, CBOR
-- (whether all of the bytes are one map), SHA-256, and ES256 over a DER signature.
structure WebCrates where
  decodeUrl : String → Option (List UInt8)
  decodeStandard : String → Option (List UInt8)
  parseClientData : List UInt8 → Option ClientData
  cborMap : List UInt8 → Bool
  sha256 : List UInt8 → List UInt8
  verifies : List UInt8 → List UInt8 → List UInt8 → Bool

structure WebauthnLoginFinishRequest where
  challengeId : String
  credentialId : String
  authenticatorData : Option String
  clientDataJson : Option String
  signature : String
  deviceId : Option String
  deriving DecidableEq, Repr

def decode (w : WebCrates) (input : String) : Option (List UInt8) :=
  if 32768 < input.utf8ByteSize then none else w.decodeUrl input

def decodeBase64Flexible (w : WebCrates) (input : String) : Option (List UInt8) :=
  let trimmed := trim input
  let padded := match trimmed.utf8ByteSize % 4 with
    | 2 => trimmed ++ "=="
    | 3 => trimmed ++ "="
    | _ => trimmed
  ((w.decodeUrl trimmed).or (w.decodeStandard trimmed)).or (w.decodeStandard padded)

def clientData (w : WebCrates) (encoded : Option String) (challenge : List UInt8) (origin kind : String) : Option (List UInt8) := do
  let bytes ← decode w (← encoded)
  let data ← w.parseClientData bytes
  if data.kind ≠ kind ∨ data.origin ≠ origin ∨ data.crossOrigin = true then none
  else if (← decode w data.challenge) ≠ challenge then none
  else return bytes

def fromBeBytes (bytes : List UInt8) : Nat := bytes.foldl (fun n byte => n * 256 + byte.toNat) 0

-- Flags: user present and verified, no reserved bit, a backup state only of what
-- may be backed up, attested data on registration only.
def authData (w : WebCrates) (bytes : List UInt8) (rp : String) (registration : Bool) : Option Nat :=
  let flags := bytes.getD 32 0
  if bytes.length < 37 ∨ bytes.take 32 ≠ w.sha256 (ServerStore.asBytes rp) then none
  else if flags &&& 5 ≠ 5 ∨ flags &&& 0x22 ≠ 0 ∨ (flags &&& 0x10 ≠ 0 ∧ flags &&& 8 = 0) ∨ decide (flags &&& 0x40 ≠ 0) ≠ registration then none
  else some (fromBeBytes ((bytes.drop 33).take 4))

def extensions (w : WebCrates) (bytes : List UInt8) (flags : UInt8) : Option Unit :=
  if flags &&& 0x80 ≠ 0 then (if w.cborMap bytes then some () else none)
  else if bytes = [] then some () else none

-- Challenge, origin, RP, flags, counter, signature; the new counter.
def login (w : WebCrates) (req : WebauthnLoginFinishRequest) (challenge : List UInt8) (rp origin : String) (key : List UInt8) (oldCount : Nat) :
    Option Nat := do
  let client ← clientData w req.clientDataJson challenge origin "webauthn.get"
  let data ← decode w (← req.authenticatorData)
  let count ← authData w data rp false
  extensions w (data.drop 37) (data.getD 32 0)
  if (count ≠ 0 ∨ oldCount ≠ 0) ∧ count ≤ oldCount then none
  else
    let signature ← decode w req.signature
    if w.verifies key (data ++ w.sha256 client) signature then return count else none

structure ChallengeRecord where
  challengeId : String
  challenge : List UInt8
  accountId : Option String
  purpose : String
  expiresAt : Nat
  deriving DecidableEq, Repr

structure CredentialRecord where
  credentialId : List UInt8
  accountId : String
  publicKey : List UInt8
  signCount : Nat
  deviceId : Option String
  displayName : Option String
  lastUsedAt : Option Nat
  deriving DecidableEq, Repr

abbrev Challenges := Table String ChallengeRecord (·.challengeId)
abbrev Credentials := Table (List UInt8) CredentialRecord (·.credentialId)

inductive ChallengeError where
  | challengeExpired
  | challengeNotFound
  deriving DecidableEq, Repr

-- DELETE .. WHERE challenge_id AND purpose RETURNING: an expired row goes too.
def consumeWebauthnChallenge (now : Nat) (id purpose : String) (challenges : Challenges) : Except ChallengeError ChallengeRecord × Challenges :=
  match (challenges.find id).filter (fun row => row.purpose == purpose) with
  | none => (.error .challengeNotFound,challenges)
  | some row =>
    (if row.expiresAt ≤ now then .error .challengeExpired else .ok row,challenges.delete (fun r => decide (r.challengeId = id)))

-- UPDATE .. WHERE credential_id AND sign_count; whether it hit the row.
def advanceWebauthnCounter (now : Nat) (credentialId : List UInt8) (old new : Nat) (credentials : Credentials) : Bool × Credentials :=
  ((credentials.find credentialId).any (fun row => row.signCount == old),
    credentials.update (fun row => row.credentialId == credentialId && row.signCount == old)
      (fun row => {row with signCount := new,lastUsedAt := some now}) (fun _ => rfl))

inductive LoginError where
  | challengeExpired
  | challengeNotFound
  | invalidCredentialId
  | verificationFailed
  | credentialNotFound
  | authRequired
  | deviceRevoked
  | sessionCreationFailed
  | databaseError
  deriving DecidableEq, Repr

-- How far a login/finish handler has come; each step holds the connection once.
inductive LoginStage where
  | received
  | consumed (record : ChallengeRecord)
  | verified (credential : CredentialRecord) (count : Nat)
  | cleared (credential : CredentialRecord) (count : Nat)
  | advanced (credential : CredentialRecord) (count : Nat)
  | answered (result : Except LoginError SessionResponse)

structure Login where
  request : WebauthnLoginFinishRequest
  stage : LoginStage

inductive Effect where
  | opened (challengeId : String)
  | consumed (login : Nat) (challengeId : String)
  | stored (login : Nat) (credentialId : List UInt8) (old new : Nat)
  | loggedIn (login : Nat) (credentialId : List UInt8) (count : Nat) (response : SessionResponse)
  | issued (response : SessionResponse)
  deriving DecidableEq, Repr

-- The authentication side of one native server.
structure AuthSystem where
  ssh : SshSessions.State
  challenges : Challenges
  credentials : Credentials
  logins : List Login
  effects : List Effect

def AuthSystem.opened (now : Nat) : AuthSystem := ⟨SshSessions.opened now,.empty,.empty,[],[]⟩

structure Config where
  crates : SshCrates
  web : WebCrates
  audience : String
  rpId : String
  origin : String

-- Steps 3 to 6 once the challenge is used up: what follows the credential's row
-- without another statement.
def lookUp (cfg : Config) (req : WebauthnLoginFinishRequest) (record : ChallengeRecord) (credentials : Credentials) : LoginStage :=
  match decodeBase64Flexible cfg.web req.credentialId with
  | none => .answered (.error .invalidCredentialId)
  | some [] => .answered (.error .invalidCredentialId)
  | some credentialId =>
    if (decodeBase64Flexible cfg.web req.signature).isNone then .answered (.error .verificationFailed)
    else match credentials.find credentialId with
      | none => .answered (.error .credentialNotFound)
      | some credential =>
        if record.accountId.any (· != credential.accountId) then .answered (.error .authRequired)
        else match login cfg.web req record.challenge cfg.rpId cfg.origin credential.publicKey credential.signCount with
          | none => .answered (.error .verificationFailed)
          | some count => if credential.deviceId.isSome then .verified credential count else .cleared credential count

def AuthSystem.setAuth (s : AuthSystem) (db : AuthDb) : AuthSystem := {s with ssh := {s.ssh with db := db}}

def AuthSystem.stageAt (s : AuthSystem) (i : Nat) (req : WebauthnLoginFinishRequest) (stage : LoginStage) : AuthSystem :=
  {s with logins := s.logins.set i ⟨req,stage⟩}

def AuthSystem.note (s : AuthSystem) (effects : List Effect) : AuthSystem := {s with effects := s.effects ++ effects}

-- The next database step of login `i`.
def proceed (cfg : Config) (i : Nat) (sessionId : String) (entropy : List UInt8) (call : Login) (s : AuthSystem) : AuthSystem :=
  match call.stage with
  | .received =>
    match consumeWebauthnChallenge s.ssh.now call.request.challengeId "login" s.challenges with
    | (.ok record,challenges) =>
      ({s with challenges := challenges}.stageAt i call.request (.consumed record)).note [.consumed i call.request.challengeId]
    | (.error .challengeExpired,challenges) =>
      {s with challenges := challenges}.stageAt i call.request (.answered (.error .challengeExpired))
    | (.error .challengeNotFound,challenges) =>
      {s with challenges := challenges}.stageAt i call.request (.answered (.error .challengeNotFound))
  | .consumed record => s.stageAt i call.request (lookUp cfg call.request record s.credentials)
  | .verified credential count =>
    if credential.deviceId.any (fun device => isDeviceRevoked credential.accountId device s.ssh.db) then
      s.stageAt i call.request (.answered (.error .deviceRevoked))
    else s.stageAt i call.request (.cleared credential count)
  | .cleared credential count =>
    match advanceWebauthnCounter s.ssh.now credential.credentialId credential.signCount count s.credentials with
    | (true,credentials) =>
      ({s with credentials := credentials}.stageAt i call.request (.advanced credential count)).note
        [.stored i credential.credentialId credential.signCount count]
    | (false,credentials) => {s with credentials := credentials}.stageAt i call.request (.answered (.error .verificationFailed))
  | .advanced credential count =>
    match createSession cfg.crates s.ssh.now sessionId entropy credential.accountId (credential.deviceId.or call.request.deviceId)
        credential.displayName none s.ssh.db with
    | (db,.error _) => (s.setAuth db).stageAt i call.request (.answered (.error .sessionCreationFailed))
    | (db,.ok (session,token)) =>
      let response : SessionResponse :=
        ⟨token,session.sessionId,credential.accountId,credential.deviceId.or call.request.deviceId,session.expiresAt⟩
      ((s.setAuth db).stageAt i call.request (.answered (.ok response))).note [.loggedIn i credential.credentialId count response]
  | .answered _ => s

-- UPDATE sessions .. WHERE account_id AND .. AND revoked_at IS NULL, and how
-- many rows it changed.
def revokeSessions (now : Nat) (account : String) (which : SessionRow → Bool) (db : AuthDb) : Nat × AuthDb :=
  let hit (row : SessionRow) : Bool := row.accountId == account && which row && row.revokedAt.isNone
  ((db.sessions.rows.filter hit).length,
    {db with sessions := db.sessions.update hit (fun row => {row with revokedAt := some now}) (revoked_id now)})

def revokeSession (now : Nat) (account session : String) (db : AuthDb) : Bool × AuthDb :=
  let (changed,db) := revokeSessions now account (fun row => row.sessionId == session) db
  (decide (0 < changed),db)

def revokeDevice (now : Nat) (account device : String) (db : AuthDb) : AuthDb :=
  {db with
    devices := db.devices.update (fun row => row.accountId == account && row.deviceId == device) (fun row => {row with revokedAt := some now})
      (fun _ => rfl)
    sessions := db.sessions.update (fun row => row.accountId == account && row.deviceId == some device && row.revokedAt.isNone)
      (fun row => {row with revokedAt := some now}) (revoked_id now)}

inductive Action where
  | ssh (action : SshSessions.Action)
  | registerDevice (account device : String) (displayName : Option String)
  | createSession (sessionId : String) (entropy : List UInt8) (account : String) (device displayName : Option String) (expiresInSecs : Option Int)
  | revokeSession (account session : String)
  | revokeDevice (account device : String)
  | createChallenge (id : String) (challenge : List UInt8) (account : Option String) (purpose : String) (ttlSeconds : Nat)
  | consumeChallenge (id purpose : String)
  | registerCredential (id : List UInt8) (account : String) (publicKey : List UInt8) (device displayName : Option String)
  | receive (request : WebauthnLoginFinishRequest)
  | proceed (login : Nat) (sessionId : String) (entropy : List UInt8)
  | breakOff (login : Nat)

-- `consumeChallenge` is the registration handler's; `breakOff` a statement of a
-- login that the database fails.
def perform (cfg : Config) : Action → AuthSystem → AuthSystem
  | .ssh action,s => {s with ssh := SshSessions.perform cfg.crates cfg.audience action s.ssh}
  | .registerDevice account device displayName,s => s.setAuth (registerDevice s.ssh.now account device displayName s.ssh.db)
  | .createSession sessionId entropy account device displayName expiresInSecs,s =>
    match createSession cfg.crates s.ssh.now sessionId entropy account device displayName expiresInSecs s.ssh.db with
    | (db,.error _) => s.setAuth db
    | (db,.ok (session,token)) => (s.setAuth db).note [.issued ⟨token,session.sessionId,account,device,session.expiresAt⟩]
  | .revokeSession account session,s => s.setAuth (revokeSession s.ssh.now account session s.ssh.db).2
  | .revokeDevice account device,s => s.setAuth (revokeDevice s.ssh.now account device s.ssh.db)
  | .createChallenge id challenge account purpose ttlSeconds,s =>
    match s.challenges.insert ⟨id,challenge,account,purpose,s.ssh.now + ttlSeconds⟩ with
    | none => s
    | some challenges => {s with challenges := challenges}.note [.opened id]
  | .consumeChallenge id purpose,s => {s with challenges := (consumeWebauthnChallenge s.ssh.now id purpose s.challenges).2}
  | .registerCredential id account publicKey device displayName,s =>
    let s := s.setAuth (ensureAccount account s.ssh.db)
    match s.credentials.insert ⟨id,account,publicKey,0,device,displayName,none⟩ with
    | none => s
    | some credentials => {s with credentials := credentials}
  | .receive request,s => {s with logins := s.logins ++ [⟨request,.received⟩]}
  | .proceed i sessionId entropy,s =>
    match s.logins[i]? with
    | none => s
    | some call => proceed cfg i sessionId entropy call s
  | .breakOff i,s =>
    match s.logins[i]? with
    | none => s
    | some call =>
      match call.stage with
      | .answered _ => s
      | _ => s.stageAt i call.request (.answered (.error .databaseError))

def performAll (cfg : Config) (actions : List Action) (s : AuthSystem) : AuthSystem := actions.foldl (fun s action => perform cfg action s) s

-- What every action keeps holds after all of them.
theorem performAll_invariant {cfg : Config} {s : AuthSystem} (Inv : AuthSystem → Prop) (keeps : ∀ action s, Inv s → Inv (perform cfg action s))
    (actions : List Action) (start : Inv s) : Inv (performAll cfg actions s) :=
  List.foldlRecOn actions (fun s action => perform cfg action s) start (fun s kept action _ => keeps action s kept)

end ZkNote.WebauthnLogin
