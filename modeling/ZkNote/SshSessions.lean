import ZkNote.Runs
import ZkNote.SshAuth

namespace ZkNote.SshSessions
open KeyedTable SshAuth Runs

structure DeviceAuthRequest where
  accountId : String
  deviceId : String
  deviceName : Option String
  deriving DecidableEq, Repr

-- How far the device_authorize handler has come; each step is one holding of the
-- connection's lock.
inductive Stage where
  | authenticated
  | checked
  | registered
  | created (session : AuthenticatedSession) (token : String)
  | answered
  deriving DecidableEq, Repr

structure Call where
  request : DeviceAuthRequest
  caller : AuthenticatedAccount
  stage : Stage
  deriving DecidableEq, Repr

-- What clients see: a challenge, a finish that used one up, a session from it, a
-- session from device_authorize, a revocation that found its key.
inductive Event where
  | started (challenge : SshChallenge)
  | attempted (challengeId : String)
  | loggedIn (challengeId credential : String) (response : SessionResponse)
  | authorized (caller : AuthenticatedAccount) (response : SessionResponse)
  | revoked (account credential : String)
  deriving DecidableEq, Repr

structure State where
  db : AuthDb
  now : Nat
  calls : List Call
  trace : List Event

def opened (now : Nat) : State := ⟨.newInMemory,now,[],[]⟩

inductive Action where
  | addSshKey (id account publicKey : String) (label : Option String) (createAccount : Bool)
  | startSshLogin (timestamp : Nat) (entropy : List UInt8) (challengeId : String) (request : SshStartRequest)
  | finishSshLogin (sessionId : String) (entropy : List UInt8) (req : SshFinishRequest)
  | deviceAuthorize (token : String) (request : DeviceAuthRequest)
  | proceed (call : Nat) (sessionId : String) (entropy : List UInt8)
  | revokeSshKey (account credential : String)
  | advance (seconds : Nat)

def Call.respond (session : AuthenticatedSession) (token : String) : SessionResponse :=
  ⟨token,session.sessionId,session.accountId,session.deviceId,session.expiresAt⟩

-- The next transaction of a call, its next stage, and the answer if it is one.
def Call.proceed (crates : SshCrates) (now : Nat) (sessionId : String) (entropy : List UInt8) (call : Call) (db : AuthDb) :
    AuthDb × Stage × List Event :=
  let account := call.request.accountId
  match call.stage with
  | .authenticated => (db,if isDeviceRevoked account call.request.deviceId db then .answered else .checked,[])
  | .checked => (registerDevice now account call.request.deviceId call.request.deviceName db,.registered,[])
  | .registered =>
    match createSession crates now sessionId entropy account (some call.request.deviceId) call.request.deviceName (some 2592000) db with
    | (db,.error _) => (db,.answered,[])
    | (db,.ok (session,token)) => (db,.created session token,[])
  | .created session token =>
    match call.caller.sessionId with
    | none => (db,.answered,[.authorized call.caller (Call.respond session token)])
    | some source =>
      match inheritSshCredential now account source session.sessionId db with
      | (db,.error _) => (db,.answered,[])
      | (db,.ok ()) => (db,.answered,[.authorized call.caller (Call.respond session token)])
  | .answered => (db,.answered,[])

-- The key a finish would issue for: the one its challenge is linked to.
def linkedKey (db : AuthDb) (challengeId : String) : Option String :=
  ((db.challenges.find challengeId).bind (linkedCredential db)).map (·.credentialId)

def finishEvents (db : AuthDb) (req : SshFinishRequest) (result : Except DbError SessionResponse) : List Event :=
  (if (db.challenges.find req.challenge.challengeId).isSome then [.attempted req.challenge.challengeId] else []) ++
    match result,linkedKey db req.challenge.challengeId with
    | .ok response,some key => [.loggedIn req.challenge.challengeId key response]
    | _,_ => []

def perform (crates : SshCrates) (audience : String) : Action → State → State
  | .addSshKey id account publicKey label createAccount,s =>
    match addSshKey crates s.now id account publicKey label createAccount s.db with
    | .error _ => s
    | .ok (db,_) => {s with db := db}
  | .startSshLogin timestamp entropy challengeId request,s =>
    match startSshLogin crates audience timestamp entropy challengeId request s.db with
    | (db,.error _) => {s with db := db}
    | (db,.ok challenge) => {s with db := db, trace := s.trace ++ [.started challenge]}
  | .finishSshLogin sessionId entropy req,s =>
    let (db,result) := finishSshLogin crates audience s.now sessionId entropy req s.db
    {s with db := db, trace := s.trace ++ finishEvents s.db req result}
  | .deviceAuthorize token request,s =>
    match ownerIdentity crates s.now token request.accountId s.db with
    | .error _ => s
    | .ok caller => {s with calls := s.calls ++ [⟨request,caller,.authenticated⟩]}
  | .proceed i sessionId entropy,s =>
    match s.calls[i]? with
    | none => s
    | some call =>
      let (db,stage,events) := call.proceed crates s.now sessionId entropy s.db
      {s with db := db, calls := s.calls.set i {call with stage := stage}, trace := s.trace ++ events}
  | .revokeSshKey account credential,s =>
    match revokeSshKey s.now account credential s.db with
    | (db,true) => {s with db := db, trace := s.trace ++ [.revoked account credential]}
    | (db,false) => {s with db := db}
  | .advance seconds,s => {s with now := s.now + seconds}

def step (crates : SshCrates) (audience : String) (action : Action) (s : State) : Option State := some (perform crates audience action s)

def startedId : Event → Option String
  | .started challenge => some challenge.challengeId
  | _ => none

def attemptedId : Event → Option String
  | .attempted id => some id
  | _ => none

def loggedInId : Event → Option String
  | .loggedIn id _ _ => some id
  | _ => none

def handedResponse : Event → Option SessionResponse
  | .loggedIn _ _ response => some response
  | .authorized _ response => some response
  | _ => none

-- The responses that have gone out with a token.
def handed (trace : List Event) : List SessionResponse := trace.filterMap handedResponse

-- What random bytes give: a challenge id is new, and a token that was handed to
-- nobody is nobody's guess.
def Allowed (crates : SshCrates) : Action → State → Prop
  | .startSshLogin _ _ challengeId _,s => challengeId ∉ s.trace.filterMap startedId
  | .deviceAuthorize token _,s =>
    token ∈ (handed s.trace).map (·.token) ∨ tokenHash crates token ∉ s.db.sessions.rows.map (·.tokenHash)
  | _,_ => True

instance (crates : SshCrates) : ∀ action s, Decidable (Allowed crates action s)
  | .startSshLogin _ _ challengeId _,s => inferInstanceAs (Decidable (challengeId ∉ s.trace.filterMap startedId))
  | .deviceAuthorize token _,s => inferInstanceAs (Decidable
      (token ∈ (handed s.trace).map (·.token) ∨ tokenHash crates token ∉ s.db.sessions.rows.map (·.tokenHash)))
  | .addSshKey _ _ _ _ _,_ => inferInstanceAs (Decidable True)
  | .finishSshLogin _ _ _,_ => inferInstanceAs (Decidable True)
  | .proceed _ _ _,_ => inferInstanceAs (Decidable True)
  | .revokeSshKey _ _,_ => inferInstanceAs (Decidable True)
  | .advance _,_ => inferInstanceAs (Decidable True)

-- One call of device_authorize took the one session and handed out the other.
def Authorizes (trace : List Event) (source target : String) : Prop :=
  ∃ caller response, .authorized caller response ∈ trace ∧ caller.sessionId = some source ∧ response.sessionId = target

def Derived (trace : List Event) : String → String → Prop := Relation.ReflTransGen (Authorizes trace)

def IssuedBy (trace : List Event) (credential session : String) : Prop :=
  ∃ id response, .loggedIn id credential response ∈ trace ∧ response.sessionId = session

def BoundTo (db : AuthDb) (account credential : String) (response : SessionResponse) : Prop :=
  response.accountId = account ∧ ∃ device, pinnedDevice db account credential = some device ∧ response.deviceId = some device

end ZkNote.SshSessions
