import ZkNote.ServerOrigin
import ZkNote.VaultStore

namespace ZkNote.VaultLinking
open KeyedTable ServerOrigin ServerStore VaultIdentity VaultStore

-- The account both clients link to, and the URL parsers of both code bases.
structure Setting where
  crates : VaultCrates
  urls : UrlParsers
  account : String
  accountSpelled : blank jsSpaces account = false

-- The origin that a text stands for; an error's message is dropped.
def Setting.normalizeServerOrigin (s : Setting) (url : String) : Option String := (ServerOrigin.normalizeServerOrigin s.urls.newUrl url).toOption

def Setting.normalizeUrl (s : Setting) (url : String) : Option String := (validateAndNormalizeServerUrl s.urls.parse url).toOption

theorem to_option {x : Except String String} {text : String} : x.toOption = some text ↔ x = .ok text := by
  cases x with
  | error e => simp [Except.toOption]
  | ok a => simp [Except.toOption]

theorem Setting.origin_again {s : Setting} {url origin : String} (normal : s.normalizeServerOrigin url = some origin) :
    s.normalizeServerOrigin origin = some origin ∧ blank jsSpaces origin = false := by
  obtain ⟨again,written⟩ := normalize_again (to_option.mp normal)
  exact ⟨to_option.mpr again,written⟩

theorem Setting.url_again {s : Setting} {url origin : String} (normal : s.normalizeUrl url = some origin) : s.normalizeUrl origin = some origin :=
  to_option.mpr (validate_again (to_option.mp normal))

-- What local storage or `vault-link.json` holds.
inductive Slot (Link : Type) where
  | absent
  | corrupt
  | held (link : Link)
  deriving DecidableEq, Repr

structure VaultLinkRecord where
  accountId : String
  serverOrigin : String
  linkedAt : String
  deriving DecidableEq, Repr

structure VaultLink where
  formatVersion : UInt32
  serverOrigin : String
  accountId : String
  vaultFingerprint : String
  deriving DecidableEq, Repr

inductive VaultLinkError where
  | invalidOrigin
  | corruptedVaultLink
  | originMismatch (linkedOrigin currentOrigin : String)
  | wrongAccount (linkedAccountId currentAccountId : String)
  | mismatchedVault
  | request
  deriving DecidableEq, Repr

inductive LinkError where
  | invalidUrl
  | missingLink
  | corruptLink
  | wrongAccount
  | wrongServer
  | localVaultMismatch
  | remoteVaultMissing
  | remoteVaultMismatch
  | invalidBootstrap
  | network
  deriving DecidableEq, Repr

-- Web.
def readVaultLink (s : Setting) : Slot VaultLinkRecord → Except VaultLinkError (Option VaultLinkRecord)
  | .absent => .ok none
  | .corrupt => .error .corruptedVaultLink
  | .held link =>
    if blank jsSpaces link.accountId then .error .corruptedVaultLink
    else if blank jsSpaces link.serverOrigin then .error .corruptedVaultLink
    else match s.normalizeServerOrigin link.serverOrigin with
    | none => .error .corruptedVaultLink
    | some origin => .ok (some {link with serverOrigin := origin})

def writeVaultLink (s : Setting) (link : VaultLinkRecord) : Except VaultLinkError (Slot VaultLinkRecord) :=
  match s.normalizeServerOrigin link.serverOrigin with
  | none => .error .invalidOrigin
  | some origin => .ok (.held {link with serverOrigin := origin})

-- `linkLocalVaultToAccount` up to its first request.
def checkLink (s : Setting) (serverOrigin : String) (item : Slot VaultLinkRecord) : Except VaultLinkError String :=
  match s.normalizeServerOrigin serverOrigin with
  | none => .error .invalidOrigin
  | some origin =>
    match readVaultLink s item with
    | .error e => .error e
    | .ok none => .ok origin
    | .ok (some existing) =>
      match s.normalizeServerOrigin existing.serverOrigin with
      | none => .error .invalidOrigin
      | some linked =>
        if linked ≠ origin then .error (.originMismatch existing.serverOrigin origin)
        else if existing.accountId ≠ s.account then .error (.wrongAccount existing.accountId s.account)
        else .ok origin

-- Native.
def validFingerprint (text : String) : Bool :=
  (asBytes "blake2s-v1:").isPrefixOf (asBytes text) && decide ((asBytes text).length = 75) &&
    ((asBytes text).drop 11).all (fun b => decide (48 ≤ b ∧ b ≤ 57 ∨ 97 ≤ b ∧ b ≤ 102))

def VaultLink.validate (s : Setting) (link : VaultLink) : Except LinkError Unit :=
  if link.formatVersion ≠ 1 ∨ s.normalizeUrl link.serverOrigin ≠ some link.serverOrigin ∨ !validFingerprint link.vaultFingerprint then
    .error .corruptLink
  else .ok ()

def loadLink (s : Setting) : Slot VaultLink → Except LinkError VaultLink
  | .absent => .error .missingLink
  | .corrupt => .error .corruptLink
  | .held link => do
    VaultLink.validate s link
    return link

def fingerprint (s : Setting) (b : VaultBootstrap) : Except LinkError String :=
  match vaultFingerprint s.crates.toIdentityCrates b with
  | .error _ => .error .invalidBootstrap
  | .ok text => .ok text

def VaultLink.new (s : Setting) (serverUrl fingerprint : String) : Except LinkError VaultLink :=
  match s.normalizeUrl serverUrl with
  | none => .error .invalidUrl
  | some origin => .ok ⟨1,origin,s.account,fingerprint⟩

def localBootstrap (s : Setting) (b : VaultBootstrap) : Except LinkError VaultBootstrap :=
  match validateBootstrap s.crates.toIdentityCrates b with
  | .error _ => .error .invalidBootstrap
  | .ok _ => .ok b

def validateLocalLink (s : Setting) (serverUrl : String) (file : Slot VaultLink) (b : VaultBootstrap) : Except LinkError VaultLink := do
  let link ← loadLink s file
  if link.accountId ≠ s.account then .error .wrongAccount
  else match s.normalizeUrl serverUrl with
  | none => .error .invalidUrl
  | some origin =>
    if link.serverOrigin ≠ origin then .error .wrongServer
    else do
      let own ← fingerprint s (← localBootstrap s b)
      if link.vaultFingerprint ≠ own then .error .localVaultMismatch else return link

-- `link_with_adapter` up to its first request.
def prepareLink (s : Setting) (serverUrl : String) (file : Slot VaultLink) (vault : VaultBootstrap) : Except LinkError VaultLink := do
  let b ← localBootstrap s vault
  let link ← VaultLink.new s serverUrl (← fingerprint s b)
  match loadLink s file with
  | .ok _ => do
    let _ ← validateLocalLink s serverUrl file b
    return link
  | .error .missingLink => return link
  | .error e => .error e

def VaultLink.save (s : Setting) (link : VaultLink) : Except LinkError (Slot VaultLink) := do
  VaultLink.validate s link
  return .held link

-- A client of either kind with its saved link, and the vault an attempt is made for.
inductive Client where
  | web (serverOrigin : String) (item : Slot VaultLinkRecord)
  | native (serverUrl : String) (file : Slot VaultLink)
  deriving DecidableEq, Repr

inductive Local where
  | web (localBootstrap : VaultBootstrapData)
  | native (vault : VaultBootstrap)
  deriving DecidableEq, Repr

inductive Failure where
  | web (e : VaultLinkError)
  | native (e : LinkError)
  deriving DecidableEq, Repr

-- The request an attempt waits for, and how it goes on.
inductive Phase where
  | inspect
  | upload
  | recheck
  deriving DecidableEq, Repr

inductive Next where
  | request (phase : Phase)
  | record
  | stop (e : Failure)
  deriving DecidableEq, Repr

def begin (s : Setting) : Client → Local → Option (Except Failure Unit)
  | .web serverOrigin item,.web _ =>
    some (match checkLink s serverOrigin item with
      | .error e => .error (.web e)
      | .ok _ => .ok ())
  | .native serverUrl file,.native vault =>
    some (match prepareLink s serverUrl file vault with
      | .error e => .error (.native e)
      | .ok _ => .ok ())
  | _,_ => none

-- `linkLocalVaultToAccount` from one reply on.
def resumeWeb (localBootstrap : VaultBootstrapData) : Phase → Reply → Next
  | .inspect,.found remote =>
    if areBootstrapsEqual (.data localBootstrap) (.dto remote) then .record else .stop (.web .mismatchedVault)
  | .inspect,.notFound => .request .upload
  | .upload,.created => .record
  | .upload,.conflict => .request .recheck
  | .recheck,.found remote =>
    if areBootstrapsEqual (.data localBootstrap) (.dto remote) then .record else .stop (.web .mismatchedVault)
  | .recheck,.notFound => .stop (.web .mismatchedVault)
  | _,_ => .stop (.web .request)

def sameVault (s : Setting) (vault remote : VaultBootstrap) : Except LinkError Unit := do
  let theirs ← fingerprint s remote
  let ours ← fingerprint s vault
  if theirs ≠ ours then .error .remoteVaultMismatch else return ()

-- `link_with_adapter` from one reply on.
def resumeNative (s : Setting) (vault : VaultBootstrap) : Phase → Reply → Next
  | .inspect,.found remote =>
    match sameVault s vault remote with
    | .error e => .stop (.native e)
    | .ok _ => .request .recheck
  | .inspect,.notFound => .request .upload
  | .upload,.created => .request .recheck
  | .recheck,.found remote =>
    match sameVault s vault remote with
    | .error e => .stop (.native e)
    | .ok _ => .record
  | .recheck,.notFound => .stop (.native .remoteVaultMissing)
  | _,_ => .stop (.native .network)

def resume (s : Setting) : Local → Phase → Reply → Next
  | .web localBootstrap => resumeWeb localBootstrap
  | .native vault => resumeNative s vault

def body : Local → Option VaultBootstrap
  | .web localBootstrap => toVaultBootstrapDto localBootstrap
  | .native vault => some vault

def saveWeb (s : Setting) (serverOrigin : String) (linkedAt : String) : Except VaultLinkError (Slot VaultLinkRecord) :=
  match s.normalizeServerOrigin serverOrigin with
  | none => .error .invalidOrigin
  | some origin => writeVaultLink s ⟨s.account,origin,linkedAt⟩

def saveNative (s : Setting) (serverUrl : String) (vault : VaultBootstrap) : Except LinkError (Slot VaultLink) := do
  let link ← VaultLink.new s serverUrl (← fingerprint s vault)
  VaultLink.save s link

-- What a client holds once an attempt has recorded its link.
def record (s : Setting) (client : Client) (loc : Local) (linkedAt : String) : Except Failure Client :=
  match client,loc with
  | .web serverOrigin _,.web _ =>
    match saveWeb s serverOrigin linkedAt with
    | .error e => .error (.web e)
    | .ok item => .ok (.web serverOrigin item)
  | .native serverUrl _,.native vault =>
    match saveNative s serverUrl vault with
    | .error e => .error (.native e)
    | .ok file => .ok (.native serverUrl file)
  | client,_ => .ok client

structure Task where
  id : Nat
  client : Nat
  loc : Local
  phase : Phase
  reply : Option Reply
  deriving DecidableEq, Repr

inductive Ending where
  | linked
  | stopped (e : Failure)
  | lost
  deriving DecidableEq, Repr

-- The server and the clients, the attempts that wait for a reply and the uploads
-- nobody waits for any more. `uploads` are the attempts whose upload was stored,
-- `records` those that recorded a link; `written` counts the rows written.
structure World where
  vaults : Vaults
  clients : List Client
  tasks : Table Nat Task (·.id)
  strays : List (Nat × Local)
  used : List Nat
  results : List (Nat × Ending)
  written : Nat
  uploads : List (Nat × Local)
  records : List (Nat × Local)

inductive Event where
  | start (client id : Nat) (loc : Local)
  | serve (id : Nat)
  | refuse (id : Nat)
  | deliver (id : Nat) (linkedAt : String)
  | drop (id : Nat)
  | land (i : Nat)
  deriving DecidableEq, Repr

def post (s : Setting) (client : Nat) (loc : Local) (w : World) : World × Reply :=
  let (vaults,reply) := createVaultBootstrapHandler s.crates w.vaults s.account (body loc)
  ({w with
    vaults := vaults
    written := if reply = .created then w.written + 1 else w.written
    uploads := if reply = .created then (client,loc) :: w.uploads else w.uploads},reply)

-- The server answers what the attempt asked.
def answer (s : Setting) (task : Task) (w : World) : World × Reply :=
  match task.phase with
  | .upload => post s task.client task.loc w
  | _ => (w,getVaultBootstrapHandler s.crates w.vaults s.account)

def finish (task : Task) (ending : Ending) (w : World) : World :=
  {w with tasks := w.tasks.delete (fun t => t.id = task.id), results := (task.id,ending) :: w.results}

def goOn (s : Setting) (task : Task) (reply : Reply) (linkedAt : String) (w : World) : World :=
  match resume s task.loc task.phase reply with
  | .request phase => {w with tasks := w.tasks.upsert {task with phase := phase, reply := none}}
  | .stop e => finish task (.stopped e) w
  | .record =>
    match w.clients[task.client]? with
    | none => w
    | some client =>
      match record s client task.loc linkedAt with
      | .error e => finish task (.stopped e) w
      | .ok client => finish task .linked {w with clients := w.clients.set task.client client, records := (task.client,task.loc) :: w.records}

def step (s : Setting) (event : Event) (w : World) : Option World :=
  match event with
  | .start i id loc =>
    if id ∈ w.used then none
    else match w.clients[i]? with
    | none => none
    | some client =>
      match begin s client loc with
      | none => none
      | some (.error e) => some {w with used := id :: w.used, results := (id,.stopped e) :: w.results}
      | some (.ok _) => some {w with used := id :: w.used, tasks := w.tasks.upsert ⟨id,i,loc,.inspect,none⟩}
  | .serve id =>
    match w.tasks.find id with
    | some task =>
      if task.reply = none then
        let (w,reply) := answer s task w
        some {w with tasks := w.tasks.upsert {task with reply := some reply}}
      else none
    | none => none
  | .refuse id =>
    match w.tasks.find id with
    | some task => if task.reply = none then some {w with tasks := w.tasks.upsert {task with reply := some .refused}} else none
    | none => none
  | .deliver id linkedAt =>
    match w.tasks.find id with
    | some task =>
      match task.reply with
      | none => none
      | some .refused => some (finish task .lost w)
      | some reply => some (goOn s task reply linkedAt w)
    | none => none
  | .drop id =>
    match w.tasks.find id with
    | some task =>
      let w := finish task .lost w
      some {w with strays := if task.phase = .upload ∧ task.reply = none then (task.client,task.loc) :: w.strays else w.strays}
    | none => none
  | .land i =>
    match w.strays[i]? with
    | some (client,loc) => some {(post s client loc w).1 with strays := w.strays.eraseIdx i}
    | none => none

def World.begin (vaults : Vaults) (clients : List Client) : World := ⟨vaults,clients,.empty,[],[],[],0,[],[]⟩

end ZkNote.VaultLinking
