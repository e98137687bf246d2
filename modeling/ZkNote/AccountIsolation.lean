import ZkNote.AccountRows
import ZkNote.SshFinality
import ZkNote.Tenants

namespace ZkNote.AccountIsolation
open Protocol KeyedTable ServerStore ServerBlobs SshAuth AccountServer AccountRows
open WebauthnLogin (revokeSessions)

variable {a b : String} {crates : Crates} {ssh : SshCrates} {now : Nat} {db : AuthDb} {operation : Operation}

-- Devices are an account's own, whatever id they share with another's.
theorem signed_own (db : AuthDb) : SshAuth.ensureAccount a (ownAuth a db) = ownAuth a (SshAuth.ensureAccount a db) := by
  have found : (ownAuth a db).accounts.find a = db.accounts.find a := of_find (fun _ _ same => same)
  have added : (ownAuth a db).accounts.upsert ⟨a,"active"⟩ = (db.accounts.upsert ⟨a,"active"⟩).of (·.id) a :=
    (of_upsert_own (fun _ _ same => same) rfl).symm
  unfold SshAuth.ensureAccount
  rw [found]
  cases db.accounts.find a with
  | some row => rfl
  | none =>
      simp only [added]
      rfl

theorem signed_other (db : AuthDb) (different : b ≠ a) : ownAuth a (SshAuth.ensureAccount b db) = ownAuth a db := by
  unfold SshAuth.ensureAccount
  cases db.accounts.find b with
  | some row => rfl
  | none =>
      have kept : (db.accounts.upsert ⟨b,"active"⟩).of (·.id) a = db.accounts.of (·.id) a := of_upsert_other (fun _ _ same => same) different
      simp only [ownAuth,kept]

theorem signed_sessions (db : AuthDb) (account : String) : (SshAuth.ensureAccount account db).sessions = db.sessions := by
  unfold SshAuth.ensureAccount
  split <;> rfl

theorem device_own (db : AuthDb) (device : String) : (ownAuth a db).devices.find (a,device) = db.devices.find (a,device) :=
  of_find (fun _ _ same => congrArg Prod.fst same)

theorem revoked_own (db : AuthDb) (device : String) : isDeviceRevoked a device (ownAuth a db) = isDeviceRevoked a device db := by
  rw [isDeviceRevoked,isDeviceRevoked,device_own]

theorem registered_own (db : AuthDb) (device : String) (name : Option String) :
    registerDeviceOn now a device name (ownAuth a db) = ownAuth a (registerDeviceOn now a device name db) := by
  have placed : ∀ row : DeviceRow, row.accountId = a → (ownAuth a db).devices.upsert row = (db.devices.upsert row).of (·.accountId) a :=
    fun row own => (of_upsert_own (fun _ _ same => congrArg Prod.fst same) own).symm
  unfold registerDeviceOn
  rw [device_own]
  cases found : db.devices.find (a,device) with
  | none =>
      simp only [placed ⟨a,device,name,now,now,0,none⟩ rfl]
      rfl
  | some row =>
      have own : row.accountId = a := congrArg Prod.fst (find_key found)
      simp only [placed {row with displayName := name.or row.displayName, lastSeen := now} own]
      rfl

theorem registered_other (db : AuthDb) (device : String) (name : Option String) (different : b ≠ a) :
    ownAuth a (registerDeviceOn now b device name db) = ownAuth a db := by
  have kept : ∀ row : DeviceRow, row.accountId = b → (db.devices.upsert row).of (·.accountId) a = db.devices.of (·.accountId) a :=
    fun row theirs => of_upsert_other (fun _ _ same => congrArg Prod.fst same) (theirs ▸ different)
  unfold registerDeviceOn
  cases found : db.devices.find (b,device) with
  | none => simp only [ownAuth,kept ⟨b,device,name,now,now,0,none⟩ rfl]
  | some row =>
      have theirs : row.accountId = b := congrArg Prod.fst (find_key found)
      simp only [ownAuth,kept {row with displayName := name.or row.displayName, lastSeen := now} theirs]

theorem sessions_revoked_own (db : AuthDb) (which : SessionRow → Bool) :
    revokeSessions now a which (ownAuth a db) = ((revokeSessions now a which db).1,ownAuth a (revokeSessions now a which db).2) := by
  have counted : (ownAuth a db).sessions.rows.filter (fun row => row.accountId == a && which row && row.revokedAt.isNone) =
      db.sessions.rows.filter (fun row => row.accountId == a && which row && row.revokedAt.isNone) :=
    of_filter (fun r _ hit => by simp only [Bool.and_eq_true,beq_iff_eq] at hit; exact hit.1.1)
  refine Prod.ext (congrArg List.length counted) ?_
  simp only [revokeSessions,ownAuth]
  rw [of_update]
  exact fun _ => rfl

theorem sessions_revoked_other (db : AuthDb) (which : SessionRow → Bool) (different : b ≠ a) :
    ownAuth a (revokeSessions now b which db).2 = ownAuth a db := by
  simp only [revokeSessions,ownAuth]
  rw [of_update_other]
  · exact fun _ => rfl
  · intro r hit own
    simp only [Bool.and_eq_true,beq_iff_eq] at hit
    exact different (hit.1.1.symm.trans own)

-- Revoking a device is one update of the devices and one of the sessions.
theorem device_revoked (db : AuthDb) (device : String) : WebauthnLogin.revokeDevice now b device db =
    {(revokeDeviceSessions now b device db).2 with
      devices := db.devices.update (fun row => row.accountId == b && row.deviceId == device) (fun row => {row with revokedAt := some now})
        (fun _ => rfl)} := rfl

theorem device_revoked_own (db : AuthDb) (device : String) :
    WebauthnLogin.revokeDevice now a device (ownAuth a db) = ownAuth a (WebauthnLogin.revokeDevice now a device db) := by
  rw [device_revoked,device_revoked,revokeDeviceSessions,sessions_revoked_own]
  simp only [ownAuth]
  rw [of_update]
  · rfl
  · exact fun _ => rfl

theorem device_revoked_other (db : AuthDb) (device : String) (different : b ≠ a) :
    ownAuth a (WebauthnLogin.revokeDevice now b device db) = ownAuth a db := by
  have devices : (db.devices.update (fun row => row.accountId == b && row.deviceId == device) (fun row => {row with revokedAt := some now})
      (fun _ => rfl)).of (·.accountId) a = db.devices.of (·.accountId) a := by
    refine of_update_other _ ?_ ?_
    · exact fun _ => rfl
    intro r hit own
    simp only [Bool.and_eq_true,beq_iff_eq] at hit
    exact different (hit.1.symm.trans own)
  rw [← sessions_revoked_other db (fun row => row.deviceId == some device) different,device_revoked]
  simp only [ownAuth,devices]
  rfl

theorem listed_own (db : AuthDb) : listDevices a (ownAuth a db) = listDevices a db := by
  unfold listDevices
  congr 1
  exact of_filter (fun r _ hit => beq_iff_eq.mp hit)

-- The sessions that an id or a digest finds belong to the account.
def Mine (account : String) (db : AuthDb) (id : String) (hash : List UInt8) : Prop :=
  ∀ row ∈ db.sessions.rows, row.sessionId = id ∨ row.tokenHash = hash → row.accountId = account

-- The two halves of `createSessionOn`: the device is registered first.
def registerFirst (now : Nat) (account : String) (device displayName : Option String) (db : AuthDb) : AuthDb :=
  match device with
  | some device => registerDeviceOn now account device displayName db
  | none => db

def insertSession (crates : SshCrates) (now : Nat) (sessionId : String) (entropy : List UInt8) (account : String)
    (device displayName : Option String) (expiresInSecs : Option Int) (db : AuthDb) :
    Except SshAuth.DbError (AuthDb × AuthenticatedSession × String) :=
  if device.any (fun device => isDeviceRevoked account device db) then
    .error (.schemaVerificationFailed "cannot create session for a revoked device")
  else
    let token := rawToken crates entropy
    let expires := expiresInSecs.bind (fun secs => datetime (now + secs))
    if db.sessions.rows.any (fun row => row.tokenHash == tokenHash crates token) then
      .error (.sqlite "UNIQUE constraint failed: sessions.token_hash")
    else match db.sessions.insert ⟨sessionId,account,device,tokenHash crates token,displayName,now,expires,none,none⟩ with
      | none => .error (.sqlite "UNIQUE constraint failed: sessions.session_id")
      | some sessions => .ok ({db with sessions := sessions},⟨sessionId,account,device,displayName,now,expires,false⟩,token)

variable {id : String} {entropy : List UInt8} {device name : Option String} {expires : Option Int}

theorem created_halves (account : String) : createSessionOn ssh now id entropy account device name expires db =
    insertSession ssh now id entropy account device name expires (registerFirst now account device name db) := by
  cases device <;> rfl

theorem first_own (db : AuthDb) : registerFirst now a device name (ownAuth a db) = ownAuth a (registerFirst now a device name db) := by
  cases device with
  | none => rfl
  | some device => exact registered_own db device name

theorem first_other (db : AuthDb) (different : b ≠ a) : ownAuth a (registerFirst now b device name db) = ownAuth a db := by
  cases device with
  | none => rfl
  | some device => exact registered_other db device name different

theorem first_sessions (db : AuthDb) (account : String) : (registerFirst now account device name db).sessions = db.sessions := by
  cases device <;> rfl

theorem inserted_own (mine : Mine a db id (tokenHash ssh (rawToken ssh entropy))) :
    insertSession ssh now id entropy a device name expires (ownAuth a db) =
      (insertSession ssh now id entropy a device name expires db).map (fun r => (ownAuth a r.1,r.2)) := by
  have taken : (ownAuth a db).sessions.rows.any (fun row => row.tokenHash == tokenHash ssh (rawToken ssh entropy)) =
      db.sessions.rows.any (fun row => row.tokenHash == tokenHash ssh (rawToken ssh entropy)) :=
    of_any (fun r inside hit => mine r inside (.inr (beq_iff_eq.mp hit)))
  have added : ∀ row : SessionRow, row.accountId = a → row.sessionId = id →
      (ownAuth a db).sessions.insert row = (db.sessions.insert row).map (·.of (·.accountId) a) :=
    fun row own is => of_insert_own (fun r inside same => (mine r inside (.inl (same.trans is))).trans own.symm) own
  unfold insertSession
  simp only [revoked_own,taken]
  split
  · rfl
  split
  · rfl
  · rw [added _ rfl rfl]
    cases db.sessions.insert _ <;> rfl

theorem inserted_other {next : AuthDb} {answer : AuthenticatedSession × String} (different : b ≠ a)
    (created : insertSession ssh now id entropy b device name expires db = .ok (next,answer)) : ownAuth a next = ownAuth a db := by
  unfold insertSession at created
  split at created
  · cases created
  simp only at created
  split at created
  · cases created
  split at created
  · cases created
  · rename_i sessions added
    cases created
    have kept : sessions.of (·.accountId) a = db.sessions.of (·.accountId) a := of_insert_other different added
    simp only [ownAuth,kept]

theorem created_own (mine : Mine a db id (tokenHash ssh (rawToken ssh entropy))) :
    createSession ssh now id entropy a device name expires (ownAuth a db) =
      (ownAuth a (createSession ssh now id entropy a device name expires db).1,(createSession ssh now id entropy a device name expires db).2) := by
  have mine : Mine a (registerFirst now a device name (SshAuth.ensureAccount a db)) id (tokenHash ssh (rawToken ssh entropy)) := by
    unfold Mine
    rw [first_sessions,signed_sessions]
    exact mine
  unfold createSession
  rw [signed_own,created_halves,created_halves,first_own,inserted_own mine]
  cases insertSession ssh now id entropy a device name expires (registerFirst now a device name (SshAuth.ensureAccount a db)) <;> rfl

theorem created_other (db : AuthDb) (different : b ≠ a) :
    ownAuth a (createSession ssh now id entropy b device name expires db).1 = ownAuth a db := by
  rw [← signed_other db different]
  unfold createSession
  rw [created_halves]
  cases created : insertSession ssh now id entropy b device name expires (registerFirst now b device name (SshAuth.ensureAccount b db)) with
  | error failure => rfl
  | ok result =>
      exact (inserted_other different created).trans (first_other _ different)

-- A token of the account's is judged by the account's session and device alone.
theorem validated_own {token : String} (mine : ∀ row ∈ db.sessions.rows, row.tokenHash = tokenHash ssh token → row.accountId = a) :
    validateSessionToken ssh now token (ownAuth a db) = validateSessionToken ssh now token db := by
  have found : (ownAuth a db).sessions.rows.find? (fun row => row.tokenHash == tokenHash ssh token) =
      db.sessions.rows.find? (fun row => row.tokenHash == tokenHash ssh token) :=
    of_first (fun r inside hit => mine r inside (beq_iff_eq.mp hit))
  unfold validateSessionToken
  rw [found]
  cases here : db.sessions.rows.find? (fun row => row.tokenHash == tokenHash ssh token) with
  | none => rfl
  | some row =>
      have own : row.accountId = a := mine row (List.mem_of_find?_eq_some here) (by simpa using List.find?_some here)
      simp only [Option.map_some,own,revoked_own]

-- What the random draws give one account no other account draws: `ids` and
-- `hashes` are those of the account's sessions and of the tokens it presents.
def Clear (account : String) (ids : List String) (hashes : List (List UInt8)) (s : Server) : Prop :=
  ∀ row ∈ s.sessions.rows, row.accountId ≠ account → row.sessionId ∉ ids ∧ row.tokenHash ∉ hashes

structure Drawn (ssh : SshCrates) (account : String) (ids : List String) (hashes : List (List UInt8)) (e : Event) : Prop where
  own : e.account = account → (∀ id, drawnId e.operation = some id → id ∈ ids) ∧ ∀ hash, soughtHash ssh e.operation = some hash → hash ∈ hashes
  others : e.account ≠ account → (∀ id, drawnId e.operation = some id → id ∉ ids) ∧ ∀ hash, drawnHash ssh e.operation = some hash → hash ∉ hashes

-- A session in the table was there before, or this operation has drawn it.
def Came (ssh : SshCrates) (account : String) (operation : Operation) (db : AuthDb) (row : SessionRow) : Prop :=
  (∃ old ∈ db.sessions.rows, old.accountId = row.accountId ∧ old.sessionId = row.sessionId ∧ old.tokenHash = row.tokenHash) ∨
    row.accountId = account ∧ drawnId operation = some row.sessionId ∧ drawnHash ssh operation = some row.tokenHash

theorem came_before {row : SessionRow} (inside : row ∈ db.sessions.rows) : Came ssh b operation db row :=
  .inl ⟨row,inside,rfl,rfl,rfl⟩

theorem came_revoked {which : SessionRow → Bool} {row : SessionRow} (inside : row ∈ (revokeSessions now b which db).2.sessions.rows) :
    Came ssh b operation db row := by
  simp only [revokeSessions,mem_update] at inside
  obtain ⟨old,held,rfl⟩ := inside
  refine .inl ⟨old,held,?_⟩
  split <;> exact ⟨rfl,rfl,rfl⟩

theorem came_created {row : SessionRow} (inside : row ∈ (createSession ssh now id entropy b device name expires db).1.sessions.rows) :
    Came ssh b (.createSession id entropy device name expires) db row := by
  unfold createSession at inside
  rw [created_halves] at inside
  have before : (registerFirst now b device name (SshAuth.ensureAccount b db)).sessions = db.sessions := by
    rw [first_sessions,signed_sessions]
  split at inside
  · rw [signed_sessions] at inside
    exact came_before inside
  · rename_i created
    unfold insertSession at created
    split at created
    · cases created
    simp only at created
    split at created
    · cases created
    split at created
    · cases created
    · rename_i sessions added
      cases created
      obtain ⟨_,rfl⟩ := insert_cases added
      rcases mem_upsert.mp inside with rfl | ⟨old,_⟩
      · exact .inr ⟨rfl,rfl,rfl⟩
      · rw [before] at old
        exact came_before old

theorem performed_came {s : Server} {row : SessionRow} (inside : row ∈ (perform crates ssh b now operation s).2.sessions.rows) :
    Came ssh b operation s.toAuthDb row := by
  cases operation with
  | ensureAccount | pushMutation | pullChanges | getBlob | deleteBlob | validateSessionToken | isDeviceRevoked | listDevices =>
      exact came_before inside
  | putBlob blobId data quota max =>
      have kept : (AccountServer.putBlob b blobId data quota max s).2.sessions = s.sessions := by
        unfold AccountServer.putBlob
        split
        · rfl
        · split <;> rfl
      change row ∈ (AccountServer.putBlob b blobId data quota max s).2.sessions.rows at inside
      rw [kept] at inside
      exact came_before inside
  | createSession => exact came_created inside
  | revokeSession => exact came_revoked inside
  | revokeAllSessions => exact came_revoked inside
  | revokeDeviceSessions => exact came_revoked inside
  | revokeDevice device =>
      have inside : row ∈ (revokeDeviceSessions now b device s.toAuthDb).2.sessions.rows := inside
      exact came_revoked inside
  | registerDevice =>
      have kept : (SshAuth.ensureAccount b s.toAuthDb).sessions = s.sessions := signed_sessions s.toAuthDb b
      change row ∈ (SshAuth.ensureAccount b s.toAuthDb).sessions.rows at inside
      rw [kept] at inside
      exact came_before inside

variable {ids : List String} {hashes : List (List UInt8)}

theorem step_clear {s : Server} {e : Event} (clear : Clear a ids hashes s) (drawn : Drawn ssh a ids hashes e) :
    Clear a ids hashes (step crates ssh e s).2 := by
  intro row inside theirs
  rcases performed_came inside with ⟨old,held,account,id,hash⟩ | ⟨account,id,hash⟩
  · rw [← id,← hash]
    exact clear old held (account ▸ theirs)
  · have others := drawn.others (account ▸ theirs)
    exact ⟨others.1 _ id,others.2 _ hash⟩

theorem clear_mine {s : Server} {hash : List UInt8} (clear : Clear a ids hashes s) (known : id ∈ ids) (sought : hash ∈ hashes) :
    Mine a s.toAuthDb id hash := by
  intro row inside hit
  by_contra theirs
  obtain ⟨id,hash⟩ := clear row inside theirs
  rcases hit with rfl | rfl
  · exact id known
  · exact hash sought

theorem step_own {s : Server} {e : Event} (clear : Clear a ids hashes s) (drawn : Drawn ssh a ids hashes e) (own : e.account = a) :
    step crates ssh e (ownRows a s) = ((step crates ssh e s).1,ownRows a (step crates ssh e s).2) := by
  obtain ⟨known,sought⟩ := drawn.own own
  obtain ⟨account,now,operation⟩ := e
  subst own
  unfold step
  cases operation with
  | ensureAccount => simp only [perform,account_own]
  | pushMutation request => simp only [perform,rows_store,push_own,rows_withStore]
  | pullChanges after limit => simp only [perform,rows_store,pull_own,rows_withStore]
  | putBlob blobId data quota max => simp only [perform,put_own]
  | getBlob blobId => simp only [perform,getBlob,rows_blobs,blob_own]
  | deleteBlob blobId => simp only [perform,rows_blobs,delete_own,rows_withBlobs]
  | createSession id entropy device name expires =>
      have mine := clear_mine clear (known id rfl) (sought _ rfl)
      simp only [perform,rows_auth,created_own mine,rows_withAuth]
  | validateSessionToken token =>
      have mine : ∀ row ∈ s.sessions.rows, row.tokenHash = tokenHash ssh token → row.accountId = account := by
        intro row inside hit
        by_contra theirs
        exact (clear row inside theirs).2 (hit ▸ sought _ rfl)
      simp only [perform,rows_auth,validated_own mine]
  | revokeSession session => simp only [perform,WebauthnLogin.revokeSession,rows_auth,sessions_revoked_own,rows_withAuth]
  | revokeAllSessions => simp only [perform,revokeAllSessionsForAccount,rows_auth,sessions_revoked_own,rows_withAuth]
  | registerDevice device name => simp only [perform,registerDevice,rows_auth,signed_own,registered_own,device_own,rows_withAuth]
  | revokeDevice device => simp only [perform,rows_auth,device_revoked_own,rows_withAuth]
  | revokeDeviceSessions device => simp only [perform,revokeDeviceSessions,rows_auth,sessions_revoked_own,rows_withAuth]
  | isDeviceRevoked device => simp only [perform,rows_auth,revoked_own]
  | listDevices => simp only [perform,rows_auth,listed_own]

theorem step_other {s : Server} {e : Event} (different : e.account ≠ a) : ownRows a (step crates ssh e s).2 = ownRows a s := by
  obtain ⟨account,now,operation⟩ := e
  have different : account ≠ a := different
  unfold step
  cases operation with
  | ensureAccount => exact account_other s different
  | pushMutation request => exact same_store (push_other s.store request different)
  | pullChanges after limit => exact same_store (pull_other s.store after limit different)
  | putBlob blobId data quota max => exact put_other s blobId data quota max different
  | getBlob | validateSessionToken | isDeviceRevoked | listDevices => rfl
  | deleteBlob blobId => exact same_blobs (delete_other s.blobs blobId different)
  | createSession => exact same_auth (created_other s.toAuthDb different)
  | revokeSession | revokeAllSessions | revokeDeviceSessions => exact same_auth (sessions_revoked_other s.toAuthDb _ different)
  | registerDevice device name =>
      exact same_auth ((registered_other _ device name different).trans (signed_other s.toAuthDb different))
  | revokeDevice device => exact same_auth (device_revoked_other s.toAuthDb device different)

theorem accounts_scoped : Tenants.Scoped (step crates ssh) (fun e => e.account == a) (ownRows a) (Clear a ids hashes) (Drawn ssh a ids hashes) where
  keeps := step_clear
  own clear drawn is := step_own clear drawn (beq_iff_eq.mp is)
  other _ _ is := step_other (beq_eq_false_iff_ne.mp is)

-- One run of the server from its first start; what it answers one account.
def eventsOf (account : String) (events : List Event) : List Event := events.filter (fun e => e.account == account)

def answersTo (crates : Crates) (ssh : SshCrates) (account : String) (events : List Event) : List Answer :=
  Tenants.answers (step crates ssh) (fun e => e.account == account) events .newInMemory

-- No other account's session gets an id or a token of this account's: both are
-- random, and the digest of the token has no collisions.
def Apart (ssh : SshCrates) (account : String) (events : List Event) : Prop :=
  ∀ e ∈ events, e.account ≠ account → ∀ own ∈ eventsOf account events,
    (drawnId e.operation = none ∨ drawnId e.operation ≠ drawnId own.operation) ∧
    (drawnHash ssh e.operation = none ∨ drawnHash ssh e.operation ≠ soughtHash ssh own.operation)

theorem drawn_apart {α : Type} {theirs own : Option α} {x : α} (apart : theirs = none ∨ theirs ≠ own) (drawn : theirs = some x) : own ≠ some x := by
  rintro rfl
  rcases apart with none | different
  · rw [none] at drawn
    cases drawn
  · exact different drawn

theorem apart_drawn {events : List Event} (apart : Apart ssh a events) : ∀ e ∈ events,
    Drawn ssh a ((eventsOf a events).filterMap (fun e => drawnId e.operation)) ((eventsOf a events).filterMap (fun e => soughtHash ssh e.operation)) e := by
  intro e inside
  constructor
  · intro own
    have here : e ∈ eventsOf a events := List.mem_filter.mpr ⟨inside,beq_iff_eq.mpr own⟩
    exact ⟨fun id drawn => List.mem_filterMap.mpr ⟨e,here,drawn⟩,fun hash sought => List.mem_filterMap.mpr ⟨e,here,sought⟩⟩
  · intro theirs
    constructor
    · intro id drawn known
      obtain ⟨own,here,same⟩ := List.mem_filterMap.mp known
      exact drawn_apart (apart e inside theirs own here).1 drawn same
    · intro hash drawn known
      obtain ⟨own,here,same⟩ := List.mem_filterMap.mp known
      exact drawn_apart (apart e inside theirs own here).2 drawn same

theorem new_clear : Clear a ids hashes .newInMemory := by
  intro row inside
  cases inside

-- Whatever the other accounts do, an account is answered the same.
theorem account_isolated {left right : List Event} (same : eventsOf a left = eventsOf a right) (leftApart : Apart ssh a left)
    (rightApart : Apart ssh a right) : answersTo crates ssh a left = answersTo crates ssh a right := by
  have drawn := apart_drawn rightApart
  rw [← same] at drawn
  exact Tenants.two_runs accounts_scoped same rfl (apart_drawn leftApart) drawn new_clear new_clear

-- Bob uses the object, mutation, blob and device ids that Alice uses.
def aliceDoes : List Operation :=
  [.registerDevice "d1" (some "Phone"),.createSession "s1" (List.replicate 32 0) (some "d1") none none,
    .pushMutation (upsertOf change1 firstNote 0 "AAAA"),.putBlob "b1" [1,2,3] 4 4,
    .validateSessionToken ("zk_sess_" ++ SshFinality.firstDigest),.pullChanges 0 10,.getBlob "b1",.listDevices]

def bobDoes : List Operation :=
  [.registerDevice "d1" (some "Laptop"),.createSession "s2" (List.replicate 32 0x55) (some "d1") none none,
    .pushMutation (upsertOf change1 firstNote 0 "BBBB"),.putBlob "b1" [9,9,9,9] 4 4,.deleteBlob "b1",.revokeDevice "d1"]

def quietRun : List Event := aliceDoes.map (⟨"alice",1000,·⟩)

def crowdedRun : List Event :=
  bobDoes.map (⟨"bob",990,·⟩) ++ quietRun.take 4 ++ bobDoes.tail.tail.map (⟨"bob",1000,·⟩) ++ quietRun.drop 4

theorem bob_unseen : answersTo .standIn SshFinality.SshCrates.standIn "alice" quietRun =
    answersTo .standIn SshFinality.SshCrates.standIn "alice" crowdedRun :=
  account_isolated (by decide +kernel) (by unfold Apart; decide +kernel) (by unfold Apart; decide +kernel)

end ZkNote.AccountIsolation
