import ZkNote.SessionKeeping
import ZkNote.SshFinality

namespace ZkNote.DeviceRevocation
open KeyedTable SshAuth SshSessions SshSteps SshFinality WebauthnLogin SessionKeeping

variable {crates : SshCrates} {cfg : Config} {start : Nat} {db : AuthDb} {account device : String}

-- Validation looks the one row up that has the token's digest.
theorem validate_row {row : SessionRow} {token : String} (digests : Digests db) (held : row ∈ db.sessions.rows) (hash : row.tokenHash = tokenHash crates token)
    (time : Nat) : validateSessionToken crates time token db = some (
      if row.deviceId.any (fun device => isDeviceRevoked row.accountId device db) then .deviceRevoked
      else if row.revokedAt.isSome then .revoked
      else if row.expiresAt.any (fun expires => decide (expires ≤ (time : Int))) then .expired
      else .valid row.accountId row.deviceId row.sessionId) := by
  have found : db.sessions.rows.find? (fun row => row.tokenHash == tokenHash crates token) = some row := by
    cases search : db.sessions.rows.find? (fun row => row.tokenHash == tokenHash crates token) with
    | none =>
        have missed := List.find?_eq_none.mp search row held
        simp [hash] at missed
    | some other =>
        have inside := List.mem_of_find?_eq_some search
        have equal : other.tokenHash = tokenHash crates token := by simpa using List.find?_some search
        have same := digests _ _ _ _ (mem_iff_find.mp inside) (mem_iff_find.mp held) (equal.trans hash.symm)
        have both := mem_iff_find.mp inside
        rw [same,mem_iff_find.mp held] at both
        exact both.symm
  rw [validateSessionToken,found,Option.map_some]

theorem validate_refused {row : SessionRow} {token : String} (digests : Digests db) (held : row ∈ db.sessions.rows)
    (hash : row.tokenHash = tokenHash crates token) (on : row.deviceId = some device) (revoked : isDeviceRevoked row.accountId device db = true) (time : Nat) :
    validateSessionToken crates time token db = some .deviceRevoked := by
  rw [validate_row digests held hash,on,Option.any_some,revoked,if_pos rfl]

theorem validate_never {session : String} (revoked : isDeviceRevoked account device db = true) (time : Nat) (token : String) :
    validateSessionToken crates time token db ≠ some (.valid account (some device) session) := by
  intro valid
  obtain ⟨row,_,is⟩ := Option.map_eq_some_iff.mp valid
  split at is
  · cases is
  · rename_i live
    split at is
    · cases is
    · split at is
      · cases is
      · simp only [SessionValidationResult.valid.injEq] at is
        rw [is.1,is.2.1,Option.any_some] at live
        exact live revoked

-- The rows of anyone but the device itself.
theorem revokeDevice_devices (now : Nat) (account device : String) (db : AuthDb) (key : String × String) (other : key ≠ (account,device)) :
    (revokeDevice now account device db).devices.find key = db.devices.find key := by
  rw [revokeDevice,find_update]
  cases found : db.devices.find key with
  | none => rfl
  | some row =>
      have named := find_key found
      have missed : (row.accountId == account && row.deviceId == device) = false := by
        by_contra hit
        simp only [Bool.not_eq_false,Bool.and_eq_true,beq_iff_eq] at hit
        exact other (named.symm.trans (Prod.ext hit.1 hit.2))
      rw [Option.map_some,missed]
      rfl

theorem revokeDevice_sessions (now : Nat) (account device : String) (db : AuthDb) {row : SessionRow} (other : row.accountId ≠ account) :
    row ∈ (revokeDevice now account device db).sessions.rows ↔ row ∈ db.sessions.rows := by
  rw [revokeDevice,mem_update]
  constructor
  · intro made
    obtain ⟨old,inside,is⟩ := made
    split at is
    · rename_i hit
      simp only [Bool.and_eq_true,beq_iff_eq] at hit
      rw [is] at other
      exact absurd hit.1.1 other
    · exact is ▸ inside
  · intro inside
    refine ⟨row,inside,?_⟩
    have missed : (row.accountId == account) = false := by simpa using other
    rw [missed,Bool.false_and,Bool.false_and]
    rfl

theorem revokeDevice_validation (now time : Nat) (account device : String) (digests : Digests db) {row : SessionRow} {token : String}
    (held : row ∈ db.sessions.rows) (hash : row.tokenHash = tokenHash crates token) (other : row.accountId ≠ account) :
    validateSessionToken crates time token (revokeDevice now account device db) = validateSessionToken crates time token db := by
  have digests' := (revokeDevice_keeps now account device db).digests digests
  rw [validate_row digests' ((revokeDevice_sessions now account device db other).mpr held) hash,validate_row digests held hash]
  have same : ∀ d, isDeviceRevoked row.accountId d (revokeDevice now account device db) = isDeviceRevoked row.accountId d db := by
    intro d
    rw [isDeviceRevoked,revokeDevice_devices now account device db (row.accountId,d) (fun is => other (Prod.mk.inj is).1)]
    rfl
  simp only [same]

theorem createSession_live {now : Nat} {sessionId token : String} {entropy : List UInt8} {name : Option String} {expiresInSecs : Option Int} {db' : AuthDb}
    {session : AuthenticatedSession}
    (created : createSession crates now sessionId entropy account (some device) name expiresInSecs db = (db',.ok (session,token))) :
    isDeviceRevoked account device db = false := by
  unfold createSession at created
  split at created
  · cases created
  · rename_i done
    have live := (createSessionOn_parts done).1
    rwa [isDeviceRevoked,(ensureAccount_tables account db).2.2.1] at live

-- Whatever runs before and after: a registered device that is revoked validates
-- nothing again, however its sessions were made, and nobody else notices.
theorem revoked_device_stays_out (before after : List WebauthnLogin.Action)
    (registered : ((performAll cfg before (AuthSystem.opened start)).ssh.db.devices.find (account,device)).isSome = true) :
    let s := performAll cfg before (AuthSystem.opened start)
    let t := WebauthnLogin.perform cfg (.revokeDevice account device) s
    let u := performAll cfg after t
    isDeviceRevoked account device u.ssh.db = true ∧
    (∀ row ∈ u.ssh.db.sessions.rows, row.accountId = account → row.deviceId = some device → ∀ token, row.tokenHash = tokenHash cfg.crates token →
      ∀ time, validateSessionToken cfg.crates time token u.ssh.db = some .deviceRevoked) ∧
    (∀ time token session, validateSessionToken cfg.crates time token u.ssh.db ≠ some (.valid account (some device) session)) ∧
    (∀ response ∈ responses u, response.accountId = account → response.deviceId = some device →
      ∀ time, validateSessionToken cfg.crates time response.token u.ssh.db = some .deviceRevoked) ∧
    (∀ sessionId entropy name expiresInSecs session token,
      (createSession cfg.crates u.ssh.now sessionId entropy account (some device) name expiresInSecs u.ssh.db).2 ≠ .ok (session,token)) ∧
    (∀ other id, other ≠ account → t.ssh.db.devices.find (other,id) = s.ssh.db.devices.find (other,id)) ∧
    (∀ row, row.accountId ≠ account → (row ∈ t.ssh.db.sessions.rows ↔ row ∈ s.ssh.db.sessions.rows)) ∧
    (∀ row ∈ s.ssh.db.sessions.rows, row.accountId ≠ account → ∀ token, row.tokenHash = tokenHash cfg.crates token →
      ∀ time, validateSessionToken cfg.crates time token t.ssh.db = validateSessionToken cfg.crates time token s.ssh.db) := by
  intro s t u
  have booksS : Books cfg.crates s.ssh.db s.ssh.calls (responses s) := performAll_books before (opened_books start)
  have booksU : Books cfg.crates u.ssh.db u.ssh.calls (responses u) := performAll_books after (books_moves booksS (perform_moves _))
  have struck : isDeviceRevoked account device t.ssh.db = true := by
    have done := revokeDevice_revoked s.ssh.now account device s.ssh.db account device
    rw [registered] at done
    exact done.trans (by simp)
  have revoked : isDeviceRevoked account device u.ssh.db = true := (performAll_keeps after).device account device struck
  refine ⟨revoked,?_,fun time token session => validate_never revoked time token,?_,?_,?_,?_,?_⟩
  · intro row held mine on token hash time
    exact validate_refused booksU.digests held hash on (mine ▸ revoked) time
  · intro response inside mine on time
    obtain ⟨row,found,hash,account',device'⟩ := booksU.out response inside
    have home : row.accountId = account := account'.trans mine
    exact validate_refused booksU.digests (find_mem found) hash (device'.trans on) (home ▸ revoked) time
  · intro sessionId entropy name expiresInSecs session token made
    cases created : createSession cfg.crates u.ssh.now sessionId entropy account (some device) name expiresInSecs u.ssh.db with
    | mk db result =>
        rw [created] at made
        cases made
        have bound := (createSession_keeps created).2 session token rfl
        have live := createSession_live created
        rw [revoked] at live
        cases live
  · intro other id apart
    exact revokeDevice_devices s.ssh.now account device s.ssh.db (other,id) (fun is => apart (Prod.mk.inj is).1)
  · intro row other
    exact revokeDevice_sessions s.ssh.now account device s.ssh.db other
  · intro row held other token hash time
    exact revokeDevice_validation s.ssh.now time account device booksS.digests held hash other

-- No login of this run goes through WebAuthn.
def WebCrates.standIn : WebCrates := ⟨fun _ => none,fun _ => none,fun _ => none,fun _ => false,fun bytes => bytes,fun _ _ _ => false⟩

def Config.standIn : Config := ⟨SshCrates.standIn,WebCrates.standIn,"https://notes.example","notes.example","https://notes.example"⟩

-- Two accounts on one laptop; the first loses it and registers it again.
def sharedLaptop : List WebauthnLogin.Action :=
  [.createSession (uuid "51") zeros (uuid "aa") (some (uuid "dd")) none none,
    .createSession (uuid "52") (List.replicate 32 85) (uuid "bb") (some (uuid "dd")) none none]

def lostLaptop : AuthSystem :=
  performAll Config.standIn [.registerDevice (uuid "aa") (uuid "dd") none,.createSession (uuid "53") zeros (uuid "aa") (some (uuid "dd")) none none]
    (WebauthnLogin.perform Config.standIn (.revokeDevice (uuid "aa") (uuid "dd")) (performAll Config.standIn sharedLaptop (AuthSystem.opened 1000)))

theorem shared_laptop_revoked : isDeviceRevoked (uuid "aa") (uuid "dd") lostLaptop.ssh.db = true ∧ (responses lostLaptop).length = 2 ∧
    isDeviceRevoked (uuid "bb") (uuid "dd") lostLaptop.ssh.db = false := by
  have registered : ((performAll Config.standIn sharedLaptop (AuthSystem.opened 1000)).ssh.db.devices.find (uuid "aa",uuid "dd")).isSome = true := by
    decide +kernel
  have out : isDeviceRevoked (uuid "aa") (uuid "dd") lostLaptop.ssh.db = true := (revoked_device_stays_out sharedLaptop _ registered).1
  exact ⟨out,by decide +kernel,by decide +kernel⟩

end ZkNote.DeviceRevocation
