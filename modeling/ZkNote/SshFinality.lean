import ZkNote.SshRevocation

namespace ZkNote.SshFinality
open KeyedTable SshAuth SshSessions SshBooks SshSteps SshRevocation Runs

variable {crates : SshCrates} {audience : String} {now : Nat} {db db' : AuthDb} {trace : List Event} {s t : State}

-- A stored challenge is one that was sent and that no finish has used up.
structure SingleUse (db : AuthDb) (trace : List Event) : Prop where
  stored : ∀ id row, db.challenges.find id = some row →
    .started row.challenge ∈ trace ∧ row.challenge.challengeId = id ∧ id ∉ trace.filterMap attemptedId
  known : ∀ id ∈ trace.filterMap attemptedId, id ∈ trace.filterMap startedId
  once : (trace.filterMap attemptedId).Nodup
  logins : (trace.filterMap loggedInId).Sublist (trace.filterMap attemptedId)

-- Fewer challenges, and no event about one.
theorem single_append (single : SingleUse db trace) (fewer : ∀ id row, db'.challenges.find id = some row → db.challenges.find id = some row)
    (events : List Event) (apart : ∀ e ∈ events, startedId e = none ∧ attemptedId e = none ∧ loggedInId e = none) :
    SingleUse db' (trace ++ events) := by
  have attempted : events.filterMap attemptedId = [] := List.filterMap_eq_nil_iff.mpr (fun e inside => (apart e inside).2.1)
  have logged : events.filterMap loggedInId = [] := List.filterMap_eq_nil_iff.mpr (fun e inside => (apart e inside).2.2)
  refine ⟨?_,?_,?_,?_⟩
  · intro id row found
    obtain ⟨started,named,unused⟩ := single.stored id row (fewer id row found)
    rw [List.filterMap_append,attempted,List.append_nil]
    exact ⟨List.mem_append_left _ started,named,unused⟩
  · intro id inside
    rw [List.filterMap_append,attempted,List.append_nil] at inside
    rw [List.filterMap_append]
    exact List.mem_append_left _ (single.known id inside)
  · rw [List.filterMap_append,attempted,List.append_nil]
    exact single.once
  · rw [List.filterMap_append,List.filterMap_append,attempted,logged,List.append_nil,List.append_nil]
    exact single.logins

theorem single_same (single : SingleUse db trace) (same : db'.challenges = db.challenges) : SingleUse db' trace := by
  rw [← List.append_nil trace]
  exact single_append single (fun id row found => by rwa [← same]) [] (fun e inside => absurd inside List.not_mem_nil)

theorem deleted_found {t : Table String ChallengeRow (·.challengeId)} {doomed : ChallengeRow → Bool} {id : String} {row : ChallengeRow}
    (found : (t.delete doomed).find id = some row) : t.find id = some row ∧ doomed row = false := by
  rw [find_delete] at found
  obtain ⟨held,kept⟩ := Option.filter_eq_some_iff.mp found
  exact ⟨held,by simpa using kept⟩

theorem start_single (single : SingleUse db trace) (timestamp : Nat) (challenge : SshChallenge) (credential : Option String)
    (fresh : challenge.challengeId ∉ trace.filterMap startedId) :
    SingleUse {db with
        challenges := (db.challenges.delete (fun row => decide (row.expiresAt ≤ timestamp))).upsert
          ⟨challenge.challengeId,"login-v1",challenge,challenge.expiresAt,credential⟩} (trace ++ [.started challenge]) := by
  have attempted : (trace ++ [Event.started challenge]).filterMap attemptedId = trace.filterMap attemptedId := by
    rw [List.filterMap_append]
    exact List.append_nil _
  have logged : (trace ++ [Event.started challenge]).filterMap loggedInId = trace.filterMap loggedInId := by
    rw [List.filterMap_append]
    exact List.append_nil _
  refine ⟨?_,?_,by rw [attempted]; exact single.once,by rw [attempted,logged]; exact single.logins⟩
  · intro id row found
    rw [attempted]
    dsimp only at found
    rw [find_upsert] at found
    split at found
    · rename_i named
      cases found
      refine ⟨List.mem_append_right _ (List.mem_singleton.mpr rfl),named,?_⟩
      intro used
      exact fresh (by rw [show challenge.challengeId = id from named]; exact single.known id used)
    · obtain ⟨started,named,unused⟩ := single.stored id row (deleted_found found).1
      exact ⟨List.mem_append_left _ started,named,unused⟩
  · intro id inside
    rw [attempted] at inside
    rw [List.filterMap_append]
    exact List.mem_append_left _ (single.known id inside)

-- A finish that finds its challenge uses it up, whatever comes of it.
theorem attempt_single (single : SingleUse db trace) (id : String) (row : ChallengeRow) (held : db.challenges.find id = some row)
    (gone : ∀ other row', db'.challenges.find other = some row' → db.challenges.find other = some row' ∧ other ≠ id)
    (more : List Event) (login : more = [] ∨ ∃ k r, more = [.loggedIn id k r]) : SingleUse db' (trace ++ .attempted id :: more) := by
  obtain ⟨started,named,unused⟩ := single.stored id row held
  have attempted : (trace ++ .attempted id :: more).filterMap attemptedId = trace.filterMap attemptedId ++ [id] := by
    rw [List.filterMap_append]
    rcases login with rfl | ⟨k,r,rfl⟩ <;> rfl
  have startedAll : (trace ++ .attempted id :: more).filterMap startedId = trace.filterMap startedId := by
    rw [List.filterMap_append]
    rcases login with rfl | ⟨k,r,rfl⟩ <;> exact List.append_nil _
  have logged : ((trace ++ .attempted id :: more).filterMap loggedInId).Sublist (trace.filterMap loggedInId ++ [id]) := by
    rw [List.filterMap_append]
    apply List.Sublist.append (List.Sublist.refl _)
    rcases login with rfl | ⟨k,r,rfl⟩
    · exact List.nil_sublist _
    · exact List.Sublist.refl _
  refine ⟨?_,?_,?_,?_⟩
  · intro other row' found
    obtain ⟨old,distinct⟩ := gone other row' found
    obtain ⟨sent,is,new⟩ := single.stored other row' old
    rw [attempted]
    refine ⟨List.mem_append_left _ sent,is,?_⟩
    intro used
    rcases List.mem_append.mp used with before | now
    · exact new before
    · exact distinct (List.mem_singleton.mp now)
  · intro other inside
    rw [attempted] at inside
    rw [startedAll]
    rcases List.mem_append.mp inside with before | now
    · exact single.known other before
    · rw [List.mem_singleton.mp now]
      exact List.mem_filterMap.mpr ⟨_,started,by rw [← named]; rfl⟩
  · rw [attempted]
    exact List.nodup_append.mpr ⟨single.once,by simp,by
      intro a inside b last equal
      rw [List.mem_singleton.mp last] at equal
      exact unused (equal ▸ inside)⟩
  · rw [attempted]
    exact logged.trans (List.Sublist.append single.logins (List.Sublist.refl _))

theorem createSession_challenges (crates : SshCrates) (now : Nat) (sessionId : String) (entropy : List UInt8) (account device : String)
    (name : Option String) (expires : Option Int) (db : AuthDb) :
    (createSession crates now sessionId entropy account (some device) name expires db).1.challenges = db.challenges := by
  unfold createSession
  split
  · exact (ensureAccount_tables account db).2.2.2
  · rename_i created
    obtain ⟨_,_,_,_,_,_,_,rfl⟩ := createSessionOn_parts created
    exact (ensureAccount_tables account db).2.2.2

theorem inherit_challenges (now : Nat) (account source target : String) (db : AuthDb) :
    (inheritSshCredential now account source target db).1.challenges = db.challenges := by
  rcases inherit_parts now account source target db with ⟨row,_,_,_,_,same⟩ | ⟨row,_,_,same⟩ | same <;> rw [same]

theorem proceed_challenges (crates : SshCrates) (now : Nat) (sessionId : String) (entropy : List UInt8) (call : Call) (db : AuthDb) :
    (call.proceed crates now sessionId entropy db).1.challenges = db.challenges ∧
    ∀ e ∈ (call.proceed crates now sessionId entropy db).2.2, ∃ caller r, e = .authorized caller r := by
  have none : ∀ e ∈ ([] : List Event), ∃ caller r, e = .authorized caller r := fun e inside => absurd inside List.not_mem_nil
  have one : ∀ caller r, ∀ e ∈ [Event.authorized caller r], ∃ caller r, e = .authorized caller r :=
    fun caller r e inside => ⟨caller,r,List.mem_singleton.mp inside⟩
  unfold Call.proceed
  dsimp only
  split
  · exact ⟨rfl,none⟩
  · exact ⟨(ensureAccount_tables call.request.accountId db).2.2.2,none⟩
  · have kept := createSession_challenges crates now sessionId entropy call.request.accountId call.request.deviceId call.request.deviceName
      (some 2592000) db
    split
    · rename_i result
      rw [result] at kept
      exact ⟨kept,none⟩
    · rename_i result
      rw [result] at kept
      exact ⟨kept,none⟩
  · rename_i session token stage
    split
    · exact ⟨rfl,one _ _⟩
    · rename_i source asked
      have kept := inherit_challenges now call.request.accountId source session.sessionId db
      split
      · rename_i result
        rw [result] at kept
        exact ⟨kept,none⟩
      · rename_i result
        rw [result] at kept
        exact ⟨kept,one _ _⟩
  · exact ⟨rfl,none⟩

theorem perform_single (action : Action) (single : SingleUse s.db s.trace) (allowed : Allowed crates action s) :
    SingleUse (perform crates audience action s).db (perform crates audience action s).trace := by
  cases action with
  | addSshKey id account publicKey label createAccount =>
      unfold perform
      dsimp only
      split
      · exact single
      · rename_i added
        obtain ⟨_,_,_,rfl⟩ := addSshKey_parts added
        exact single_same single rfl
  | startSshLogin timestamp entropy challengeId request =>
      unfold perform
      dsimp only
      rcases startSshLogin_parts crates audience timestamp entropy challengeId request s.db with ⟨failure,challenges,same,is⟩ | ⟨challenge,key,named,same⟩
      · rw [same]
        rw [← List.append_nil s.trace]
        refine single_append single ?_ [] (fun e inside => absurd inside List.not_mem_nil)
        intro id row found
        rcases is with rfl | rfl
        · exact found
        · exact (deleted_found found).1
      · rw [same]
        subst named
        exact start_single single timestamp challenge key allowed
  | finishSshLogin sessionId entropy req =>
      unfold perform
      dsimp only
      have gone : ∀ other row', (s.db.challenges.delete (fun r => decide (r.challengeId = req.challenge.challengeId))).find other = some row' →
          s.db.challenges.find other = some row' ∧ other ≠ req.challenge.challengeId := by
        intro other row' found
        obtain ⟨held,kept⟩ := deleted_found found
        refine ⟨held,?_⟩
        rintro rfl
        have is := find_key held
        simp [is] at kept
      rcases finish_parts crates audience s.now sessionId entropy s.db req with
        ⟨absent,same⟩ | ⟨row,held,⟨failure,same⟩ | ⟨made,response,_,_,_,issued,same⟩⟩
      · rw [same]
        dsimp only
        refine single_append single (fun _ _ found => found) _ ?_
        simp [finishEvents,absent]
      · rw [same]
        dsimp only
        rw [finish_failed req failure held]
        exact attempt_single single _ row held gone [] (.inl rfl)
      · rw [same]
        dsimp only
        obtain ⟨c,base,session,message,linked,_,_,_,_,_,created,_,rfl⟩ := issueSession_parts issued
        obtain ⟨_,_,_,_,_,_,_,shape⟩ := createSessionOn_parts created
        have events : finishEvents s.db req (.ok response) =
            [.attempted req.challenge.challengeId,.loggedIn req.challenge.challengeId c.credentialId response] := by
          have key : linkedKey s.db req.challenge.challengeId = some c.credentialId := by
            rw [linkedKey,held,Option.bind_some,show linkedCredential s.db row = some c from linked,Option.map_some]
          unfold finishEvents
          rw [held,key]
          rfl
        rw [events]
        refine attempt_single single _ row held ?_ _ (.inr ⟨_,_,rfl⟩)
        rw [shape]
        exact gone
  | deviceAuthorize token request =>
      unfold perform
      dsimp only
      split
      · exact single
      · exact single
  | proceed i sessionId entropy =>
      unfold perform
      dsimp only
      split
      · exact single
      · rename_i call _
        obtain ⟨same,events⟩ := proceed_challenges crates s.now sessionId entropy call s.db
        refine single_append single (fun id row found => same ▸ found) _ ?_
        intro e inside
        obtain ⟨caller,r,rfl⟩ := events e inside
        exact ⟨rfl,rfl,rfl⟩
  | revokeSshKey account credential =>
      unfold perform
      dsimp only
      split
      · rename_i db found
        have same : db.challenges = s.db.challenges := congrArg (fun p : AuthDb × Bool => p.1.challenges) found.symm
        refine single_append single (fun id row found => same ▸ found) _ ?_
        intro e inside
        rw [List.mem_singleton.mp inside]
        exact ⟨rfl,rfl,rfl⟩
      · rename_i db found
        exact single_same single (congrArg (fun p : AuthDb × Bool => p.1.challenges) found.symm)
  | advance seconds => exact single

theorem opened_single (now : Nat) : SingleUse (opened now).db (opened now).trace :=
  ⟨fun _ _ found => (by cases found),fun _ inside => (by cases inside),List.nodup_nil,List.Sublist.refl _⟩

theorem run_sound {actions : List Action} (allowed : Along (step crates audience) (Allowed crates) actions (opened now))
    (ran : runAll (step crates audience) actions (opened now) = some s) : Sound crates s.db s.calls s.trace ∧ SingleUse s.db s.trace := by
  refine run_keeps (fun s => Sound crates s.db s.calls s.trace ∧ SingleUse s.db s.trace) ?_ actions allowed
    ⟨opened_sound now,opened_single now⟩ ran
  intro action s t inv fine taken
  cases taken
  exact ⟨perform_sound action inv.1 fine,perform_single action inv.2 fine⟩

-- A token opens its own session only.
theorem dead_token (sound : Sound crates db calls trace) (now : Nat) (r : SessionResponse) (backed : Backed crates db r)
    (dead : ∀ row, db.sessions.find r.sessionId = some row → row.accountId = r.accountId → row.deviceId = r.deviceId → row.revokedAt.isSome = true) :
    ∀ a d i, validateSessionToken crates now r.token db ≠ some (.valid a d i) := by
  intro a d i valid
  obtain ⟨row,held,hash,account,device⟩ := backed
  unfold validateSessionToken at valid
  obtain ⟨found,looked,is⟩ := Option.map_eq_some_iff.mp valid
  have same : found = row := by
    have hash' : found.tokenHash = tokenHash crates r.token := by simpa using List.find?_some looked
    have inside := mem_iff_find.mp (List.mem_of_find?_eq_some looked)
    have named := sound.digests _ _ found row inside held (hash'.trans hash.symm)
    rw [named,held] at inside
    exact (Option.some.inj inside).symm
  subst same
  rw [if_pos (dead found held account device)] at is
  split at is <;> cases is

-- The key stays with every session derived from one.
theorem keyed_derived {origin session key : String} (sound : Sound crates db calls trace) (derived : Derived trace origin session)
    (keyed : Keyed db origin (some key)) : Keyed db session (some key) := by
  induction derived with
  | refl => exact keyed
  | tail _ last ih =>
      obtain ⟨caller,r,inside,asked,rfl⟩ := last
      obtain ⟨source,_,carried,is,_,_,one,two⟩ := sound.derived caller r inside
      obtain ⟨row,found,has⟩ := ih
      obtain ⟨row',found',has'⟩ := one
      rw [Option.some.inj (asked.symm.trans is),found'] at found
      cases found
      rw [has'] at has
      rwa [has] at two

-- What a revocation of the key is to reach.
def FromKey (trace : List Event) (credential session : String) : Prop :=
  ∃ origin, IssuedBy trace credential origin ∧ Derived trace origin session

theorem revoked_dead {account credential : String} (sound : Sound crates db calls trace) (revoked : Event.revoked account credential ∈ trace)
    (r : SessionResponse) (reached : FromKey trace credential r.sessionId ∨ BoundTo db account credential r) (row : SessionRow)
    (held : db.sessions.find r.sessionId = some row) (home : row.accountId = r.accountId) (on : row.deviceId = r.deviceId) :
    row.revokedAt.isSome = true ∧ row.accountId = account := by
  obtain ⟨c,found,owner,_,sessions,_⟩ := sound.revoked account credential revoked
  rcases reached with ⟨origin,⟨id,response,logged,rfl⟩,derived⟩ | ⟨mine,device,pinned,bound⟩
  · obtain ⟨row',held',key⟩ := keyed_derived sound derived (sound.issued id credential response logged)
    rw [held] at held'
    cases held'
    obtain ⟨c',found',owner'⟩ := sound.owners _ row credential held key
    rw [found] at found'
    cases found'
    have own : row.accountId = account := owner'.symm.trans owner
    exact ⟨sessions _ row held own (.inl key),own⟩
  · have own : row.accountId = account := home.trans mine
    rw [pinnedDevice,found,Option.filter_some,if_pos (by simpa using owner),Option.bind_some] at pinned
    exact ⟨sessions _ row held own (.inr ⟨device,pinned,on.trans bound⟩),own⟩

-- What a finish has checked when it issues a session.
structure Proven (crates : SshCrates) (audience : String) (s : State) (req : SshFinishRequest) (c : CredentialRow) (response : SessionResponse) :
    Prop where
  unaltered : .started req.challenge ∈ s.trace
  linked : ∃ row, s.db.challenges.find req.challenge.challengeId = some row ∧ row.challenge = req.challenge ∧
    row.credentialId = some c.credentialId
  unexpired : s.now < req.challenge.expiresAt
  audience : req.challenge.request.audience = audience
  active : s.db.credentials.find c.credentialId = some c ∧ c.revokedAt = none ∧ activeAccount s.db.accounts c.accountId = true
  requested : ∀ a, req.challenge.request.accountId = some a → a = c.accountId
  pinned : ∀ d, c.deviceId = some d → d = req.challenge.request.deviceId
  device : isDeviceRevoked c.accountId req.challenge.request.deviceId s.db = false
  signed : ∃ message, signingBytes crates req.challenge = some message ∧ verifySignature crates c.publicKey message req.signature = true
  session : response.accountId = c.accountId ∧ response.deviceId = some req.challenge.request.deviceId

theorem finish_proven (single : SingleUse s.db s.trace) (sessionId : String) (entropy : List UInt8) (req : SshFinishRequest)
    (response : SessionResponse) (issued : (finishSshLogin crates audience s.now sessionId entropy req s.db).2 = .ok response) :
    ∃ c, Proven crates audience s req c response := by
  rcases finish_parts crates audience s.now sessionId entropy s.db req with
    ⟨_,same⟩ | ⟨row,held,⟨failure,same⟩ | ⟨made,response',same',fresh,meant,checked,same⟩⟩
  · rw [same] at issued
    cases issued
  · rw [same] at issued
    cases issued
  · rw [same] at issued
    cases issued
    obtain ⟨c,_,_,message,linked,requested,pinned,live,signed,proven,_,is,_⟩ := issueSession_parts checked
    obtain ⟨found,_,link,unrevoked,active⟩ := linked_parts (show linkedCredential s.db row = some c from linked)
    obtain ⟨started,_⟩ := single.stored _ row held
    rw [same'] at started fresh meant requested pinned live signed is
    refine ⟨c,⟨started,⟨row,held,same',link⟩,fresh,meant,⟨found,unrevoked,active⟩,requested,pinned,live,⟨message,signed,proven⟩,?_⟩⟩
    rw [is]
    exact ⟨rfl,rfl⟩

-- Nothing is handed out on behalf of a session that the revocation has reached.
theorem revoked_authorizes {account credential : String} (sound : Sound crates s.db s.calls s.trace)
    (revoked : Event.revoked account credential ∈ s.trace) (action : Action) (caller : AuthenticatedAccount) (response : SessionResponse)
    (out : Event.authorized caller response ∈ (perform crates audience action s).trace) (old : Event.authorized caller response ∉ s.trace)
    (r : SessionResponse) (known : r ∈ handed s.trace) (from' : caller.sessionId = some r.sessionId) :
    ¬(FromKey s.trace credential r.sessionId ∨ BoundTo s.db account credential r) := by
  intro reached
  obtain ⟨row,held,_,home,on⟩ := sound.out r known
  obtain ⟨dead,_⟩ := revoked_dead sound revoked r reached row held home on
  cases action with
  | proceed i sessionId entropy =>
      unfold perform at out
      dsimp only at out
      split at out
      · exact old out
      · rename_i call here
        dsimp only at out
        have late := (List.mem_append.mp out).resolve_left old
        unfold Call.proceed at late
        dsimp only at late
        split at late
        · cases late
        · cases late
        · split at late <;> cases late
        · rename_i session token _
          split at late
          · rename_i asked
            have is : caller = call.caller ∧ response = Call.respond session token := by simpa using late
            rw [is.1,asked] at from'
            cases from'
          · rename_i source asked
            rcases inherit_parts s.now call.request.accountId source session.sessionId s.db with
              ⟨row',found,_,live,_,same⟩ | ⟨row',_,_,same⟩ | same
            · rw [same] at late
              have is : caller = call.caller ∧ response = Call.respond session token := by simpa using late
              rw [is.1,asked] at from'
              rw [Option.some.inj from',held] at found
              cases found
              rw [live] at dead
              cases dead
            · rw [same] at late
              cases late
            · rw [same] at late
              cases late
        · cases late
  | addSshKey id account publicKey label createAccount =>
      unfold perform at out
      dsimp only at out
      split at out <;> exact old out
  | startSshLogin timestamp entropy challengeId request =>
      unfold perform at out
      dsimp only at out
      split at out
      · exact old out
      · simp [old] at out
  | finishSshLogin sessionId entropy req =>
      unfold perform at out
      dsimp only at out
      have late := (List.mem_append.mp out).resolve_left old
      unfold finishEvents at late
      rcases List.mem_append.mp late with one | two
      · split at one <;> simp at one
      · split at two <;> simp at two
  | deviceAuthorize token request =>
      unfold perform at out
      dsimp only at out
      split at out <;> exact old out
  | revokeSshKey a k =>
      unfold perform at out
      dsimp only at out
      split at out
      · simp [old] at out
      · exact old out
  | advance seconds => exact old out

-- A stand-in that agrees with the crates where the run below asks them: three
-- Base64 texts, two keys, and signatures that carry their key's digest.
def knownBytes : List (List UInt8 × String) :=
  [(List.replicate 32 0,"AAAAAAAAAAAAAAAAAAAAAAAAAAAAAAAAAAAAAAAAAAA"),(List.replicate 32 0x55,"VVVVVVVVVVVVVVVVVVVVVVVVVVVVVVVVVVVVVVVVVVU"),
    (List.replicate 32 0xaa,"qqqqqqqqqqqqqqqqqqqqqqqqqqqqqqqqqqqqqqqqqqo")]

def hexValue (c : Char) : Nat := if c.toNat < 58 then c.toNat - 48 else c.toNat - 87

def hexPairs : List Char → List UInt8
  | a :: b :: rest => UInt8.ofNat (16 * hexValue a + hexValue b) :: hexPairs rest
  | _ => []

def keyText (digest : String) : PublicKey := ⟨"ssh-ed25519","ssh-ed25519 " ++ digest,"SHA256:" ++ digest⟩

def SshCrates.standIn : SshCrates where
  fromOpenssh text := (knownBytes.find? (fun known => "ssh-ed25519 " ++ known.2 == text)).map (fun known => keyText known.2)
  parsesFingerprint text := knownBytes.any (fun known => "SHA256:" ++ known.2 == text)
  signatureFrom data := some ⟨"ssh-ed25519",data⟩
  verifies key _ signature := knownBytes.any (fun known => known.1 == signature.data && "SHA256:" ++ known.2 == key.fingerprint)
  decodeBase64 text := (knownBytes.find? (·.2 == text)).map (·.1)
  encodeBase64 data := ((knownBytes.find? (·.1 == data)).map (·.2)).getD ""
  decodeBase64Url text := (knownBytes.find? (·.2 == text)).map (·.1)
  encodeBase64Url data := ((knownBytes.find? (·.1 == data)).map (·.2)).getD ""
  uuidBytes text := hexPairs (text.toList.filter (· ≠ '-'))
  blake2s data := data

def uuid (last : String) : String := "00000000-0000-0000-0000-0000000000" ++ last

-- Two keys of one account log in from one machine; the second one's session
-- authorizes another device, and the first key is revoked.
def zeros : List UInt8 := List.replicate 32 0
def lostMachine (digest : String) : SshStartRequest := ⟨1,"SHA256:" ++ digest,"https://notes.example",none,uuid "dd"⟩
def firstDigest : String := "AAAAAAAAAAAAAAAAAAAAAAAAAAAAAAAAAAAAAAAAAAA"
def secondDigest : String := "VVVVVVVVVVVVVVVVVVVVVVVVVVVVVVVVVVVVVVVVVVU"
def proof (digest id : String) : SshFinishRequest := ⟨⟨lostMachine digest,uuid id,firstDigest,1120⟩,digest⟩

def lostMachineRun : List Action :=
  [.addSshKey (uuid "c1") (uuid "aa") ("ssh-ed25519 " ++ firstDigest) none true,
    .addSshKey (uuid "c2") (uuid "aa") ("ssh-ed25519 " ++ secondDigest) none false,
    .startSshLogin 1000 zeros (uuid "e1") (lostMachine firstDigest),
    .finishSshLogin (uuid "51") zeros (proof firstDigest "e1"),
    .startSshLogin 1000 zeros (uuid "e2") (lostMachine secondDigest),
    .finishSshLogin (uuid "52") (List.replicate 32 0x55) (proof secondDigest "e2"),
    .deviceAuthorize ("zk_sess_" ++ secondDigest) ⟨uuid "aa",uuid "d2",none⟩,
    .proceed 0 (uuid "53") zeros,
    .proceed 0 (uuid "53") zeros,
    .proceed 0 (uuid "53") (List.replicate 32 0xaa),
    .proceed 0 (uuid "53") zeros,
    .revokeSshKey (uuid "aa") (uuid "c1")]

def lostMachineEnd : State := lostMachineRun.foldl (fun s action => perform SshCrates.standIn "https://notes.example" action s) (opened 1000)

theorem run_total (crates : SshCrates) (audience : String) (actions : List Action) (s : State) :
    runAll (step crates audience) actions s = some (actions.foldl (fun s action => perform crates audience action s) s) := by
  induction actions generalizing s with
  | nil => rfl
  | cons action rest ih => exact ih _

def firstSession : SessionResponse := ⟨"zk_sess_" ++ firstDigest,uuid "51",uuid "aa",some (uuid "dd"),some 4600⟩
def secondSession : SessionResponse := ⟨"zk_sess_" ++ secondDigest,uuid "52",uuid "aa",some (uuid "dd"),some 4600⟩
def thirdSession : SessionResponse :=
  ⟨"zk_sess_qqqqqqqqqqqqqqqqqqqqqqqqqqqqqqqqqqqqqqqqqqo",uuid "53",uuid "aa",some (uuid "d2"),some 2593000⟩

theorem lost_machine_ran :
    runAll (step SshCrates.standIn "https://notes.example") lostMachineRun (opened 1000) = some lostMachineEnd := run_total _ _ _ _

theorem lost_machine_end :
    Along (step SshCrates.standIn "https://notes.example") (Allowed SshCrates.standIn) lostMachineRun (opened 1000) ∧
    lostMachineEnd.trace = [.started (proof firstDigest "e1").challenge,.attempted (uuid "e1"),.loggedIn (uuid "e1") (uuid "c1") firstSession,
      .started (proof secondDigest "e2").challenge,.attempted (uuid "e2"),.loggedIn (uuid "e2") (uuid "c2") secondSession,
      .authorized ⟨uuid "aa",some (uuid "dd"),some (uuid "52")⟩ thirdSession,.revoked (uuid "aa") (uuid "c1")] ∧
    pinnedDevice lostMachineEnd.db (uuid "aa") (uuid "c1") = some (uuid "dd") ∧
    validateSessionToken SshCrates.standIn lostMachineEnd.now thirdSession.token lostMachineEnd.db =
      some (.valid (uuid "aa") (some (uuid "d2")) (uuid "53")) := by
  decide +kernel

theorem ssh_revocation_final (actions : List Action) (allowed : Along (step crates audience) (Allowed crates) actions (opened now))
    (ran : runAll (step crates audience) actions (opened now) = some s) :
    (s.trace.filterMap attemptedId).Nodup ∧ (s.trace.filterMap loggedInId).Nodup ∧
    (∀ sessionId entropy req response, (finishSshLogin crates audience s.now sessionId entropy req s.db).2 = .ok response →
      ∃ c, Proven crates audience s req c response) ∧
    ∀ account credential, .revoked account credential ∈ s.trace →
      (∀ r ∈ handed s.trace, FromKey s.trace credential r.sessionId ∨ BoundTo s.db account credential r →
        ∀ a d i, validateSessionToken crates s.now r.token s.db ≠ some (.valid a d i)) ∧
      ∀ action caller response, .authorized caller response ∈ (perform crates audience action s).trace →
        .authorized caller response ∉ s.trace → ∀ r ∈ handed s.trace, caller.sessionId = some r.sessionId →
        ¬(FromKey s.trace credential r.sessionId ∨ BoundTo s.db account credential r) := by
  obtain ⟨sound,single⟩ := run_sound allowed ran
  refine ⟨single.once,single.once.sublist single.logins,fun sessionId entropy req response => finish_proven single sessionId entropy req response,?_⟩
  intro account credential revoked
  refine ⟨?_,fun action caller response => revoked_authorizes sound revoked action caller response⟩
  intro r known reached
  exact dead_token sound s.now r (sound.out r known) (fun row held home on => (revoked_dead sound revoked r reached row held home on).1)

theorem first_key_revocation_final : (lostMachineEnd.trace.filterMap loggedInId).Nodup ∧
    ∀ a d i, validateSessionToken SshCrates.standIn lostMachineEnd.now firstSession.token lostMachineEnd.db ≠ some (.valid a d i) := by
  obtain ⟨allowed,trace,_,_⟩ := lost_machine_end
  obtain ⟨_,once,_,final⟩ := ssh_revocation_final lostMachineRun allowed lost_machine_ran
  refine ⟨once,?_⟩
  apply (final (uuid "aa") (uuid "c1") (by simp [trace])).1 firstSession (by simp [trace,handed,handedResponse])
  exact .inl ⟨_,⟨uuid "e1",firstSession,by simp [trace],rfl⟩,.refl⟩

-- The session that the second key opened on the lost machine has authorized one
-- that outlives the machine.
theorem lost_machine_authorized_stays :
    Along (step SshCrates.standIn "https://notes.example") (Allowed SshCrates.standIn) lostMachineRun (opened 1000) ∧
    runAll (step SshCrates.standIn "https://notes.example") lostMachineRun (opened 1000) = some lostMachineEnd ∧
    .revoked (uuid "aa") (uuid "c1") ∈ lostMachineEnd.trace ∧ secondSession ∈ handed lostMachineEnd.trace ∧
    BoundTo lostMachineEnd.db (uuid "aa") (uuid "c1") secondSession ∧
    Derived lostMachineEnd.trace secondSession.sessionId thirdSession.sessionId ∧ thirdSession ∈ handed lostMachineEnd.trace ∧
    validateSessionToken SshCrates.standIn lostMachineEnd.now thirdSession.token lostMachineEnd.db =
      some (.valid (uuid "aa") (some (uuid "d2")) (uuid "53")) := by
  obtain ⟨allowed,trace,pinned,valid⟩ := lost_machine_end
  have authorized : .authorized ⟨uuid "aa",some (uuid "dd"),some (uuid "52")⟩ thirdSession ∈ lostMachineEnd.trace := by simp [trace]
  refine ⟨allowed,lost_machine_ran,?_,?_,⟨rfl,_,pinned,rfl⟩,.single ⟨_,_,authorized,rfl,rfl⟩,?_,valid⟩
  · simp [trace]
  · simp [trace,handed,handedResponse]
  · simp [trace,handed,handedResponse]

end ZkNote.SshFinality
