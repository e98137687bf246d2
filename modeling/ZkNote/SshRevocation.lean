import ZkNote.SshSteps

namespace ZkNote.SshRevocation
open KeyedTable SshAuth SshSessions SshBooks SshSteps Runs

variable {crates : SshCrates} {audience : String} {now : Nat} {db db' : AuthDb} {calls : List Call} {trace : List Event}
  {sessionId account credential : String} {entropy : List UInt8} {s t : State}

theorem session_revoke (now : Nat) (hit : Bool) (row : SessionRow) : Same row (if hit then row.revoke now else row) ∧
    (if hit then row.revoke now else row).sshCredentialId = row.sshCredentialId := by
  split
  · exact ⟨⟨rfl,rfl,rfl,fun _ => rfl⟩,rfl⟩
  · exact ⟨Same.refl row,rfl⟩

theorem revoke_advances (now : Nat) (account credential : String) (db : AuthDb) :
    Advances none nobody db (revokeSshKey now account credential db).1 := by
  unfold revokeSshKey
  refine ⟨?_,?_,?_,?_,?_,?_⟩
  · intro id row held
    dsimp only
    refine ⟨_,by rw [find_update,find_update,held,Option.map_some,Option.map_some],?_,?_⟩
    · exact (session_revoke now _ row).1.trans (session_revoke now _ _).1
    · intro _
      exact (session_revoke now _ _).2.trans (session_revoke now _ row).2
  · intro id row' here
    dsimp only at here
    rw [find_update,find_update,Option.map_map] at here
    obtain ⟨row,held,rfl⟩ := Option.map_eq_some_iff.mp here
    exact .inl ⟨row,held,(session_revoke now _ row).1.trans (session_revoke now _ _).1,
      .inl ((session_revoke now _ _).2.trans (session_revoke now _ row).2)⟩
  · intro k c held
    dsimp only
    refine ⟨_,by rw [find_update,held,Option.map_some],?_,?_⟩
    · split <;> rfl
    · intro dead
      split
      · exact ⟨rfl,rfl⟩
      · exact ⟨dead,rfl⟩
  · intro k c' d here pinned
    dsimp only at here
    rw [find_update] at here
    obtain ⟨c,held,rfl⟩ := Option.map_eq_some_iff.mp here
    refine .inl ⟨c,held,?_,?_⟩
    · split <;> rfl
    · split at pinned
      · exact pinned
      · exact pinned
  · intro key known
    dsimp only
    rwa [find_update,Option.isSome_map]
  · intro a d revoked
    unfold isDeviceRevoked at revoked ⊢
    dsimp only
    rw [find_update]
    cases held : db.devices.find (a,d) with
    | none =>
        rw [held] at revoked
        cases revoked
    | some row =>
        rw [held] at revoked
        simp only [Option.map_some,Option.getD_some] at revoked ⊢
        split
        · rfl
        · exact revoked

theorem revoke_revokes (now : Nat) (account credential : String) (tables : Tables db) (found : (revokeSshKey now account credential db).2 = true) :
    Revoked (revokeSshKey now account credential db).1 account credential := by
  obtain ⟨c,held,mine⟩ := (Option.any_eq_true _ _).mp (show (db.credentials.find credential).any (fun row => row.accountId == account) = true from found)
  have own : c.accountId = account := by simpa using mine
  have named : c.credentialId = credential := find_key held
  have pinned : pinnedDevice db account credential = c.deviceId := by
    rw [pinnedDevice,held,Option.filter_some,if_pos (by simpa using own),Option.bind_some]
  unfold revokeSshKey
  refine ⟨c.revoke now,?_,own,rfl,?_,?_⟩
  · dsimp only
    rw [find_update,held,Option.map_some,if_pos (by simp [own,named])]
  · intro id row' here mine cause
    dsimp only at here
    rw [find_update,find_update,Option.map_map] at here
    obtain ⟨row,_,rfl⟩ := Option.map_eq_some_iff.mp here
    rw [Function.comp_apply] at mine cause ⊢
    obtain ⟨one,key⟩ := session_revoke now (row.accountId == account && ((pinnedDevice db account credential).isSome &&
      row.deviceId == pinnedDevice db account credential)) row
    generalize middle : (if row.accountId == account && ((pinnedDevice db account credential).isSome &&
      row.deviceId == pinnedDevice db account credential) then row.revoke now else row) = mid at *
    obtain ⟨two,key'⟩ := session_revoke now (mid.accountId == account && mid.sshCredentialId == some credential) mid
    have home : mid.accountId = account := two.account.symm.trans mine
    rcases cause with carried | ⟨d,pin,on⟩
    · rw [if_pos (by simp [home,key'.symm.trans carried])]
      rfl
    · apply two.revoked
      have device : row.deviceId = some d := one.device.symm.trans (two.device.symm.trans on)
      have bound : pinnedDevice db account credential = some d := pinned.trans pin
      rw [← middle,if_pos (by simp [one.account.symm.trans home,bound,device])]
      rfl
  · intro d pin
    have known := tables.pinned credential c d held pin
    obtain ⟨row,there⟩ := Option.isSome_iff_exists.mp known
    have is := find_key there
    have bound : pinnedDevice db account credential = some d := pinned.trans pin
    simp only [Prod.mk.injEq] at is
    unfold isDeviceRevoked
    dsimp only
    rw [find_update,← own,there,Option.map_some,if_pos (by simp [is,own,bound])]
    rfl

theorem issueSession_parts {req : SshFinishRequest} {row : ChallengeRow} {response : SessionResponse}
    (issued : issueSession crates now sessionId entropy req row db = .ok (db',response)) :
    ∃ c made session message, linkedCredential db row = some c ∧
      (∀ a, row.challenge.request.accountId = some a → a = c.accountId) ∧
      (∀ d, c.deviceId = some d → d = row.challenge.request.deviceId) ∧
      isDeviceRevoked c.accountId row.challenge.request.deviceId db = false ∧
      signingBytes crates row.challenge = some message ∧ verifySignature crates c.publicKey message req.signature = true ∧
      createSessionOn crates now sessionId entropy c.accountId (some row.challenge.request.deviceId) (some "SSH native client") (some 3600) db =
        .ok (made,session,response.token) ∧
      response = ⟨response.token,session.sessionId,c.accountId,some row.challenge.request.deviceId,session.expiresAt⟩ ∧
      db' = {made with
        credentials := made.credentials.update (fun k => k.credentialId == c.credentialId)
          (fun k => {k with deviceId := some row.challenge.request.deviceId}) (fun _ => rfl)
        sessions := made.sessions.update (fun s => s.sessionId == session.sessionId)
          (fun s => {s with sshCredentialId := some c.credentialId}) (fun _ => rfl)} := by
  unfold issueSession at issued
  split at issued
  · cases issued
  · rename_i c linked
    dsimp only at issued
    split at issued
    · cases issued
    · rename_i fits
      rw [Bool.not_eq_true,Bool.or_eq_false_iff] at fits
      split at issued
      · cases issued
      · rename_i live
        split at issued
        · cases issued
        · rename_i message signed
          split at issued
          · cases issued
          · rename_i proven
            split at issued
            · cases issued
            · rename_i made session token created
              cases issued
              refine ⟨c,made,session,message,linked,?_,?_,by simpa using live,signed,by simpa using proven,created,rfl,rfl⟩
              · intro a asked
                have no := fits.1
                rw [asked,Option.any_some] at no
                simpa using no
              · intro d bound
                have no := fits.2
                rw [bound,Option.any_some] at no
                simpa using no

theorem linked_parts {row : ChallengeRow} {c : CredentialRow} (linked : linkedCredential db row = some c) :
    db.credentials.find c.credentialId = some c ∧ c.fingerprint = row.challenge.request.fingerprint ∧ row.credentialId = some c.credentialId ∧
      c.revokedAt = none ∧ activeAccount db.accounts c.accountId = true := by
  have fits := List.find?_some linked
  simp only [Bool.and_eq_true,beq_iff_eq,Option.isNone_iff_eq_none] at fits
  exact ⟨mem_find (List.mem_of_find?_eq_some linked) rfl,fits.1.1.1,fits.1.1.2.symm,fits.1.2,fits.2⟩

theorem finish_parts (crates : SshCrates) (audience : String) (now : Nat) (sessionId : String) (entropy : List UInt8)
    (db : AuthDb) (req : SshFinishRequest) :
    (db.challenges.find req.challenge.challengeId = none ∧
      finishSshLogin crates audience now sessionId entropy req db = (db,.error .challengeNotFound)) ∨
    ∃ row, db.challenges.find req.challenge.challengeId = some row ∧
      ((∃ failure, finishSshLogin crates audience now sessionId entropy req db =
        ({db with challenges := db.challenges.delete (fun r => decide (r.challengeId = req.challenge.challengeId))},.error failure)) ∨
      ∃ made response, row.challenge = req.challenge ∧ now < row.challenge.expiresAt ∧ row.challenge.request.audience = audience ∧
        issueSession crates now sessionId entropy req row
          {db with challenges := db.challenges.delete (fun r => decide (r.challengeId = req.challenge.challengeId))} = .ok (made,response) ∧
        finishSshLogin crates audience now sessionId entropy req db = (made,.ok response)) := by
  unfold finishSshLogin
  cases held : db.challenges.find req.challenge.challengeId with
  | none => exact .inl ⟨rfl,rfl⟩
  | some row =>
      right
      refine ⟨row,rfl,?_⟩
      dsimp only
      split
      · exact .inl ⟨_,rfl⟩
      · split
        · exact .inl ⟨_,rfl⟩
        · rename_i fits
          simp only [not_or,not_not,Nat.not_le] at fits
          split
          · exact .inl ⟨_,rfl⟩
          · rename_i made response issued
            exact .inr ⟨made,response,fits.1,fits.2.1,fits.2.2.1,issued,rfl⟩

-- Events that hand out nothing and revoke nothing.
theorem sound_quiet (sound : Sound crates db calls trace) (events : List Event)
    (quiet : ∀ e ∈ events, handedResponse e = none ∧ ∀ account k, e ≠ .revoked account k) : Sound crates db calls (trace ++ events) := by
  have none : ∀ r, r ∉ handed events := by
    intro r inside
    obtain ⟨e,member,is⟩ := List.mem_filterMap.mp inside
    rw [(quiet e member).1] at is
    cases is
  refine sound_extends sound events calls ?_ ?_ ?_ ?_ ?_ ?_
  · intro i call session token made
    exact ⟨⟨call,made,rfl⟩,fun r inside => absurd inside (none r)⟩
  · intro call inside
    exact .inl ⟨call,inside,rfl⟩
  · intro r inside
    exact absurd inside (none r)
  · intro id k r inside
    cases (quiet _ inside).1
  · intro caller r inside
    cases (quiet _ inside).1
  · intro account k inside
    exact absurd rfl ((quiet _ inside).2 account k)

theorem sound_calm (sound : Sound crates db calls trace) (advances : Advances none nobody db db') : Sound crates db' calls trace :=
  sound_advances sound advances (fun _ _ no => no)

theorem sound_challenges (sound : Sound crates db calls trace) (challenges : Table String ChallengeRow (·.challengeId)) :
    Sound crates {db with challenges := challenges} calls trace := sound_calm sound (advances_same rfl rfl rfl)

-- A call that goes on without a session in hand.
theorem sound_stage (sound : Sound crates db calls trace) (i : Nat) (call : Call) (here : calls[i]? = some call) (stage : Stage)
    (empty : ∀ session token, stage ≠ .created session token) : Sound crates db (calls.set i {call with stage := stage}) trace := by
  rw [← List.append_nil trace]
  refine sound_extends sound [] _ ?_ ?_ ?_ ?_ ?_ ?_
  · intro j call' session token made
    rcases making_set made with ⟨_,_,is⟩ | ⟨_,old⟩
    · exact absurd is (empty session token)
    · exact ⟨⟨call',old,rfl⟩,fun r inside => absurd inside List.not_mem_nil⟩
  · intro call' inside
    rcases List.mem_or_eq_of_mem_set inside with old | rfl
    · exact .inl ⟨call',old,rfl⟩
    · exact .inl ⟨call,List.mem_of_getElem? here,rfl⟩
  · intro r inside
    cases inside
  · intro id k r inside
    cases inside
  · intro caller r inside
    cases inside
  · intro account k inside
    cases inside

theorem finish_failed (req : SshFinishRequest) (failure : DbError) (held : db.challenges.find req.challenge.challengeId = some row) :
    finishEvents db req (.error failure) = [.attempted req.challenge.challengeId] := by
  unfold finishEvents
  rw [held]
  rfl

theorem finish_sound (sound : Sound crates db calls trace) (audience : String) (now : Nat) (sessionId : String) (entropy : List UInt8)
    (req : SshFinishRequest) : Sound crates (finishSshLogin crates audience now sessionId entropy req db).1 calls
      (trace ++ finishEvents db req (finishSshLogin crates audience now sessionId entropy req db).2) := by
  rcases finish_parts crates audience now sessionId entropy db req with ⟨absent,same⟩ | ⟨row,held,⟨failure,same⟩ | ⟨made,response,_,_,_,issued,same⟩⟩
  · rw [same]
    apply sound_quiet sound
    simp [finishEvents,absent]
  · rw [same]
    apply sound_quiet (sound_challenges sound _)
    intro e inside
    rw [finish_failed req failure held,List.mem_singleton] at inside
    subst inside
    exact ⟨rfl,fun _ _ no => by cases no⟩
  · rw [same]
    obtain ⟨c,base,session,message,linked,_,_,_,_,_,created,is,rfl⟩ := issueSession_parts issued
    have linked' : linkedCredential db row = some c := linked
    obtain ⟨found,_,_,live,_⟩ := linked_parts linked'
    obtain ⟨_,fresh,_,id,home,device,expires,shape⟩ := createSessionOn_parts created
    have calm := sound_challenges sound (db.challenges.delete (fun r => decide (r.challengeId = req.challenge.challengeId)))
    have based : Sound crates base calls trace := sound_advances calm (createSessionOn_advances created) (fun _ _ no => no)
    obtain ⟨mine,there,hash,owner,on⟩ := createSessionOn_backed created
    have new : ∀ r, Backed crates db r → r.sessionId ≠ session.sessionId := by
      intro r backed same
      obtain ⟨old,present,_⟩ := backed
      rw [same,id] at present
      rw [show db.sessions.find sessionId = none from fresh] at present
      cases present
    have pinned := pin_advances base session.sessionId row.challenge.request.deviceId c.credentialId
      (show base.credentials.find c.credentialId = some c by rw [shape]; exact found) live
      (by
        intro other present
        rw [show base.sessions.find session.sessionId = some mine from there] at present
        cases present
        exact owner.trans home)
      (by
        rw [shape]
        exact register_known _ _ _ _ _ _ (.inl rfl))
    have final := sound_advances based pinned (fun r inside => new r (sound.out r inside))
    have key : linkedKey db req.challenge.challengeId = some c.credentialId := by
      rw [linkedKey,held,Option.bind_some,linked',Option.map_some]
    have events : finishEvents db req (.ok response) =
        [.attempted req.challenge.challengeId,.loggedIn req.challenge.challengeId c.credentialId response] := by
      unfold finishEvents
      rw [held,key]
      rfl
    have named : response.sessionId = session.sessionId := by rw [is]
    rw [events]
    refine sound_extends final _ calls ?_ ?_ ?_ ?_ ?_ ?_
    · intro i call session' token made
      refine ⟨⟨call,made,rfl⟩,?_⟩
      intro r inside same
      rw [List.mem_singleton.mp (show r ∈ [response] from inside),named] at same
      exact new _ (sound.making i call session' token made).1 same.symm
    · intro call inside
      exact .inl ⟨call,inside,rfl⟩
    · intro r inside
      rw [List.mem_singleton.mp (show r ∈ [response] from inside)]
      apply backed_advances pinned
      rw [is]
      exact ⟨mine,there,hash,owner.trans home,on.trans device⟩
    · intro k credential r inside
      have parts : k = req.challenge.challengeId ∧ credential = c.credentialId ∧ r = response := by simpa using inside
      obtain ⟨_,rfl,rfl⟩ := parts
      refine ⟨{mine with sshCredentialId := some c.credentialId},?_,rfl⟩
      dsimp only
      rw [find_update,named,show base.sessions.find session.sessionId = some mine from there,Option.map_some,if_pos]
      rw [beq_iff_eq]
      exact find_key there
    · intro caller r inside
      simp at inside
    · intro a k inside
      simp at inside

theorem create_sound (sound : Sound crates db calls trace) (i : Nat) (call : Call) (here : calls[i]? = some call) (now : Nat) (sessionId : String)
    (entropy : List UInt8) (name : Option String) (expires : Option Int) :
    match createSession crates now sessionId entropy call.request.accountId (some call.request.deviceId) name expires db with
    | (db',.error _) => Sound crates db' (calls.set i {call with stage := .answered}) trace
    | (db',.ok (session,token)) => Sound crates db' (calls.set i {call with stage := .created session token}) trace := by
  obtain ⟨sessions,credentials,devices,_⟩ := ensureAccount_tables call.request.accountId db
  have calm := sound_calm sound (advances_same sessions credentials devices)
  unfold createSession
  cases result : createSessionOn crates now sessionId entropy call.request.accountId (some call.request.deviceId) name expires
      (ensureAccount call.request.accountId db) with
  | error failure => exact sound_stage calm i call here .answered (fun _ _ no => by cases no)
  | ok made =>
      obtain ⟨base,session,token⟩ := made
      obtain ⟨_,fresh,_,id,home,_⟩ := createSessionOn_parts result
      have based := sound_advances calm (createSessionOn_advances result) (fun _ _ no => no)
      have new : ∀ r, Backed crates (ensureAccount call.request.accountId db) r → r.sessionId ≠ session.sessionId := by
        intro r backed same
        obtain ⟨old,present,_⟩ := backed
        rw [same,id,fresh] at present
        cases present
      exact sound_created based i call here session token (createSessionOn_backed result) home (fun r inside => new r (calm.out r inside))
        (fun j call' session' token' made => new _ (calm.making j call' session' token' made).1)

-- The new session is handed out with the key of the one it came from.
theorem inherit_sound (sound : Sound crates db calls trace) (i : Nat) (call : Call) (session : AuthenticatedSession) (token source : String)
    (made : Making calls i call session token) (asked : call.caller.sessionId = some source) (now : Nat) :
    match inheritSshCredential now call.request.accountId source session.sessionId db with
    | (db',.error _) => Sound crates db' (calls.set i {call with stage := .answered}) trace
    | (db',.ok ()) => Sound crates db' (calls.set i {call with stage := .answered})
        (trace ++ [.authorized call.caller (Call.respond session token)]) := by
  obtain ⟨from',caller,is,known,named⟩ := sound.callers call (List.mem_of_getElem? made.1)
  obtain rfl : source = from' := Option.some.inj (asked.symm.trans is)
  have own := sound.apart i call session token made
  have still : ∀ r ∈ handed trace, ¬r.sessionId = session.sessionId := own
  have owner : ∀ row k, db.sessions.find source = some row → row.sshCredentialId = some k → row.accountId = call.request.accountId →
      ∃ c, db.credentials.find k = some c ∧ c.accountId = call.request.accountId := by
    intro row k found key mine
    obtain ⟨c,held,same⟩ := sound.owners source row k found key
    exact ⟨c,held,same.trans mine⟩
  rcases inherit_parts now call.request.accountId source session.sessionId db with
    ⟨row,found,mine,_,live,same⟩ | ⟨row,found,mine,same⟩ | same
  · rw [same]
    have moved := carry_advances db call.request.accountId session.sessionId row.sshCredentialId none
      (by
        intro _ _ _ k key
        obtain ⟨c,held,home⟩ := owner row k found key mine
        obtain ⟨c',held',open'⟩ := live k key
        rw [held] at held'
        cases held'
        exact ⟨c,held,home,.inl open'⟩)
      (fun r => {r with sshCredentialId := row.sshCredentialId}) (fun _ => rfl) (fun r => .inl (by simp))
    have final := sound_advances sound moved still
    obtain ⟨⟨target,there,hash,home,device⟩,homed⟩ := sound.making i call session token made
    have apart : source ≠ session.sessionId := by
      rw [← named]
      exact own caller known
    refine sound_extends final _ _ ?_ ?_ ?_ ?_ ?_ ?_
    · intro j call' session' token' other
      rcases making_set other with ⟨_,_,stage⟩ | ⟨distinct,old⟩
      · cases stage
      · refine ⟨⟨call',old,rfl⟩,?_⟩
        intro r inside equal
        rw [List.mem_singleton.mp (show r ∈ [Call.respond session token] from inside)] at equal
        exact distinct (sound.single i j call call' session session' token token' made old equal)
    · intro call' inside
      rcases List.mem_or_eq_of_mem_set inside with old | rfl
      · exact .inl ⟨call',old,rfl⟩
      · exact .inl ⟨call,List.mem_of_getElem? made.1,rfl⟩
    · intro r inside
      rw [List.mem_singleton.mp (show r ∈ [Call.respond session token] from inside)]
      exact backed_advances moved _ ⟨target,there,hash,home,device⟩
    · intro id k r inside
      simp at inside
    · intro caller' r inside
      have parts : caller' = call.caller ∧ r = Call.respond session token := by simpa using inside
      obtain ⟨rfl,rfl⟩ := parts
      refine ⟨source,caller,row.sshCredentialId,asked,known,named,?_,?_⟩
      · exact keyed_advances moved apart ⟨row,found,rfl⟩
      · refine ⟨{target with sshCredentialId := row.sshCredentialId},?_,rfl⟩
        dsimp only
        rw [find_update,there,Option.map_some,if_pos]
        have id : target.sessionId = session.sessionId := find_key there
        have mine' : target.accountId = call.request.accountId := home.trans homed
        simp [id,mine']
    · intro a k inside
      simp at inside
  · rw [same]
    have moved := carry_advances db call.request.accountId session.sessionId row.sshCredentialId (some now)
      (by
        intro _ _ _ k key
        obtain ⟨c,held,home⟩ := owner row k found key mine
        exact ⟨c,held,home,.inr rfl⟩)
      (fun r => {r with sshCredentialId := row.sshCredentialId, revokedAt := some now}) (fun _ => rfl) (fun r => .inl (by simp))
    exact sound_stage (sound_advances sound moved still) i call made.1 .answered (fun _ _ no => by cases no)
  · rw [same]
    have moved := carry_advances db call.request.accountId session.sessionId none (some now)
      (by
        intro _ _ _ k key
        cases key)
      (fun r => {r with revokedAt := some now}) (fun _ => rfl) (fun r => .inr (by simp))
    exact sound_stage (sound_advances sound moved still) i call made.1 .answered (fun _ _ no => by cases no)

theorem authorize_sound (sound : Sound crates db calls trace) (now : Nat) (token : String) (request : DeviceAuthRequest) (caller : AuthenticatedAccount)
    (allowed : token ∈ (handed trace).map (·.token) ∨ tokenHash crates token ∉ db.sessions.rows.map (·.tokenHash))
    (owner : ownerIdentity crates now token request.accountId db = .ok caller) :
    Sound crates db (calls ++ [⟨request,caller,.authenticated⟩]) trace := by
  obtain ⟨row,found,valid⟩ : ∃ row, db.sessions.rows.find? (fun row => row.tokenHash == tokenHash crates token) = some row ∧
      caller.sessionId = some row.sessionId := by
    unfold ownerIdentity at owner
    split at owner
    · cases owner
    · rename_i auth authentic
      split at owner
      · cases owner
      · cases owner
        unfold authenticateBearerToken validateSessionToken at authentic
        cases looked : db.sessions.rows.find? (fun row => row.tokenHash == tokenHash crates token) with
        | none =>
            rw [looked] at authentic
            cases authentic
        | some row =>
            rw [looked,Option.map_some] at authentic
            refine ⟨row,rfl,?_⟩
            split at authentic
            · rename_i a d i is
              cases authentic
              split at is
              · cases is
              · split at is
                · cases is
                · split at is
                  · cases is
                  · cases is
                    rfl
            all_goals cases authentic
  have hash : row.tokenHash = tokenHash crates token := by simpa using List.find?_some found
  have inside := List.mem_of_find?_eq_some found
  obtain ⟨r,known,is⟩ : ∃ r ∈ handed trace, r.sessionId = row.sessionId := by
    rcases allowed with out | unknown
    · obtain ⟨r,known,same⟩ := List.mem_map.mp out
      obtain ⟨row',held,hash',_⟩ := sound.out r known
      exact ⟨r,known,sound.digests _ _ row' row held (mem_iff_find.mp inside) (by rw [hash',hash,same])⟩
    · exact absurd (List.mem_map.mpr ⟨row,inside,hash⟩) unknown
  rw [← List.append_nil trace]
  refine sound_extends sound [] _ ?_ ?_ ?_ ?_ ?_ ?_
  · intro j call session token' made
    obtain ⟨found,stage⟩ := made
    rw [List.getElem?_append] at found
    split at found
    · exact ⟨⟨call,⟨found,stage⟩,rfl⟩,fun r inside => absurd inside List.not_mem_nil⟩
    · rw [List.mem_singleton.mp (List.mem_of_getElem? found)] at stage
      cases stage
  · intro call member
    rcases List.mem_append.mp member with old | new
    · exact .inl ⟨call,old,rfl⟩
    · rw [List.mem_singleton.mp new]
      exact .inr ⟨row.sessionId,r,valid,known,is⟩
  · intro r inside
    cases inside
  · intro id k r inside
    cases inside
  · intro caller r inside
    cases inside
  · intro account k inside
    cases inside

theorem startSshLogin_parts (crates : SshCrates) (audience : String) (timestamp : Nat) (entropy : List UInt8) (challengeId : String)
    (request : SshStartRequest) (db : AuthDb) :
    (∃ failure challenges, startSshLogin crates audience timestamp entropy challengeId request db =
        ({db with challenges := challenges},.error failure) ∧
      (challenges = db.challenges ∨ challenges = db.challenges.delete (fun row => decide (row.expiresAt ≤ timestamp)))) ∨
    ∃ challenge credential, challenge.challengeId = challengeId ∧
      startSshLogin crates audience timestamp entropy challengeId request db = ({db with
        challenges := (db.challenges.delete (fun row => decide (row.expiresAt ≤ timestamp))).upsert
          ⟨challengeId,"login-v1",challenge,challenge.expiresAt,credential⟩},.ok challenge) := by
  unfold startSshLogin
  split
  · exact .inl ⟨_,db.challenges,rfl,.inl rfl⟩
  · dsimp only
    split
    · exact .inl ⟨_,db.challenges,rfl,.inl rfl⟩
    · split
      · exact .inl ⟨_,_,rfl,.inr rfl⟩
      · rename_i challenges inserted
        obtain ⟨_,rfl⟩ := insert_cases inserted
        exact .inr ⟨_,_,rfl,rfl⟩

theorem proceed_sound (sound : Sound crates db calls trace) (i : Nat) (call : Call) (here : calls[i]? = some call) (now : Nat) (sessionId : String)
    (entropy : List UInt8) : Sound crates (call.proceed crates now sessionId entropy db).1
      (calls.set i {call with stage := (call.proceed crates now sessionId entropy db).2.1})
      (trace ++ (call.proceed crates now sessionId entropy db).2.2) := by
  unfold Call.proceed
  dsimp only
  cases stage : call.stage with
  | authenticated =>
      simp only [List.append_nil]
      apply sound_stage sound i call here
      intro session token
      split <;> exact fun no => by cases no
  | checked =>
      simp only [List.append_nil]
      exact sound_stage (sound_calm sound (registerDevice_advances now _ _ _ db)) i call here .registered (fun _ _ no => by cases no)
  | registered =>
      have created := create_sound sound i call here now sessionId entropy call.request.deviceName (some 2592000)
      dsimp only
      generalize createSession crates now sessionId entropy call.request.accountId (some call.request.deviceId) call.request.deviceName
        (some 2592000) db = made at created ⊢
      obtain ⟨after,failure | ⟨session,token⟩⟩ := made
      · simpa only [List.append_nil] using created
      · simpa only [List.append_nil] using created
  | created session token =>
      dsimp only
      obtain ⟨source,_,asked,_⟩ := sound.callers call (List.mem_of_getElem? here)
      have inherited := inherit_sound sound i call session token source ⟨here,stage⟩ asked now
      rw [asked]
      dsimp only
      generalize inheritSshCredential now call.request.accountId source session.sessionId db = passed at inherited ⊢
      obtain ⟨after,failure | done⟩ := passed
      · simpa only [List.append_nil] using inherited
      · exact inherited
  | answered =>
      simp only [List.append_nil]
      exact sound_stage sound i call here .answered (fun _ _ no => by cases no)

theorem perform_sound (action : Action) (sound : Sound crates s.db s.calls s.trace) (allowed : Allowed crates action s) :
    Sound crates (perform crates audience action s).db (perform crates audience action s).calls (perform crates audience action s).trace := by
  cases action with
  | addSshKey id account publicKey label createAccount =>
      unfold perform
      dsimp only
      split
      · exact sound
      · rename_i added
        exact sound_calm sound (addSshKey_advances added)
  | startSshLogin timestamp entropy challengeId request =>
      unfold perform
      dsimp only
      rcases startSshLogin_parts crates audience timestamp entropy challengeId request s.db with ⟨failure,_,same,_⟩ | ⟨challenge,key,_,same⟩
      · rw [same]
        exact sound_challenges sound _
      · rw [same]
        refine sound_quiet (sound_challenges sound _) _ ?_
        intro e inside
        rw [List.mem_singleton.mp inside]
        exact ⟨rfl,fun _ _ no => by cases no⟩
  | finishSshLogin sessionId entropy req => exact finish_sound sound audience s.now sessionId entropy req
  | deviceAuthorize token request =>
      unfold perform
      dsimp only
      split
      · exact sound
      · rename_i caller owner
        exact authorize_sound sound s.now token request caller allowed owner
  | proceed i sessionId entropy =>
      unfold perform
      dsimp only
      split
      · exact sound
      · rename_i call here
        exact proceed_sound sound i call here s.now sessionId entropy
  | revokeSshKey account credential =>
      have moved := sound_calm sound (revoke_advances s.now account credential s.db)
      have done := revoke_revokes s.now account credential sound.toTables
      unfold perform
      dsimp only
      cases result : revokeSshKey s.now account credential s.db with
      | mk db found =>
          rw [result] at moved done
          cases found with
          | false => exact moved
          | true =>
              refine sound_extends moved _ _ ?_ ?_ ?_ ?_ ?_ ?_
              · intro i call session token made
                exact ⟨⟨call,made,rfl⟩,fun r inside => by cases inside⟩
              · intro call inside
                exact .inl ⟨call,inside,rfl⟩
              · intro r inside
                cases inside
              · intro id k r inside
                simp at inside
              · intro caller r inside
                simp at inside
              · intro a k inside
                have parts : a = account ∧ k = credential := by simpa using inside
                obtain ⟨rfl,rfl⟩ := parts
                exact done rfl
  | advance seconds => exact sound

theorem opened_sound (now : Nat) : Sound crates (opened now).db (opened now).calls (opened now).trace where
  digests i j a b found := by cases found
  owners id row k found := by cases found
  pinned k c d found := by cases found
  out r inside := by cases inside
  making i call session token made := by cases made.1
  apart i call session token made := by cases made.1
  single i j call call' session session' token token' made := by cases made.1
  callers call inside := by cases inside
  issued id k r inside := by cases inside
  derived caller r inside := by cases inside
  revoked account k inside := by cases inside

end ZkNote.SshRevocation
