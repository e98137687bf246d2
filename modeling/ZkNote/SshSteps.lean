import ZkNote.SshBooks

namespace ZkNote.SshSteps
open KeyedTable SshAuth SshSessions SshBooks

variable {crates : SshCrates} {audience : String} {now : Nat} {db db' : AuthDb} {sessionId account source target : String} {entropy : List UInt8}

def nobody : String → Prop := fun _ => False

-- Steps that leave the sessions alone and pin no key.
theorem advances_calm (sessions : db'.sessions = db.sessions) (old : ∀ k c, db.credentials.find k = some c → db'.credentials.find k = some c)
    (new : ∀ k c, db'.credentials.find k = some c → db.credentials.find k = some c ∨ c.deviceId = none)
    (known : ∀ key, (db.devices.find key).isSome = true → (db'.devices.find key).isSome = true)
    (device : ∀ a d, isDeviceRevoked a d db = true → isDeviceRevoked a d db' = true) : Advances none nobody db db' where
  session id row found := ⟨row,by rw [sessions]; exact found,Same.refl row,fun _ => rfl⟩
  origin id row found := .inl ⟨row,by rw [← sessions]; exact found,Same.refl row,.inl rfl⟩
  credential k c found := ⟨c,old k c found,rfl,fun dead => ⟨dead,rfl⟩⟩
  pin k c d found pinned := by
    rcases new k c found with held | none
    · exact .inl ⟨c,held,rfl,pinned⟩
    · rw [none] at pinned
      cases pinned
  known := known
  device := device

theorem advances_same (sessions : db'.sessions = db.sessions) (credentials : db'.credentials = db.credentials)
    (devices : db'.devices = db.devices) : Advances none nobody db db' := by
  refine advances_calm sessions ?_ ?_ ?_ ?_
  · intro k c found
    rwa [credentials]
  · intro k c found
    exact .inl (by rwa [← credentials])
  · intro key found
    rwa [devices]
  · intro a d revoked
    rwa [isDeviceRevoked,devices]

theorem addSshKey_parts {id publicKey : String} {label : Option String} {createAccount : Bool} {made : SshCredential}
    (added : addSshKey crates now id account publicKey label createAccount db = .ok (db',made)) :
    ∃ (key : PublicKey) (accounts : Table String ServerStore.AccountRow (·.id)), db.credentials.find id = none ∧
      db' = {db with
        accounts := accounts
        credentials := db.credentials.upsert ⟨id,account,key.fingerprint,key.canonical,label,none,now,none⟩} := by
  unfold addSshKey at added
  split at added
  · cases added
  · rename_i key _
    split at added
    · cases added
    · split at added
      · cases added
      · rename_i accounts _
        split at added
        · cases added
        · split at added
          · cases added
          · split at added
            · cases added
            · rename_i credentials inserted
              cases added
              obtain ⟨fresh,rfl⟩ := insert_cases inserted
              exact ⟨key,accounts,fresh,rfl⟩

theorem addSshKey_advances {id publicKey : String} {label : Option String} {createAccount : Bool} {made : SshCredential}
    (added : addSshKey crates now id account publicKey label createAccount db = .ok (db',made)) : Advances none nobody db db' := by
  obtain ⟨key,accounts,fresh,rfl⟩ := addSshKey_parts added
  refine advances_calm rfl ?_ ?_ (fun _ known => known) (fun _ _ revoked => revoked)
  · intro k c found
    dsimp only
    rw [find_upsert_other]
    · exact found
    · rintro rfl
      rw [fresh] at found
      cases found
  · intro k c found
    dsimp only at found
    rw [find_upsert] at found
    split at found
    · cases found
      exact .inr rfl
    · exact .inl found

theorem register_devices (now : Nat) (account device : String) (name : Option String) (db : AuthDb) (key : String × String) :
    ((registerDeviceOn now account device name db).devices.find key).map (·.revokedAt.isSome) =
      if (account,device) = key then some (isDeviceRevoked account device db) else (db.devices.find key).map (·.revokedAt.isSome) := by
  unfold registerDeviceOn isDeviceRevoked
  dsimp only
  cases held : db.devices.find (account,device) with
  | none =>
      dsimp only
      rw [find_upsert]
      by_cases same : (account,device) = key
      · rw [if_pos same,if_pos same]
        rfl
      · rw [if_neg same,if_neg same]
  | some row =>
      have is := find_key held
      dsimp only at is ⊢
      rw [find_upsert]
      dsimp only
      rw [is]
      by_cases same : (account,device) = key
      · rw [if_pos same,if_pos same]
        rfl
      · rw [if_neg same,if_neg same]

-- Registering a device again does not bring it back.
theorem register_revoked (now : Nat) (account device : String) (name : Option String) (db : AuthDb) (a d : String) :
    isDeviceRevoked a d (registerDeviceOn now account device name db) = isDeviceRevoked a d db := by
  rw [isDeviceRevoked,register_devices]
  by_cases same : (account,device) = (a,d)
  · rw [if_pos same]
    cases same
    rfl
  · rw [if_neg same]
    rfl

theorem register_known (now : Nat) (account device : String) (name : Option String) (db : AuthDb) (key : String × String)
    (known : (account,device) = key ∨ (db.devices.find key).isSome = true) :
    ((registerDeviceOn now account device name db).devices.find key).isSome = true := by
  have shown := register_devices now account device name db key
  rw [← Option.isSome_map,shown]
  by_cases same : (account,device) = key
  · rw [if_pos same]
    rfl
  · rw [if_neg same,Option.isSome_map]
    exact known.resolve_left same

theorem ensureAccount_tables (account : String) (db : AuthDb) : (ensureAccount account db).sessions = db.sessions ∧
    (ensureAccount account db).credentials = db.credentials ∧ (ensureAccount account db).devices = db.devices ∧
    (ensureAccount account db).challenges = db.challenges := by
  unfold ensureAccount
  split <;> exact ⟨rfl,rfl,rfl,rfl⟩

theorem registerDevice_advances (now : Nat) (account device : String) (name : Option String) (db : AuthDb) :
    Advances none nobody db (registerDevice now account device name db) := by
  obtain ⟨sessions,credentials,devices,_⟩ := ensureAccount_tables account db
  refine advances_calm sessions ?_ ?_ ?_ ?_
  · intro k c found
    rwa [show (registerDevice now account device name db).credentials = db.credentials from credentials]
  · intro k c found
    rw [show (registerDevice now account device name db).credentials = db.credentials from credentials] at found
    exact .inl found
  · intro key known
    exact register_known now account device name _ key (.inr (by rwa [devices]))
  · intro a d revoked
    rw [registerDevice,register_revoked,isDeviceRevoked,devices]
    exact revoked

theorem createSessionOn_parts {device : String} {name : Option String} {expiresInSecs : Option Int} {session : AuthenticatedSession} {token : String}
    (created : createSessionOn crates now sessionId entropy account (some device) name expiresInSecs db = .ok (db',session,token)) :
    isDeviceRevoked account device db = false ∧ db.sessions.find sessionId = none ∧
    (∀ row ∈ db.sessions.rows, row.tokenHash ≠ tokenHash crates token) ∧ session.sessionId = sessionId ∧ session.accountId = account ∧
    session.deviceId = some device ∧
    ∃ expires, db' = {registerDeviceOn now account device name db with
      sessions := db.sessions.upsert ⟨sessionId,account,some device,tokenHash crates token,name,now,expires,none,none⟩} := by
  unfold createSessionOn at created
  dsimp only at created
  split at created
  · cases created
  · rename_i live
    split at created
    · cases created
    · rename_i new
      split at created
      · cases created
      · rename_i sessions inserted
        cases created
        obtain ⟨fresh,rfl⟩ := insert_cases inserted
        refine ⟨?_,fresh,?_,rfl,rfl,rfl,_,rfl⟩
        · rw [← register_revoked now account device name db]
          simpa using live
        · intro row inside same
          exact new (List.any_eq_true.mpr ⟨row,inside,by simpa using same⟩)

theorem createSessionOn_advances {device : String} {name : Option String} {expiresInSecs : Option Int} {session : AuthenticatedSession}
    {token : String} (created : createSessionOn crates now sessionId entropy account (some device) name expiresInSecs db = .ok (db',session,token)) :
    Advances (some sessionId) nobody db db' := by
  obtain ⟨live,fresh,new,_,_,_,expires,rfl⟩ := createSessionOn_parts created
  refine ⟨?_,?_,?_,?_,?_,?_⟩
  · intro id row found
    refine ⟨row,?_,Same.refl row,fun _ => rfl⟩
    dsimp only
    rw [find_upsert_other]
    · exact found
    · rintro rfl
      rw [fresh] at found
      cases found
  · intro id row found
    dsimp only at found
    rw [find_upsert] at found
    split at found
    · rename_i same
      cases found
      refine .inr ⟨same ▸ rfl,fun j row held => new row (find_mem held),?_,?_⟩
      · intro k key
        cases key
      · intro d on
        cases on
        exact live
    · exact .inl ⟨row,found,Same.refl row,.inl rfl⟩
  · intro k c found
    exact ⟨c,found,rfl,fun dead => ⟨dead,rfl⟩⟩
  · intro k c d found pinned
    exact .inl ⟨c,found,rfl,pinned⟩
  · intro key known
    exact register_known now account device name db key (.inr known)
  · intro a d revoked
    exact (register_revoked now account device name db a d).trans revoked

theorem createSessionOn_backed {device : String} {name : Option String} {expiresInSecs : Option Int} {session : AuthenticatedSession}
    {token : String} (created : createSessionOn crates now sessionId entropy account (some device) name expiresInSecs db = .ok (db',session,token)) :
    Backed crates db' (Call.respond session token) := by
  obtain ⟨_,_,_,id,home,device,expires,rfl⟩ := createSessionOn_parts created
  refine ⟨_,(congrArg _ id).trans (find_upsert_same _ _),rfl,home.symm,device.symm⟩

-- The key's live owner logs in: its session gets the key, the key its device.
theorem pin_advances (db : AuthDb) (sessionId device credential : String) {c : CredentialRow} (found : db.credentials.find credential = some c) (live : c.revokedAt = none)
    (home : ∀ row, db.sessions.find sessionId = some row → row.accountId = c.accountId)
    (known : (db.devices.find (c.accountId,device)).isSome = true) :
    Advances none (fun id => id = sessionId) db {db with
      credentials := db.credentials.update (fun c => c.credentialId == credential) (fun c => {c with deviceId := some device}) (fun _ => rfl)
      sessions := db.sessions.update (fun s => s.sessionId == sessionId) (fun s => {s with sshCredentialId := some credential}) (fun _ => rfl)} := by
  have named : c.credentialId = credential := find_key found
  refine ⟨?_,?_,?_,?_,fun _ known => known,fun _ _ revoked => revoked⟩
  · intro id row held
    refine ⟨if row.sessionId == sessionId then {row with sshCredentialId := some credential} else row,?_,?_,?_⟩
    · dsimp only
      rw [find_update,held,Option.map_some]
    · by_cases same : row.sessionId = sessionId
      · simp only [same,beq_self_eq_true,if_true]
        exact ⟨rfl,rfl,rfl,fun yes => yes⟩
      · rw [if_neg (by simpa using same)]
        exact Same.refl row
    · intro apart
      have other : row.sessionId ≠ sessionId := fun same => apart ((find_key held).symm.trans same)
      rw [if_neg (by simpa using other)]
  · intro id row' here
    dsimp only at here
    rw [find_update] at here
    obtain ⟨row,held,rfl⟩ := Option.map_eq_some_iff.mp here
    refine .inl ⟨row,held,?_⟩
    by_cases same : row.sessionId = sessionId
    · rw [if_pos (by simpa using same)]
      refine ⟨⟨rfl,rfl,rfl,fun yes => yes⟩,.inr ?_⟩
      intro k key
      cases key
      refine ⟨{c with deviceId := some device},?_,?_,.inl live⟩
      · dsimp only
        rw [find_update,found,Option.map_some,if_pos (by simpa using named)]
      · exact (home row (by rw [← same]; exact (find_key held) ▸ held)).symm
    · rw [if_neg (by simpa using same)]
      exact ⟨Same.refl row,.inl rfl⟩
  · intro k c₀ held
    refine ⟨if c₀.credentialId == credential then {c₀ with deviceId := some device} else c₀,?_,?_,?_⟩
    · dsimp only
      rw [find_update,held,Option.map_some]
    · split <;> rfl
    · intro dead
      by_cases same : c₀.credentialId = credential
      · have key : k = credential := (find_key held).symm.trans same
        rw [key,found] at held
        cases held
        rw [live] at dead
        cases dead
      · rw [if_neg (by simpa using same)]
        exact ⟨dead,rfl⟩
  · intro k c' d here pinned
    dsimp only at here
    rw [find_update] at here
    obtain ⟨c₀,held,is⟩ := Option.map_eq_some_iff.mp here
    by_cases same : c₀.credentialId = credential
    · have key : k = credential := (find_key held).symm.trans same
      rw [key,found] at held
      cases held
      rw [if_pos (by simpa using named)] at is
      subst is
      cases pinned
      exact .inr known
    · rw [if_neg (by simpa using same)] at is
      subst is
      exact .inl ⟨c₀,held,rfl,pinned⟩

-- The sessions after the target has got a key and may have been revoked.
theorem carry_advances (db : AuthDb) (account target : String) (key : Option String) (stop : Option Nat) (shared : ∀ row, db.sessions.find target = some row → row.accountId = account →
      ∀ k, key = some k → ∃ c, db.credentials.find k = some c ∧ c.accountId = account ∧ (c.revokedAt = none ∨ stop.isSome = true))
    (change : SessionRow → SessionRow) (kept : ∀ r, (change r).sessionId = r.sessionId)
    (is : ∀ r, change r = {r with sshCredentialId := key, revokedAt := stop.or r.revokedAt} ∨ change r = {r with revokedAt := stop.or r.revokedAt}) :
    Advances none (fun id => id = target) db {db with
      sessions := db.sessions.update (fun row => row.accountId == account && row.sessionId == target) change kept} := by
  have same : ∀ r, Same r (change r) := by
    intro r
    have dead : r.revokedAt.isSome = true → (stop.or r.revokedAt).isSome = true := by
      intro yes
      rw [Option.isSome_or,yes,Bool.or_true]
    rcases is r with equal | equal <;> rw [equal] <;> exact ⟨rfl,rfl,rfl,dead⟩
  refine ⟨?_,?_,fun k c found => ⟨c,found,rfl,fun dead => ⟨dead,rfl⟩⟩,fun k c d found pinned => .inl ⟨c,found,rfl,pinned⟩,
    fun _ known => known,fun _ _ revoked => revoked⟩
  · intro id row held
    refine ⟨if row.accountId == account && row.sessionId == target then change row else row,?_,?_,?_⟩
    · dsimp only
      rw [find_update,held,Option.map_some]
    · split
      · exact same row
      · exact Same.refl row
    · intro apart
      have other : row.sessionId ≠ target := fun equal => apart ((find_key held).symm.trans equal)
      rw [if_neg (by simpa using fun _ => other)]
  · intro id row' here
    dsimp only at here
    rw [find_update] at here
    obtain ⟨row,held,rfl⟩ := Option.map_eq_some_iff.mp here
    refine .inl ⟨row,held,?_⟩
    split
    · rename_i hit
      obtain ⟨mine,target'⟩ : row.accountId = account ∧ row.sessionId = target := by simpa using hit
      refine ⟨same row,?_⟩
      rcases is row with equal | equal
      · right
        rw [equal]
        intro k carried
        obtain ⟨c,found,owner,live⟩ := shared row (target' ▸ find_key held ▸ held) mine k carried
        refine ⟨c,found,owner.trans mine.symm,live.imp_right ?_⟩
        intro yes
        rw [Option.isSome_or,yes,Bool.true_or]
      · left
        rw [equal]
    · exact ⟨Same.refl row,.inl rfl⟩

theorem update_twice {hit : SessionRow → Bool} {one two : SessionRow → SessionRow} (t : Table String SessionRow (·.sessionId))
    (first : ∀ r, (one r).sessionId = r.sessionId) (second : ∀ r, (two r).sessionId = r.sessionId) (still : ∀ r, hit (one r) = hit r) :
    (t.update hit one first).update hit two second = t.update hit (two ∘ one) (fun r => (second _).trans (first r)) := by
  have same : ∀ r, (if hit (if hit r then one r else r) then two (if hit r then one r else r) else if hit r then one r else r) =
      if hit r then two (one r) else r := by
    intro r
    by_cases here : hit r = true
    · simp [here,still]
    · simp [here]
  simp only [Table.update,List.map_map,Table.mk.injEq]
  apply List.map_congr_left
  intro r _
  exact same r

-- What `inherit_ssh_credential` can do.
theorem inherit_parts (now : Nat) (account source target : String) (db : AuthDb) :
    (∃ row, db.sessions.find source = some row ∧ row.accountId = account ∧ row.revokedAt = none ∧
      (∀ k, row.sshCredentialId = some k → ∃ c, db.credentials.find k = some c ∧ c.revokedAt = none) ∧
      inheritSshCredential now account source target db = ({db with
        sessions := db.sessions.update (fun r => r.accountId == account && r.sessionId == target)
          (fun r => {r with sshCredentialId := row.sshCredentialId}) (fun _ => rfl)},.ok ())) ∨
    (∃ row, db.sessions.find source = some row ∧ row.accountId = account ∧
      inheritSshCredential now account source target db = ({db with
        sessions := db.sessions.update (fun r => r.accountId == account && r.sessionId == target)
          (fun r => {r with sshCredentialId := row.sshCredentialId, revokedAt := some now}) (fun _ => rfl)},.error .sshAuthFailed)) ∨
    inheritSshCredential now account source target db = ({db with
      sessions := db.sessions.update (fun r => r.accountId == account && r.sessionId == target)
        (fun r => {r with revokedAt := some now}) (fun _ => rfl)},.error .sshAuthFailed) := by
  unfold inheritSshCredential
  dsimp only
  cases asked : (db.sessions.find source).filter (fun row =>
      row.accountId == account && row.revokedAt.isNone && row.expiresAt.all (fun expires => decide ((now : Int) < expires))) with
  | none =>
      right
      right
      rfl
  | some row =>
      obtain ⟨found,live⟩ := Option.filter_eq_some_iff.mp asked
      simp only [Bool.and_eq_true,beq_iff_eq,Option.isNone_iff_eq_none] at live
      simp only [Option.map_some]
      cases key : row.sshCredentialId with
      | none =>
          left
          refine ⟨row,found,live.1.1,live.1.2,?_,?_⟩
          · intro k carried
            rw [key] at carried
            cases carried
          · simp only [if_true,key]
      | some k =>
          simp only
          split
          · rename_i valid
            left
            obtain ⟨c,held,open'⟩ := (Option.any_eq_true _ _).mp valid
            refine ⟨row,found,live.1.1,live.1.2,?_,by rw [key]⟩
            intro k' carried
            rw [key] at carried
            cases carried
            exact ⟨c,held,by simpa using open'⟩
          · right
            left
            refine ⟨row,found,live.1.1,?_⟩
            rw [key,update_twice]
            · rfl
            · intro r
              rfl

end ZkNote.SshSteps
