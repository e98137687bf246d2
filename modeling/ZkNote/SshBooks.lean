import ZkNote.SshSessions

namespace ZkNote.SshBooks
open KeyedTable SshAuth SshSessions

variable {crates : SshCrates} {db db' : AuthDb} {calls : List Call} {trace : List Event} {born : Option String} {moved : String → Prop}

-- A session row may get a key, and it may be revoked; nothing else of it moves.
structure Same (row row' : SessionRow) : Prop where
  account : row'.accountId = row.accountId
  device : row'.deviceId = row.deviceId
  hash : row'.tokenHash = row.tokenHash
  revoked : row.revokedAt.isSome = true → row'.revokedAt.isSome = true

theorem Same.refl (row : SessionRow) : Same row row := ⟨rfl,rfl,rfl,id⟩

theorem Same.trans {a b c : SessionRow} (one : Same a b) (two : Same b c) : Same a c :=
  ⟨two.account.trans one.account,two.device.trans one.device,two.hash.trans one.hash,fun yes => two.revoked (one.revoked yes)⟩

-- The key on a session is one of its account, and live unless the session is dead.
def Carries (db : AuthDb) (row : SessionRow) : Prop :=
  ∀ k, row.sshCredentialId = some k → ∃ c, db.credentials.find k = some c ∧ c.accountId = row.accountId ∧
    (c.revokedAt = none ∨ row.revokedAt.isSome = true)

-- What one transaction may do to the tables: at most the session `born` comes, on
-- a live device, and only the sessions in `moved` get another key.
structure Advances (born : Option String) (moved : String → Prop) (db db' : AuthDb) : Prop where
  session : ∀ id row, db.sessions.find id = some row → ∃ row', db'.sessions.find id = some row' ∧ Same row row' ∧
    (¬moved id → row'.sshCredentialId = row.sshCredentialId)
  origin : ∀ id row', db'.sessions.find id = some row' →
    (∃ row, db.sessions.find id = some row ∧ Same row row' ∧ (row'.sshCredentialId = row.sshCredentialId ∨ Carries db' row')) ∨
    (some id = born ∧ (∀ j row, db.sessions.find j = some row → row.tokenHash ≠ row'.tokenHash) ∧ Carries db' row' ∧
      ∀ d, row'.deviceId = some d → isDeviceRevoked row'.accountId d db = false)
  credential : ∀ k c, db.credentials.find k = some c → ∃ c', db'.credentials.find k = some c' ∧ c'.accountId = c.accountId ∧
    (c.revokedAt.isSome = true → c'.revokedAt.isSome = true ∧ c'.deviceId = c.deviceId)
  pin : ∀ k c' d, db'.credentials.find k = some c' → c'.deviceId = some d →
    (∃ c, db.credentials.find k = some c ∧ c.accountId = c'.accountId ∧ c.deviceId = some d) ∨
    (db'.devices.find (c'.accountId,d)).isSome = true
  known : ∀ key, (db.devices.find key).isSome = true → (db'.devices.find key).isSome = true
  device : ∀ a d, isDeviceRevoked a d db = true → isDeviceRevoked a d db' = true

-- A token that is out, or on its way out, opens the session it was made for.
def Backed (crates : SshCrates) (db : AuthDb) (r : SessionResponse) : Prop :=
  ∃ row, db.sessions.find r.sessionId = some row ∧ row.tokenHash = tokenHash crates r.token ∧ row.accountId = r.accountId ∧
    row.deviceId = r.deviceId

def Making (calls : List Call) (i : Nat) (call : Call) (session : AuthenticatedSession) (token : String) : Prop :=
  calls[i]? = some call ∧ call.stage = .created session token

def Keyed (db : AuthDb) (session : String) (key : Option String) : Prop :=
  ∃ row, db.sessions.find session = some row ∧ row.sshCredentialId = key

-- What a revocation leaves, for good.
def Revoked (db : AuthDb) (account credential : String) : Prop :=
  ∃ c, db.credentials.find credential = some c ∧ c.accountId = account ∧ c.revokedAt.isSome = true ∧
    (∀ id row, db.sessions.find id = some row → row.accountId = account →
      (row.sshCredentialId = some credential ∨ ∃ d, c.deviceId = some d ∧ row.deviceId = some d) → row.revokedAt.isSome = true) ∧
    ∀ d, c.deviceId = some d → isDeviceRevoked account d db = true

structure Tables (db : AuthDb) : Prop where
  digests : ∀ i j a b, db.sessions.find i = some a → db.sessions.find j = some b → a.tokenHash = b.tokenHash → i = j
  owners : ∀ id row k, db.sessions.find id = some row → row.sshCredentialId = some k →
    ∃ c, db.credentials.find k = some c ∧ c.accountId = row.accountId
  pinned : ∀ k c d, db.credentials.find k = some c → c.deviceId = some d → (db.devices.find (c.accountId,d)).isSome = true

structure Sound (crates : SshCrates) (db : AuthDb) (calls : List Call) (trace : List Event) : Prop extends Tables db where
  out : ∀ r ∈ handed trace, Backed crates db r
  making : ∀ i call session token, Making calls i call session token →
    Backed crates db (Call.respond session token) ∧ session.accountId = call.request.accountId
  apart : ∀ i call session token, Making calls i call session token → ∀ r ∈ handed trace, r.sessionId ≠ session.sessionId
  single : ∀ i j call call' session session' token token', Making calls i call session token → Making calls j call' session' token' →
    session.sessionId = session'.sessionId → i = j
  callers : ∀ call ∈ calls, ∃ source r, call.caller.sessionId = some source ∧ r ∈ handed trace ∧ r.sessionId = source
  issued : ∀ id k r, .loggedIn id k r ∈ trace → Keyed db r.sessionId (some k)
  derived : ∀ caller r, .authorized caller r ∈ trace → ∃ source r' key, caller.sessionId = some source ∧ r' ∈ handed trace ∧
    r'.sessionId = source ∧ Keyed db source key ∧ Keyed db r.sessionId key
  revoked : ∀ account k, .revoked account k ∈ trace → Revoked db account k

theorem backed_advances (advances : Advances born moved db db') (r : SessionResponse) (backed : Backed crates db r) : Backed crates db' r := by
  obtain ⟨row,found,hash,account,device⟩ := backed
  obtain ⟨row',found',same,_⟩ := advances.session _ row found
  exact ⟨row',found',same.hash.trans hash,same.account.trans account,same.device.trans device⟩

theorem keyed_advances {key : Option String} {id : String} (advances : Advances born moved db db') (still : ¬moved id) (keyed : Keyed db id key) :
    Keyed db' id key := by
  obtain ⟨row,found,is⟩ := keyed
  obtain ⟨row',found',_,kept⟩ := advances.session _ row found
  exact ⟨row',found',(kept still).trans is⟩

theorem tables_advances (tables : Tables db) (advances : Advances born moved db db') : Tables db' := by
  refine ⟨?_,?_,?_⟩
  · intro i j a b foundA foundB equal
    rcases advances.origin i a foundA with ⟨a₀,oldA,sameA,_⟩ | ⟨bornA,newA,_⟩
    · rcases advances.origin j b foundB with ⟨b₀,oldB,sameB,_⟩ | ⟨_,newB,_⟩
      · exact tables.digests i j a₀ b₀ oldA oldB (by rw [← sameA.hash,← sameB.hash,equal])
      · exact absurd (by rw [← equal,sameA.hash]) (newB i a₀ oldA)
    · rcases advances.origin j b foundB with ⟨b₀,oldB,sameB,_⟩ | ⟨bornB,_⟩
      · exact absurd (by rw [equal,sameB.hash]) (newA j b₀ oldB)
      · exact Option.some.inj (bornA.trans bornB.symm)
  · intro id row' k found key
    rcases advances.origin id row' found with ⟨row,old,same,kept | carries⟩ | ⟨_,_,carries,_⟩
    · obtain ⟨c,live,account⟩ := tables.owners id row k old (kept ▸ key)
      obtain ⟨c',live',account',_⟩ := advances.credential k c live
      exact ⟨c',live',account'.trans (account.trans same.account.symm)⟩
    · obtain ⟨c,live,account,_⟩ := carries k key
      exact ⟨c,live,account⟩
    · obtain ⟨c,live,account,_⟩ := carries k key
      exact ⟨c,live,account⟩
  · intro k c' d found pinned
    rcases advances.pin k c' d found pinned with ⟨c,old,account,same⟩ | here
    · exact account ▸ advances.known _ (tables.pinned k c d old same)
    · exact here

-- A revoked key stays so, and so do its sessions: a live session that gets a key
-- gets a live one, and a new session is on a live device.
theorem revoked_advances {account credential : String} (advances : Advances born moved db db') (revoked : Revoked db account credential) :
    Revoked db' account credential := by
  obtain ⟨c,found,account',dead,sessions,devices⟩ := revoked
  obtain ⟨c',found',same,frozen⟩ := advances.credential credential c found
  obtain ⟨dead',device⟩ := frozen dead
  have carried : ∀ row, Carries db' row → row.sshCredentialId = some credential → row.revokedAt.isSome = true := by
    intro row carries key
    obtain ⟨other,live,_,none | dead⟩ := carries credential key
    · rw [found'] at live
      cases live
      rw [none] at dead'
      cases dead'
    · exact dead
  refine ⟨c',found',same.trans account',dead',?_,?_⟩
  · intro id row' here mine cause
    rcases advances.origin id row' here with ⟨row,old,keeps,key⟩ | ⟨_,_,carries,live⟩
    · have own : row.accountId = account := keeps.account.symm.trans mine
      rcases cause with key' | ⟨d,pin,on⟩
      · rcases key with kept | carries
        · exact keeps.revoked (sessions id row old own (.inl (kept ▸ key')))
        · exact carried row' carries key'
      · exact keeps.revoked (sessions id row old own (.inr ⟨d,device ▸ pin,keeps.device ▸ on⟩))
    · rcases cause with key' | ⟨d,pin,on⟩
      · exact carried row' carries key'
      · have gone := devices d (device ▸ pin)
        have open' := live d on
        rw [mine,gone] at open'
        cases open'
  · intro d pin
    exact advances.device account d (devices d (device ▸ pin))

theorem sound_advances (sound : Sound crates db calls trace) (advances : Advances born moved db db')
    (still : ∀ r ∈ handed trace, ¬moved r.sessionId) : Sound crates db' calls trace where
  toTables := tables_advances sound.toTables advances
  out r inside := backed_advances advances r (sound.out r inside)
  making i call session token made :=
    ⟨backed_advances advances _ (sound.making i call session token made).1,(sound.making i call session token made).2⟩
  apart := sound.apart
  single := sound.single
  callers := sound.callers
  issued id k r inside := keyed_advances advances (still r (List.mem_filterMap.mpr ⟨_,inside,rfl⟩)) (sound.issued id k r inside)
  derived caller r inside := by
    obtain ⟨source,r',key,is,out,same,one,two⟩ := sound.derived caller r inside
    exact ⟨source,r',key,is,out,same,keyed_advances advances (same ▸ still r' out) one,
      keyed_advances advances (still r (List.mem_filterMap.mpr ⟨_,inside,rfl⟩)) two⟩
  revoked account k inside := revoked_advances advances (sound.revoked account k inside)

-- What went out stays out.
theorem handed_append (trace events : List Event) : handed (trace ++ events) = handed trace ++ handed events := List.filterMap_append

-- Events and calls at fixed tables. A call that made a session keeps it to itself
-- until it answers.
theorem sound_extends (sound : Sound crates db calls trace) (events : List Event) (calls' : List Call)
    (made : ∀ i call session token, Making calls' i call session token →
      (∃ call', Making calls i call' session token ∧ call'.request = call.request) ∧ ∀ r ∈ handed events, r.sessionId ≠ session.sessionId)
    (callers : ∀ call ∈ calls', (∃ call' ∈ calls, call'.caller = call.caller) ∨
      ∃ source r, call.caller.sessionId = some source ∧ r ∈ handed trace ∧ r.sessionId = source)
    (out : ∀ r ∈ handed events, Backed crates db r)
    (issued : ∀ id k r, .loggedIn id k r ∈ events → Keyed db r.sessionId (some k))
    (derived : ∀ caller r, .authorized caller r ∈ events → ∃ source r' key, caller.sessionId = some source ∧ r' ∈ handed trace ∧
      r'.sessionId = source ∧ Keyed db source key ∧ Keyed db r.sessionId key)
    (revoked : ∀ account k, .revoked account k ∈ events → Revoked db account k) : Sound crates db calls' (trace ++ events) where
  toTables := sound.toTables
  out r inside := by
    rw [handed_append] at inside
    exact (List.mem_append.mp inside).elim (sound.out r) (out r)
  making i call session token here := by
    obtain ⟨⟨call',old,same⟩,_⟩ := made i call session token here
    obtain ⟨backed,home⟩ := sound.making i call' session token old
    exact ⟨backed,home.trans (by rw [same])⟩
  apart i call session token here r inside := by
    obtain ⟨⟨call',old,_⟩,new⟩ := made i call session token here
    rw [handed_append] at inside
    exact (List.mem_append.mp inside).elim (sound.apart i call' session token old r) (new r)
  single i j call call' session session' token token' one two same := by
    obtain ⟨⟨first,one,_⟩,_⟩ := made i call session token one
    obtain ⟨⟨second,two,_⟩,_⟩ := made j call' session' token' two
    exact sound.single i j first second session session' token token' one two same
  callers call inside := by
    rw [handed_append]
    rcases callers call inside with ⟨call',old,same⟩ | ⟨source,r,is,inside,equal⟩
    · obtain ⟨source,r,is,inside,equal⟩ := sound.callers call' old
      exact ⟨source,r,same ▸ is,List.mem_append_left _ inside,equal⟩
    · exact ⟨source,r,is,List.mem_append_left _ inside,equal⟩
  issued id k r inside := (List.mem_append.mp inside).elim (sound.issued id k r) (issued id k r)
  derived caller r inside := by
    rw [handed_append]
    have found : ∃ source r' key, caller.sessionId = some source ∧ r' ∈ handed trace ∧ r'.sessionId = source ∧ Keyed db source key ∧
        Keyed db r.sessionId key := (List.mem_append.mp inside).elim (sound.derived caller r) (derived caller r)
    obtain ⟨source,r',key,is,inside,rest⟩ := found
    exact ⟨source,r',key,is,List.mem_append_left _ inside,rest⟩
  revoked account k inside := (List.mem_append.mp inside).elim (sound.revoked account k) (revoked account k)

theorem making_set {i j : Nat} {call call' : Call} {session : AuthenticatedSession} {token : String}
    (making : Making (calls.set i call) j call' session token) :
    (i = j ∧ call = call' ∧ call.stage = .created session token) ∨ (i ≠ j ∧ Making calls j call' session token) := by
  obtain ⟨found,stage⟩ := making
  rw [List.getElem?_set] at found
  split at found
  · rename_i same
    split at found
    · cases found
      exact .inl ⟨same,rfl,stage⟩
    · cases found
  · rename_i apart
    exact .inr ⟨apart,found,stage⟩

-- A call gets the session it has made.
theorem sound_created (sound : Sound crates db calls trace) (i : Nat) (call : Call) (here : calls[i]? = some call)
    (session : AuthenticatedSession) (token : String) (backed : Backed crates db (Call.respond session token))
    (home : session.accountId = call.request.accountId) (own : ∀ r ∈ handed trace, r.sessionId ≠ session.sessionId)
    (alone : ∀ j call' session' token', Making calls j call' session' token' → session'.sessionId ≠ session.sessionId) :
    Sound crates db (calls.set i {call with stage := .created session token}) trace where
  toTables := sound.toTables
  out := sound.out
  making j call' session' token' made := by
    rcases making_set made with ⟨_,rfl,stage⟩ | ⟨_,old⟩
    · cases stage
      exact ⟨backed,home⟩
    · exact sound.making j call' session' token' old
  apart j call' session' token' made := by
    rcases making_set made with ⟨_,rfl,stage⟩ | ⟨_,old⟩
    · cases stage
      exact own
    · exact sound.apart j call' session' token' old
  single j k one two session₁ session₂ token₁ token₂ first second same := by
    rcases making_set first with ⟨rfl,rfl,stage⟩ | ⟨_,old⟩
    · cases stage
      rcases making_set second with ⟨equal,_⟩ | ⟨_,other⟩
      · exact equal
      · exact absurd same.symm (alone k two session₂ token₂ other)
    · rcases making_set second with ⟨rfl,rfl,stage⟩ | ⟨_,other⟩
      · cases stage
        exact absurd same (alone j one session₁ token₁ old)
      · exact sound.single j k one two session₁ session₂ token₁ token₂ old other same
  callers call' inside := by
    rcases List.mem_or_eq_of_mem_set inside with old | rfl
    · exact sound.callers call' old
    · exact sound.callers call (List.mem_of_getElem? here)
  issued := sound.issued
  derived := sound.derived
  revoked := sound.revoked

end ZkNote.SshBooks
