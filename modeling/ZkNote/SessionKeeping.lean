import ZkNote.SshRevocation
import ZkNote.WebauthnLogin

namespace ZkNote.SessionKeeping
open KeyedTable SshAuth SshSessions SshBooks SshSteps SshRevocation WebauthnLogin

variable {crates : SshCrates} {audience : String} {cfg : Config} {now : Nat} {db db' : AuthDb} {s t : AuthSystem} {sessionId account : String}
  {entropy : List UInt8} {calls calls' : List Call} {out out' : List SessionResponse}

-- sessions.token_hash is UNIQUE.
def Digests (db : AuthDb) : Prop :=
  ∀ i j a b, db.sessions.find i = some a → db.sessions.find j = some b → a.tokenHash = b.tokenHash → i = j

-- What no transaction undoes: whose a session is, and that a device is revoked.
structure Keeps (db db' : AuthDb) : Prop where
  session : ∀ id row, db.sessions.find id = some row → ∃ row', db'.sessions.find id = some row' ∧ Same row row'
  digests : Digests db → Digests db'
  device : ∀ a d, isDeviceRevoked a d db = true → isDeviceRevoked a d db' = true

theorem Keeps.trans {a b c : AuthDb} (one : Keeps a b) (two : Keeps b c) : Keeps a c where
  session id row found := by
    obtain ⟨row',found',same⟩ := one.session id row found
    obtain ⟨row'',found'',same'⟩ := two.session id row' found'
    exact ⟨row'',found'',same.trans same'⟩
  digests unique := two.digests (one.digests unique)
  device a d revoked := two.device a d (one.device a d revoked)

theorem keeps_tables (sessions : db'.sessions = db.sessions) (devices : db'.devices = db.devices) : Keeps db db' where
  session id row found := ⟨row,by rw [sessions]; exact found,Same.refl row⟩
  digests unique := by
    unfold Digests at *
    rw [sessions]
    exact unique
  device a d revoked := by rwa [isDeviceRevoked,devices]

theorem Keeps.refl (db : AuthDb) : Keeps db db := keeps_tables rfl rfl

theorem keeps_challenges (db : AuthDb) (challenges : Table String ChallengeRow (·.challengeId)) : Keeps db {db with challenges := challenges} :=
  keeps_tables rfl rfl

theorem advances_keeps {born : Option String} {moved : String → Prop} (advances : Advances born moved db db') : Keeps db db' where
  session id row found := by
    obtain ⟨row',found',same,_⟩ := advances.session id row found
    exact ⟨row',found',same⟩
  digests unique := by
    intro i j a b foundA foundB equal
    rcases advances.origin i a foundA with ⟨a₀,oldA,sameA,_⟩ | ⟨bornA,newA,_⟩
    · rcases advances.origin j b foundB with ⟨b₀,oldB,sameB,_⟩ | ⟨_,newB,_⟩
      · apply unique i j a₀ b₀ oldA oldB
        rw [← sameA.hash,← sameB.hash,equal]
      · exact absurd (by rw [← equal,sameA.hash]) (newB i a₀ oldA)
    · rcases advances.origin j b foundB with ⟨b₀,oldB,sameB,_⟩ | ⟨bornB,_⟩
      · exact absurd (by rw [equal,sameB.hash]) (newA j b₀ oldB)
      · exact Option.some.inj (bornA.trans bornB.symm)
  device := advances.device

theorem keeps_update {hit : SessionRow → Bool} {change : SessionRow → SessionRow} (kept : ∀ r, (change r).sessionId = r.sessionId)
    (sessions : db'.sessions = db.sessions.update hit change kept) (same : ∀ r, Same r (change r))
    (device : ∀ a d, isDeviceRevoked a d db = true → isDeviceRevoked a d db' = true) : Keeps db db' := by
  have changed : ∀ row, Same row (if hit row then change row else row) := by
    intro row
    split
    · exact same row
    · exact Same.refl row
  refine ⟨?_,?_,device⟩
  · intro id row found
    exact ⟨_,by rw [sessions,find_update,found,Option.map_some],changed row⟩
  · intro unique i j a b foundA foundB equal
    rw [sessions,find_update] at foundA foundB
    obtain ⟨a₀,oldA,rfl⟩ := Option.map_eq_some_iff.mp foundA
    obtain ⟨b₀,oldB,rfl⟩ := Option.map_eq_some_iff.mp foundB
    apply unique i j a₀ b₀ oldA oldB
    rw [← (changed a₀).hash,← (changed b₀).hash,equal]

theorem ensureAccount_keeps (account : String) (db : AuthDb) : Keeps db (ensureAccount account db) := by
  obtain ⟨sessions,_,devices,_⟩ := ensureAccount_tables account db
  exact keeps_tables sessions devices

-- A session without a device.
theorem unbound_keeps {name : Option String} {expiresInSecs : Option Int} {session : AuthenticatedSession} {token : String}
    (created : createSessionOn crates now sessionId entropy account none name expiresInSecs db = .ok (db',session,token)) :
    Keeps db db' ∧ Backed crates db' (Call.respond session token) ∧ session.accountId = account ∧ session.deviceId = none := by
  unfold createSessionOn at created
  dsimp only [Option.any_none] at created
  rw [if_neg Bool.false_ne_true] at created
  split at created
  · cases created
  · rename_i new
    split at created
    · cases created
    · rename_i sessions inserted
      cases created
      obtain ⟨fresh,rfl⟩ := insert_cases inserted
      have unlike : ∀ j row, db.sessions.find j = some row → row.tokenHash ≠ tokenHash crates (rawToken crates entropy) := by
        intro j row held same
        exact new (List.any_eq_true.mpr ⟨row,find_mem held,by simpa using same⟩)
      refine ⟨⟨?_,?_,fun _ _ revoked => revoked⟩,⟨_,find_upsert_same _ _,rfl,rfl,rfl⟩,rfl,rfl⟩
      · intro id row found
        refine ⟨row,?_,Same.refl row⟩
        dsimp only
        rw [find_upsert_other]
        · exact found
        · intro same
          rw [← same,fresh] at found
          cases found
      · intro unique i j a b foundA foundB equal
        dsimp only at foundA foundB
        rw [find_upsert] at foundA foundB
        split at foundA
        · rename_i hereA
          cases foundA
          split at foundB
          · rename_i hereB
            exact hereA.symm.trans hereB
          · exact absurd equal.symm (unlike j b foundB)
        · split at foundB
          · cases foundB
            exact absurd equal (unlike i a foundA)
          · exact unique i j a b foundA foundB equal

theorem createSessionOn_keeps {device : Option String} {name : Option String} {expiresInSecs : Option Int} {session : AuthenticatedSession}
    {token : String} (created : createSessionOn crates now sessionId entropy account device name expiresInSecs db = .ok (db',session,token)) :
    Keeps db db' ∧ Backed crates db' (Call.respond session token) ∧ session.accountId = account ∧ session.deviceId = device := by
  cases device with
  | none => exact unbound_keeps created
  | some device =>
      obtain ⟨_,_,_,_,home,on,_,_⟩ := createSessionOn_parts created
      exact ⟨advances_keeps (createSessionOn_advances created),createSessionOn_backed created,home,on⟩

theorem createSession_keeps {device name : Option String} {expiresInSecs : Option Int} {result : Except DbError (AuthenticatedSession × String)}
    (created : createSession crates now sessionId entropy account device name expiresInSecs db = (db',result)) :
    Keeps db db' ∧ ∀ session token, result = .ok (session,token) →
      Backed crates db' (Call.respond session token) ∧ session.accountId = account ∧ session.deviceId = device := by
  have ensured := ensureAccount_keeps account db
  unfold createSession at created
  split at created
  · cases created
    exact ⟨ensured,fun _ _ failed => by cases failed⟩
  · rename_i made session token done
    cases created
    obtain ⟨keeps,backed⟩ := createSessionOn_keeps done
    refine ⟨ensured.trans keeps,?_⟩
    intro session' token' same
    cases same
    exact backed

theorem inherit_keeps (now : Nat) (account source target : String) (db : AuthDb) : Keeps db (inheritSshCredential now account source target db).1 := by
  rcases inherit_parts now account source target db with ⟨row,_,_,_,_,is⟩ | ⟨row,_,_,is⟩ | is
  · rw [is]
    exact keeps_update (fun _ => by rfl) rfl (fun _ => ⟨rfl,rfl,rfl,fun yes => yes⟩) (fun _ _ revoked => revoked)
  · rw [is]
    exact keeps_update (fun _ => by rfl) rfl (fun _ => ⟨rfl,rfl,rfl,fun _ => rfl⟩) (fun _ _ revoked => revoked)
  · rw [is]
    exact keeps_update (fun _ => by rfl) rfl (fun _ => ⟨rfl,rfl,rfl,fun _ => rfl⟩) (fun _ _ revoked => revoked)

theorem finish_keeps {req : SshFinishRequest} {result : Except DbError SessionResponse}
    (finished : finishSshLogin crates audience now sessionId entropy req db = (db',result)) :
    Keeps db db' ∧ ∀ response, result = .ok response → Backed crates db' response := by
  rcases finish_parts crates audience now sessionId entropy db req with ⟨_,is⟩ | ⟨row,_,⟨failure,is⟩ | ⟨made,response,_,_,_,issued,is⟩⟩
  · rw [is] at finished
    cases finished
    exact ⟨Keeps.refl db,fun _ failed => by cases failed⟩
  · rw [is] at finished
    cases finished
    exact ⟨keeps_tables rfl rfl,fun _ failed => by cases failed⟩
  · rw [is] at finished
    cases finished
    obtain ⟨c,bound,session,message,_,_,_,_,_,_,created,shown,same⟩ := issueSession_parts issued
    obtain ⟨keeps,backed,home,on⟩ := createSessionOn_keeps created
    have pinned : Keeps bound db' := by
      rw [same]
      exact keeps_update (fun _ => by rfl) rfl (fun _ => ⟨rfl,rfl,rfl,fun yes => yes⟩) (fun _ _ revoked => revoked)
    refine ⟨(keeps_challenges db _).trans (keeps.trans pinned),?_⟩
    intro answer good
    cases good
    obtain ⟨row,found,hash,account,device⟩ := backed
    obtain ⟨row',found',alike⟩ := pinned.session _ row found
    rw [shown]
    exact ⟨row',found',alike.hash.trans hash,alike.account.trans (account.trans home),alike.device.trans (device.trans on)⟩

theorem revokeDevice_revoked (now : Nat) (account device : String) (db : AuthDb) (a d : String) :
    isDeviceRevoked a d (revokeDevice now account device db) =
      (isDeviceRevoked a d db || (decide ((account,device) = (a,d)) && (db.devices.find (a,d)).isSome)) := by
  simp only [isDeviceRevoked,revokeDevice,find_update]
  cases found : db.devices.find (a,d) with
  | none => simp
  | some row =>
      have named := find_key found
      simp only [Prod.mk.injEq] at named
      by_cases same : (account,device) = (a,d)
      · cases same
        simp [named.1,named.2]
      · have apart : ¬(row.accountId = account ∧ row.deviceId = device) := by
          rw [named.1,named.2]
          intro both
          exact same (Prod.ext both.1.symm both.2.symm)
        have missed : (row.accountId == account && row.deviceId == device) = false := by simpa using apart
        rw [Option.map_some,missed]
        simp [same]

theorem revokeDevice_keeps (now : Nat) (account device : String) (db : AuthDb) : Keeps db (revokeDevice now account device db) := by
  refine keeps_update (fun _ => by rfl) rfl (fun _ => ⟨rfl,rfl,rfl,fun _ => rfl⟩) ?_
  intro a d revoked
  rw [revokeDevice_revoked,revoked,Bool.true_or]

theorem revokeSession_keeps (now : Nat) (account session : String) (db : AuthDb) : Keeps db (revokeSession now account session db).2 :=
  keeps_update (fun _ => by rfl) rfl (fun _ => ⟨rfl,rfl,rfl,fun _ => rfl⟩) (fun _ _ revoked => revoked)

def handedOut : Effect → Option SessionResponse
  | .loggedIn _ _ _ response => some response
  | .issued response => some response
  | _ => none

-- Every session response that went out, by whichever route.
def responses (s : AuthSystem) : List SessionResponse := handed s.ssh.trace ++ s.effects.filterMap handedOut

-- A call that made a session answers with it two transactions later.
def Pending (calls : List Call) (response : SessionResponse) : Prop :=
  ∃ call ∈ calls, ∃ session token, call.stage = .created session token ∧ response = Call.respond session token

-- What a step may do to the tables, to the calls under way and to what is out.
structure Moves (crates : SshCrates) (db : AuthDb) (calls : List Call) (out : List SessionResponse) (db' : AuthDb) (calls' : List Call)
    (out' : List SessionResponse) : Prop where
  keeps : Keeps db db'
  pending : ∀ response, Pending calls' response → Pending calls response ∨ Backed crates db' response
  out : ∀ response ∈ out', response ∈ out ∨ Pending calls response ∨ Backed crates db' response

structure Books (crates : SshCrates) (db : AuthDb) (calls : List Call) (out : List SessionResponse) : Prop where
  digests : Digests db
  pending : ∀ response, Pending calls response → Backed crates db response
  out : ∀ response ∈ out, Backed crates db response

theorem backed_keeps (keeps : Keeps db db') (response : SessionResponse) (backed : Backed crates db response) : Backed crates db' response := by
  obtain ⟨row,found,hash,account,device⟩ := backed
  obtain ⟨row',found',same⟩ := keeps.session _ row found
  exact ⟨row',found',same.hash.trans hash,same.account.trans account,same.device.trans device⟩

theorem books_moves (books : Books crates db calls out) (moves : Moves crates db calls out db' calls' out') : Books crates db' calls' out' where
  digests := moves.keeps.digests books.digests
  pending response waits := by
    rcases moves.pending response waits with before | backed
    · exact backed_keeps moves.keeps response (books.pending response before)
    · exact backed
  out response inside := by
    rcases moves.out response inside with before | waits | backed
    · exact backed_keeps moves.keeps response (books.out response before)
    · exact backed_keeps moves.keeps response (books.pending response waits)
    · exact backed

theorem moves_keeps (keeps : Keeps db db') : Moves crates db calls out db' calls out := ⟨keeps,fun _ => .inl,fun _ => .inl⟩

theorem moves_append (moves : Moves crates db calls out db' calls' out') (more : List SessionResponse) :
    Moves crates db calls (out ++ more) db' calls' (out' ++ more) := by
  refine ⟨moves.keeps,moves.pending,?_⟩
  intro response inside
  rcases List.mem_append.mp inside with here | there
  · exact (moves.out response here).imp (List.mem_append_left more) id
  · exact .inl (List.mem_append_right out there)

theorem moves_answer (keeps : Keeps db db') {response : SessionResponse} (backed : Backed crates db' response) :
    Moves crates db calls out db' calls (out ++ [response]) := by
  refine ⟨keeps,fun _ => .inl,?_⟩
  intro other inside
  rcases List.mem_append.mp inside with before | new
  · exact .inl before
  · rw [List.mem_singleton.mp new]
    exact .inr (.inr backed)

theorem pending_set {i : Nat} {call : Call} {stage : Stage} {response : SessionResponse} (waits : Pending (calls.set i {call with stage := stage}) response) :
    Pending calls response ∨ ∃ session token, stage = .created session token ∧ response = Call.respond session token := by
  obtain ⟨other,inside,session,token,made,is⟩ := waits
  rcases List.mem_or_eq_of_mem_set inside with before | new
  · exact .inl ⟨other,before,session,token,made,is⟩
  · rw [new] at made
    exact .inr ⟨session,token,made,is⟩

-- A call's next transaction, when it makes no session and answers nothing.
theorem moves_stage (keeps : Keeps db db') (i : Nat) (call : Call) {stage : Stage} (plain : ∀ session token, stage ≠ .created session token) :
    Moves crates db calls out db' (calls.set i {call with stage := stage}) out := by
  refine ⟨keeps,?_,fun _ => .inl⟩
  intro response waits
  rcases pending_set waits with before | ⟨session,token,made,_⟩
  · exact .inl before
  · exact absurd made (plain session token)

theorem moves_waiting (keeps : Keeps db db') (i : Nat) (call : Call) {response : SessionResponse} (waits : Pending calls response) :
    Moves crates db calls out db' (calls.set i {call with stage := .answered}) (out ++ [response]) := by
  have staged : Moves crates db calls out db' (calls.set i {call with stage := .answered}) out := moves_stage keeps i call (fun _ _ => Stage.noConfusion)
  refine ⟨keeps,staged.pending,?_⟩
  intro other inside
  rcases List.mem_append.mp inside with before | new
  · exact .inl before
  · rw [List.mem_singleton.mp new]
    exact .inr (.inl waits)

theorem handed_append (trace more : List Event) : handed (trace ++ more) = handed trace ++ handed more := List.filterMap_append

theorem proceed_moves (i : Nat) (call : Call) (here : calls[i]? = some call) (now : Nat) (sessionId : String) (entropy : List UInt8) (trace : List Event) :
    Moves crates db calls (handed trace) (call.proceed crates now sessionId entropy db).1
      (calls.set i {call with stage := (call.proceed crates now sessionId entropy db).2.1})
      (handed (trace ++ (call.proceed crates now sessionId entropy db).2.2)) := by
  rw [handed_append]
  unfold Call.proceed
  cases stage : call.stage with
  | authenticated =>
      dsimp only [handed,List.filterMap_nil]
      rw [List.append_nil]
      apply moves_stage (Keeps.refl db) i call
      intro session token
      split <;> exact Stage.noConfusion
  | checked =>
      dsimp only [handed,List.filterMap_nil]
      rw [List.append_nil]
      exact moves_stage (advances_keeps (registerDevice_advances now _ _ _ db)) i call (fun _ _ => Stage.noConfusion)
  | registered =>
      dsimp only
      cases made : createSession crates now sessionId entropy call.request.accountId (some call.request.deviceId) call.request.deviceName
          (some 2592000) db with
      | mk db' result =>
          obtain ⟨keeps,backed⟩ := createSession_keeps made
          cases result with
          | error failure =>
              dsimp only [handed,List.filterMap_nil]
              rw [List.append_nil]
              exact moves_stage keeps i call (fun _ _ => Stage.noConfusion)
          | ok pair =>
              obtain ⟨session,token⟩ := pair
              dsimp only [handed,List.filterMap_nil]
              rw [List.append_nil]
              refine ⟨keeps,?_,fun _ => .inl⟩
              intro response waits
              rcases pending_set waits with before | ⟨session',token',same,is⟩
              · exact .inl before
              · cases same
                rw [is]
                exact .inr (backed session token rfl).1
  | created session token =>
      have waiting : Pending calls (Call.respond session token) := ⟨call,List.mem_of_getElem? here,session,token,stage,rfl⟩
      cases call.caller.sessionId with
      | none => exact moves_waiting (Keeps.refl db) i call waiting
      | some source =>
          have keeps := inherit_keeps now call.request.accountId source session.sessionId db
          dsimp only
          cases inherited : inheritSshCredential now call.request.accountId source session.sessionId db with
          | mk db' result =>
              rw [inherited] at keeps
              cases result with
              | error failure =>
                  dsimp only [handed,List.filterMap_nil]
                  rw [List.append_nil]
                  exact moves_stage keeps i call (fun _ _ => Stage.noConfusion)
              | ok done => exact moves_waiting keeps i call waiting
  | answered =>
      dsimp only [handed,List.filterMap_nil]
      rw [List.append_nil]
      exact moves_stage (Keeps.refl db) i call (fun _ _ => Stage.noConfusion)

theorem moves_quiet (keeps : Keeps db db') (more : List Event) (none : handed more = []) (trace : List Event) :
    Moves crates db calls (handed trace) db' calls (handed (trace ++ more)) := by
  rw [handed_append,none,List.append_nil]
  exact moves_keeps keeps

-- Only an answer that went through is handed out, and it is the response.
theorem finishEvents_handed {req : SshFinishRequest} {result : Except DbError SessionResponse} {response : SessionResponse}
    (inside : response ∈ handed (finishEvents db req result)) : result = .ok response := by
  have attempted : handed (if (db.challenges.find req.challenge.challengeId).isSome then [Event.attempted req.challenge.challengeId] else []) = [] := by
    split <;> rfl
  unfold finishEvents at inside
  rw [handed_append,attempted,List.nil_append] at inside
  cases result with
  | error failure => cases inside
  | ok answer =>
      cases linked : linkedKey db req.challenge.challengeId with
      | none =>
          rw [linked] at inside
          cases inside
      | some key =>
          rw [linked] at inside
          rw [List.mem_singleton.mp inside]

theorem ssh_moves (action : SshSessions.Action) (state : State) :
    Moves crates state.db state.calls (handed state.trace) (SshSessions.perform crates audience action state).db
      (SshSessions.perform crates audience action state).calls (handed (SshSessions.perform crates audience action state).trace) := by
  cases action with
  | addSshKey id account publicKey label createAccount =>
      simp only [SshSessions.perform]
      cases added : addSshKey crates state.now id account publicKey label createAccount state.db with
      | error failure => exact moves_keeps (Keeps.refl _)
      | ok pair => exact moves_keeps (advances_keeps (addSshKey_advances added))
  | startSshLogin timestamp entropy challengeId request =>
      simp only [SshSessions.perform]
      rcases startSshLogin_parts crates audience timestamp entropy challengeId request state.db with ⟨failure,_,same,_⟩ | ⟨challenge,key,_,same⟩
      · rw [same]
        exact moves_keeps (keeps_challenges state.db _)
      · rw [same]
        exact moves_quiet (keeps_challenges state.db _) [.started challenge] rfl state.trace
  | finishSshLogin sessionId entropy req =>
      cases finished : finishSshLogin crates audience state.now sessionId entropy req state.db with
      | mk db result =>
          obtain ⟨keeps,backed⟩ := finish_keeps finished
          simp only [SshSessions.perform,finished]
          rw [handed_append]
          refine ⟨keeps,fun _ => .inl,?_⟩
          intro response inside
          rcases List.mem_append.mp inside with before | new
          · exact .inl before
          · exact .inr (.inr (backed response (finishEvents_handed new)))
  | deviceAuthorize token request =>
      simp only [SshSessions.perform]
      cases ownerIdentity crates state.now token request.accountId state.db with
      | error failure => exact moves_keeps (Keeps.refl _)
      | ok caller =>
          refine ⟨Keeps.refl _,?_,fun _ => .inl⟩
          intro response waits
          obtain ⟨call,inside,session,token,made,is⟩ := waits
          rcases List.mem_append.mp inside with before | new
          · exact .inl ⟨call,before,session,token,made,is⟩
          · rw [List.mem_singleton.mp new] at made
            cases made
  | proceed i sessionId entropy =>
      simp only [SshSessions.perform]
      cases here : state.calls[i]? with
      | none => exact moves_keeps (Keeps.refl _)
      | some call => exact proceed_moves i call here state.now sessionId entropy state.trace
  | revokeSshKey account credential =>
      have keeps := advances_keeps (revoke_advances state.now account credential state.db)
      simp only [SshSessions.perform]
      cases revoked : revokeSshKey state.now account credential state.db with
      | mk db found =>
          rw [revoked] at keeps
          cases found with
          | false => exact moves_keeps keeps
          | true => exact moves_quiet keeps [.revoked account credential] rfl state.trace
  | advance seconds => exact moves_keeps (Keeps.refl _)

def StepMoves (crates : SshCrates) (s t : AuthSystem) : Prop := Moves crates s.ssh.db s.ssh.calls (responses s) t.ssh.db t.ssh.calls (responses t)

theorem step_keeps (keeps : Keeps s.ssh.db t.ssh.db) (calls : t.ssh.calls = s.ssh.calls) (trace : t.ssh.trace = s.ssh.trace)
    (out : t.effects.filterMap handedOut = s.effects.filterMap handedOut) : StepMoves crates s t := by
  unfold StepMoves responses
  rw [calls,trace,out]
  exact moves_keeps keeps

theorem step_answer (keeps : Keeps s.ssh.db t.ssh.db) (calls : t.ssh.calls = s.ssh.calls) (trace : t.ssh.trace = s.ssh.trace) {response : SessionResponse}
    (out : t.effects.filterMap handedOut = s.effects.filterMap handedOut ++ [response]) (backed : Backed crates t.ssh.db response) :
    StepMoves crates s t := by
  unfold StepMoves responses
  rw [calls,trace,out,← List.append_assoc]
  exact moves_answer keeps backed

theorem login_moves (i : Nat) (sessionId : String) (entropy : List UInt8) (call : Login) :
    StepMoves cfg.crates s (WebauthnLogin.proceed cfg i sessionId entropy call s) := by
  unfold WebauthnLogin.proceed
  cases call.stage with
  | received =>
      dsimp only
      split
      · exact step_keeps (Keeps.refl _) rfl rfl (by simp [AuthSystem.note,AuthSystem.stageAt,handedOut])
      · exact step_keeps (Keeps.refl _) rfl rfl rfl
      · exact step_keeps (Keeps.refl _) rfl rfl rfl
  | consumed record => exact step_keeps (Keeps.refl _) rfl rfl rfl
  | verified credential count =>
      dsimp only
      split
      · exact step_keeps (Keeps.refl _) rfl rfl rfl
      · exact step_keeps (Keeps.refl _) rfl rfl rfl
  | cleared credential count =>
      dsimp only
      split
      · exact step_keeps (Keeps.refl _) rfl rfl (by simp [AuthSystem.note,AuthSystem.stageAt,handedOut])
      · exact step_keeps (Keeps.refl _) rfl rfl rfl
  | advanced credential count =>
      dsimp only
      cases made : createSession cfg.crates s.ssh.now sessionId entropy credential.accountId (credential.deviceId.or call.request.deviceId)
          credential.displayName none s.ssh.db with
      | mk db result =>
          obtain ⟨keeps,backed⟩ := createSession_keeps made
          cases result with
          | error failure => exact step_keeps keeps rfl rfl rfl
          | ok pair =>
              obtain ⟨session,token⟩ := pair
              obtain ⟨out,home,on⟩ := backed session token rfl
              dsimp only
              refine step_answer keeps rfl rfl List.filterMap_append ?_
              rw [← home,← on]
              exact out
  | answered result => exact step_keeps (Keeps.refl _) rfl rfl rfl

theorem perform_moves (action : WebauthnLogin.Action) : StepMoves cfg.crates s (WebauthnLogin.perform cfg action s) := by
  cases action with
  | ssh action =>
      apply moves_append
      exact ssh_moves action s.ssh
  | registerDevice account device displayName =>
      exact step_keeps (advances_keeps (registerDevice_advances s.ssh.now account device displayName s.ssh.db)) rfl rfl rfl
  | createSession sessionId entropy account device displayName expiresInSecs =>
      simp only [WebauthnLogin.perform]
      cases made : createSession cfg.crates s.ssh.now sessionId entropy account device displayName expiresInSecs s.ssh.db with
      | mk db result =>
          obtain ⟨keeps,backed⟩ := createSession_keeps made
          cases result with
          | error failure => exact step_keeps keeps rfl rfl rfl
          | ok pair =>
              obtain ⟨session,token⟩ := pair
              obtain ⟨out,home,on⟩ := backed session token rfl
              dsimp only
              refine step_answer keeps rfl rfl List.filterMap_append ?_
              rw [← home,← on]
              exact out
  | revokeSession account session => exact step_keeps (revokeSession_keeps s.ssh.now account session s.ssh.db) rfl rfl rfl
  | revokeDevice account device => exact step_keeps (revokeDevice_keeps s.ssh.now account device s.ssh.db) rfl rfl rfl
  | createChallenge id challenge account purpose ttlSeconds =>
      simp only [WebauthnLogin.perform]
      split
      · exact step_keeps (Keeps.refl _) rfl rfl rfl
      · exact step_keeps (Keeps.refl _) rfl rfl (by simp [AuthSystem.note,handedOut])
  | consumeChallenge id purpose => exact step_keeps (Keeps.refl _) rfl rfl rfl
  | registerCredential id account publicKey device displayName =>
      simp only [WebauthnLogin.perform]
      have keeps : Keeps s.ssh.db (ensureAccount account s.ssh.db) := ensureAccount_keeps account s.ssh.db
      split
      · exact step_keeps keeps rfl rfl rfl
      · exact step_keeps keeps rfl rfl rfl
  | receive request => exact step_keeps (Keeps.refl _) rfl rfl rfl
  | proceed i sessionId entropy =>
      simp only [WebauthnLogin.perform]
      split
      · exact step_keeps (Keeps.refl _) rfl rfl rfl
      · exact login_moves i sessionId entropy _
  | breakOff i =>
      simp only [WebauthnLogin.perform]
      split
      · exact step_keeps (Keeps.refl _) rfl rfl rfl
      · split <;> exact step_keeps (Keeps.refl _) rfl rfl rfl

theorem opened_books (now : Nat) : Books crates (AuthSystem.opened now).ssh.db (AuthSystem.opened now).ssh.calls (responses (AuthSystem.opened now)) where
  digests i j a b found := by cases found
  pending response waits := by
    obtain ⟨call,inside,_⟩ := waits
    cases inside
  out response inside := by cases inside

theorem performAll_books (actions : List WebauthnLogin.Action) (books : Books cfg.crates s.ssh.db s.ssh.calls (responses s)) :
    Books cfg.crates (performAll cfg actions s).ssh.db (performAll cfg actions s).ssh.calls (responses (performAll cfg actions s)) :=
  performAll_invariant (fun s => Books cfg.crates s.ssh.db s.ssh.calls (responses s))
    (fun action _ books => books_moves books (perform_moves action)) actions books

theorem performAll_keeps (actions : List WebauthnLogin.Action) : Keeps s.ssh.db (performAll cfg actions s).ssh.db :=
  performAll_invariant (fun t => Keeps s.ssh.db t.ssh.db) (fun action _ kept => kept.trans (perform_moves action).keeps) actions
    (Keeps.refl s.ssh.db)

end ZkNote.SessionKeeping
