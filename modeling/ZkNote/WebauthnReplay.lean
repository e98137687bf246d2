import Mathlib.Data.List.Chain
import ZkNote.WebauthnLogin

namespace ZkNote.WebauthnReplay
open KeyedTable SshAuth WebauthnLogin

def isConsumed (id : String) : Effect → Bool
  | .consumed _ used => used == id
  | _ => false

def openings (effects : List Effect) (id : String) : Nat := effects.count (.opened id)

def consumptions (effects : List Effect) (id : String) : Nat := effects.countP (isConsumed id)

structure Advance where
  login : Nat
  old : Nat
  new : Nat

def storedBy (credentialId : List UInt8) : Effect → Option Advance
  | .stored login id old new => if id = credentialId then some ⟨login,old,new⟩ else none
  | _ => none

def advances (effects : List Effect) (credentialId : List UInt8) : List Advance := effects.filterMap (storedBy credentialId)

-- What the credential's row held, from its registration on.
def counters (effects : List Effect) (credentialId : List UInt8) : List Nat := 0 :: (advances effects credentialId).map (·.new)

def Rises (old new : Nat) : Prop := old ≤ new ∧ (old ≠ 0 ∨ new ≠ 0 → old < new)

-- A login's counter replaces the one the last login stored.
def Follows (before after : Advance) : Prop := after.old = before.new ∧ Rises after.old after.new

variable {cfg : Config} {s : AuthSystem} {effects : List Effect}

theorem rises_trans (one : Rises a b) (two : Rises b c) : Rises a c := by
  unfold Rises at *
  omega

instance : Trans Rises Rises Rises := ⟨rises_trans⟩

-- The counter rule of `login`.
theorem login_rises {w : WebCrates} (accepted : login w req challenge rp origin key old = some count) : Rises old count := by
  simp only [login,bind,Option.bind_eq_some_iff] at accepted
  obtain ⟨_,_,_,_,_,_,n,_,_,_,checked⟩ := accepted
  split at checked
  · cases checked
  · rename_i above
    obtain ⟨_,_,verified⟩ := Option.bind_eq_some_iff.mp checked
    split at verified
    · cases verified
      unfold Rises
      omega
    · cases verified

-- What a handler's stage says of the counter it is about to store, or has stored.
def Ready (effects : List Effect) (i : Nat) : LoginStage → Prop
  | .verified credential count => Rises credential.signCount count
  | .cleared credential count => Rises credential.signCount count
  | .advanced credential count => .stored i credential.credentialId credential.signCount count ∈ effects
  | _ => True

structure Replay (s : AuthSystem) : Prop where
  once : ∀ id, consumptions s.effects id + (if (s.challenges.find id).isSome then 1 else 0) ≤ openings s.effects id
  rising : ∀ c i, (⟨i,0,0⟩ :: advances s.effects c).IsChain Follows
  current : ∀ c, ((s.credentials.find c).map (·.signCount)).getD 0 = (counters s.effects c).getLastD 0
  ready : ∀ i call, s.logins[i]? = some call → Ready s.effects i call.stage
  won : ∀ i c n r, .loggedIn i c n r ∈ s.effects → ∃ old, .stored i c old n ∈ s.effects

theorem opened_replay (now : Nat) : Replay (AuthSystem.opened now) where
  once id := by simp [AuthSystem.opened,consumptions,openings]
  rising c i := List.IsChain.singleton _
  current c := rfl
  ready i call here := by simp [AuthSystem.opened] at here
  won i c n r inside := by cases inside

theorem ready_more (ready : Ready effects i stage) (more : List Effect) : Ready (effects ++ more) i stage := by
  cases stage with
  | advanced credential count => exact List.mem_append_left more ready
  | _ => exact ready

-- Effects that neither use a challenge nor store a counter.
structure Quiet (more : List Effect) : Prop where
  unconsumed : ∀ id, consumptions more id = 0
  unstored : ∀ c, advances more c = []

theorem quiet_issued (response : SessionResponse) : Quiet [.issued response] := ⟨fun _ => rfl,fun _ => rfl⟩

theorem quiet_opened (id : String) : Quiet [.opened id] := ⟨fun _ => rfl,fun _ => rfl⟩

theorem quiet_loggedIn (i : Nat) (c : List UInt8) (n : Nat) (r : SessionResponse) : Quiet [.loggedIn i c n r] := ⟨fun _ => rfl,fun _ => rfl⟩

theorem unstored_advances {c : List UInt8} (none : advances more c = []) : advances (effects ++ more) c = advances effects c := by
  rw [advances,List.filterMap_append]
  exact (congrArg _ none).trans (List.append_nil _)

theorem unstored_counters {c : List UInt8} (none : advances more c = []) : counters (effects ++ more) c = counters effects c := by
  rw [counters,unstored_advances none]
  rfl

theorem consumptions_append (effects more : List Effect) (id : String) :
    consumptions (effects ++ more) id = consumptions effects id + consumptions more id := List.countP_append

theorem openings_append (effects more : List Effect) (id : String) : openings (effects ++ more) id = openings effects id + openings more id :=
  List.count_append

-- Steps that leave the challenges and counters alone, up to one login's stage.
theorem replay_calm (replay : Replay s) {t : AuthSystem} (more : List Effect) (challenges : t.challenges = s.challenges)
    (credentials : t.credentials = s.credentials) (effects : t.effects = s.effects ++ more) (quiet : Quiet more)
    (ready : ∀ i call, t.logins[i]? = some call → Ready t.effects i call.stage)
    (won : ∀ i c n r, .loggedIn i c n r ∈ more → ∃ old, .stored i c old n ∈ s.effects) : Replay t where
  once id := by
    have before := replay.once id
    rw [effects,challenges,consumptions_append,quiet.unconsumed id,openings_append]
    omega
  rising c := by
    rw [effects,unstored_advances (quiet.unstored c)]
    exact replay.rising c
  current c := by
    rw [effects,credentials,unstored_counters (quiet.unstored c)]
    exact replay.current c
  ready := ready
  won i c n r inside := by
    rw [effects] at inside ⊢
    rcases List.mem_append.mp inside with before | new
    · obtain ⟨old,stored⟩ := replay.won i c n r before
      exact ⟨old,List.mem_append_left more stored⟩
    · obtain ⟨old,stored⟩ := won i c n r new
      exact ⟨old,List.mem_append_left more stored⟩

theorem ready_set (replay : Replay s) (i : Nat) (req : WebauthnLoginFinishRequest) (stage : LoginStage) (more : List Effect)
    (ready : Ready (s.effects ++ more) i stage) :
    ∀ j call, (s.logins.set i ⟨req,stage⟩)[j]? = some call → Ready (s.effects ++ more) j call.stage := by
  intro j call here
  rw [List.getElem?_set] at here
  split at here
  · rename_i same
    split at here
    · cases here
      exact same ▸ ready
    · cases here
  · exact ready_more (replay.ready j call here) more

theorem replay_auth (replay : Replay s) (db : AuthDb) : Replay (s.setAuth db) :=
  ⟨replay.once,replay.rising,replay.current,replay.ready,replay.won⟩

theorem replay_stage (replay : Replay s) (i : Nat) (req : WebauthnLoginFinishRequest) (stage : LoginStage) (ready : Ready s.effects i stage) :
    Replay (s.stageAt i req stage) := by
  refine replay_calm replay [] rfl rfl (List.append_nil _).symm ⟨fun _ => rfl,fun _ => rfl⟩ ?_ (fun _ _ _ _ inside => by cases inside)
  have kept := ready_set replay i req stage [] (by simpa using ready)
  simpa [AuthSystem.stageAt] using kept

theorem replay_note (replay : Replay s) {more : List Effect} (quiet : Quiet more)
    (won : ∀ i c n r, .loggedIn i c n r ∈ more → ∃ old, .stored i c old n ∈ s.effects) : Replay (s.note more) :=
  replay_calm replay more rfl rfl rfl quiet (fun i call here => ready_more (replay.ready i call here) more) won

-- The challenge a consumption takes is gone.
theorem consume_parts (now : Nat) (id purpose : String) (challenges : Challenges) :
    consumeWebauthnChallenge now id purpose challenges = (.error .challengeNotFound,challenges) ∨
    ∃ row result, challenges.find id = some row ∧
      consumeWebauthnChallenge now id purpose challenges = (result,challenges.delete (fun r => decide (r.challengeId = id))) := by
  unfold consumeWebauthnChallenge
  cases held : (challenges.find id).filter (fun row => row.purpose == purpose) with
  | none => exact .inl rfl
  | some row => exact .inr ⟨row,_,(Option.filter_eq_some_iff.mp held).1,rfl⟩

theorem replay_fewer (replay : Replay s) (id : String) :
    Replay {s with challenges := s.challenges.delete (fun r => decide (r.challengeId = id))} := by
  refine ⟨?_,replay.rising,replay.current,replay.ready,replay.won⟩
  intro other
  have before := replay.once other
  have fewer : (if ((s.challenges.delete (fun r => decide (r.challengeId = id))).find other).isSome then 1 else 0) ≤
      (if (s.challenges.find other).isSome then 1 else 0) := by
    rw [find_delete]
    cases s.challenges.find other with
    | none => simp
    | some row => split <;> simp
  dsimp only
  omega

theorem replay_consumed (replay : Replay s) (id : String) (held : s.challenges.find id = some row) (i : Nat) :
    Replay ({s with challenges := s.challenges.delete (fun r => decide (r.challengeId = id))}.note [.consumed i id]) where
  once other := by
    have before := replay.once other
    have gone := find_delete s.challenges (fun r => decide (r.challengeId = id)) other
    have named := find_key held
    by_cases same : id = other
    · subst same
      rw [held] at gone before
      simp only [Option.filter_some,named,decide_true,Bool.not_true] at gone
      simp only [AuthSystem.note,gone,consumptions,List.countP_append,openings_append] at before ⊢
      simp only [List.countP_singleton,isConsumed,beq_self_eq_true,openings] at before ⊢
      simp at before ⊢
      omega
    · have kept : (s.challenges.delete (fun r => decide (r.challengeId = id))).find other = s.challenges.find other := by
        rw [gone]
        cases found : s.challenges.find other with
        | none => rfl
        | some row' =>
            have key := find_key found
            have apart : row'.challengeId ≠ id := fun is => same (is.symm.trans key)
            simp [apart]
      simp only [AuthSystem.note,kept,consumptions,List.countP_append,openings_append] at before ⊢
      simp only [List.countP_singleton,isConsumed,beq_iff_eq,same,if_false]
      omega
  rising c first := by
    show (_ :: advances (s.effects ++ [.consumed i id]) c).IsChain Follows
    rw [unstored_advances (by rfl)]
    exact replay.rising c first
  current c := by
    show _ = (counters (s.effects ++ [.consumed i id]) c).getLastD 0
    rw [unstored_counters (by rfl)]
    exact replay.current c
  ready j call here := ready_more (replay.ready j call here) [.consumed i id]
  won j c n r inside := by
    simp only [AuthSystem.note,List.mem_append,List.mem_singleton,reduceCtorEq,or_false] at inside ⊢
    exact replay.won j c n r inside

theorem last_new (first : Nat) {before : Advance} (atEnd : before ∈ (⟨first,0,0⟩ :: advances effects c).getLast?) :
    (counters effects c).getLastD 0 = before.new := by
  have mapped : counters effects c = ((⟨first,0,0⟩ :: advances effects c : List Advance).map (·.new)) := rfl
  rw [mapped,List.getLastD_eq_getLast?,List.getLast?_map,Option.mem_def.mp atEnd]
  rfl

-- A counter that goes through found the row as it was looked up.
theorem replay_stored (replay : Replay s) (i : Nat) (c : List UInt8) (old new now : Nat) (rises : Rises old new)
    (hit : (s.credentials.find c).any (fun row => row.signCount == old) = true) :
    Replay ({s with credentials := (advanceWebauthnCounter now c old new s.credentials).2}.note [.stored i c old new]) := by
  obtain ⟨row,held,same⟩ := (Option.any_eq_true _ _).mp hit
  have counted : row.signCount = old := by simpa using same
  have last : (counters s.effects c).getLastD 0 = old := by
    have now := replay.current c
    rw [held,Option.map_some,Option.getD_some,counted] at now
    exact now.symm
  have mine : advances (s.effects ++ [.stored i c old new]) c = advances s.effects c ++ [⟨i,old,new⟩] := by
    simp [advances,storedBy]
  have others : ∀ d, c ≠ d → advances (s.effects ++ [.stored i c old new]) d = advances s.effects d := by
    intro d other
    simp [advances,storedBy,other]
  refine ⟨?_,?_,?_,fun j call here => ready_more (replay.ready j call here) _,?_⟩
  · intro id
    have before := replay.once id
    show consumptions (s.effects ++ [.stored i c old new]) id + _ ≤ openings (s.effects ++ [.stored i c old new]) id
    rw [consumptions_append,openings_append]
    exact Nat.le_trans before (Nat.le_add_right _ _)
  · intro d first
    by_cases same : c = d
    · subst same
      show (_ :: advances (s.effects ++ [.stored i c old new]) c).IsChain Follows
      rw [mine,← List.cons_append]
      refine List.isChain_append.mpr ⟨replay.rising c first,List.IsChain.singleton _,?_⟩
      intro before atEnd after atStart
      cases atStart
      refine ⟨?_,rises⟩
      rw [← last]
      exact last_new first atEnd
    · show (_ :: advances (s.effects ++ [.stored i c old new]) d).IsChain Follows
      rw [others d same]
      exact replay.rising d first
  · intro d
    show (((advanceWebauthnCounter now c old new s.credentials).2.find d).map (·.signCount)).getD 0 =
      (counters (s.effects ++ [.stored i c old new]) d).getLastD 0
    have before := replay.current d
    rw [advanceWebauthnCounter,find_update]
    by_cases same : c = d
    · subst same
      have named := find_key held
      have newest : (counters (s.effects ++ [.stored i c old new]) c).getLastD 0 = new := by
        rw [counters,mine,List.map_append,← List.cons_append]
        exact List.getLastD_concat
      rw [newest,held]
      simp [named,counted]
    · rw [counters,others d same]
      refine Eq.trans ?_ before
      cases found : s.credentials.find d with
      | none => rfl
      | some other =>
          have key := find_key found
          have apart : other.credentialId ≠ c := fun is => same (is.symm.trans key)
          simp [apart]
  · intro j d n r inside
    simp only [AuthSystem.note,List.mem_append,List.mem_singleton,reduceCtorEq,or_false] at inside ⊢
    obtain ⟨before,stored⟩ := replay.won j d n r inside
    exact ⟨before,.inl stored⟩

theorem advance_missed (now : Nat) (c : List UInt8) (old new : Nat) (credentials : Credentials)
    (missed : (credentials.find c).any (fun row => row.signCount == old) = false) :
    advanceWebauthnCounter now c old new credentials = (false,credentials) := by
  have unhit : ∀ row ∈ credentials.rows, (row.credentialId == c && row.signCount == old) = false := by
    intro row inside
    cases hit : (row.credentialId == c && row.signCount == old) with
    | false => rfl
    | true =>
        simp only [Bool.and_eq_true,beq_iff_eq] at hit
        rw [mem_find inside hit.1,Option.any_some,hit.2,beq_self_eq_true] at missed
        cases missed
  rw [advanceWebauthnCounter,missed]
  congr 1
  apply table_ext
  have same : ∀ row ∈ credentials.rows, (if (row.credentialId == c && row.signCount == old) = true
      then {row with signCount := new,lastUsedAt := some now} else row) = row := by
    intro row inside
    rw [unhit row inside]
    rfl
  exact (List.map_congr_left same).trans (List.map_id' credentials.rows)

theorem lookUp_ready (cfg : Config) (req : WebauthnLoginFinishRequest) (record : ChallengeRecord) (credentials : Credentials) (effects : List Effect) (i : Nat) :
    Ready effects i (lookUp cfg req record credentials) := by
  unfold lookUp
  split
  · trivial
  · trivial
  split
  · trivial
  split
  · trivial
  split
  · trivial
  split
  · trivial
  · rename_i accepted
    have rises := login_rises accepted
    split
    · exact rises
    · exact rises

theorem proceed_replay (replay : Replay s) (i : Nat) (sessionId : String) (entropy : List UInt8) (call : Login) (here : s.logins[i]? = some call) :
    Replay (proceed cfg i sessionId entropy call s) := by
  have ready := replay.ready i call here
  unfold proceed
  cases stage : call.stage with
  | received =>
      rcases consume_parts s.ssh.now call.request.challengeId "login" s.challenges with same | ⟨row,result,held,same⟩
      · rw [same]
        exact replay_stage replay i call.request _ trivial
      · rw [same]
        cases result with
        | ok record => exact replay_stage (replay_consumed replay _ held i) i call.request _ trivial
        | error failure =>
            have fewer := replay_fewer replay call.request.challengeId
            cases failure with
            | challengeExpired => exact replay_stage fewer i call.request _ trivial
            | challengeNotFound => exact replay_stage fewer i call.request _ trivial
  | consumed record => exact replay_stage replay i call.request _ (lookUp_ready cfg call.request record s.credentials s.effects i)
  | verified credential count =>
      rw [stage] at ready
      dsimp only
      split
      · exact replay_stage replay i call.request _ trivial
      · exact replay_stage replay i call.request _ ready
  | cleared credential count =>
      rw [stage] at ready
      cases hit : (s.credentials.find credential.credentialId).any (fun row => row.signCount == credential.signCount) with
      | true =>
          have stored := replay_stored replay i credential.credentialId credential.signCount count s.ssh.now ready hit
          have taken := replay_stage stored i call.request (.advanced credential count) (List.mem_append_right _ (List.mem_singleton_self _))
          simpa [advanceWebauthnCounter,hit,AuthSystem.stageAt,AuthSystem.note] using taken
      | false =>
          simp only [advance_missed _ _ _ _ _ hit]
          exact replay_stage replay i call.request _ trivial
  | advanced credential count =>
      rw [stage] at ready
      dsimp only
      cases made : createSession cfg.crates s.ssh.now sessionId entropy credential.accountId (credential.deviceId.or call.request.deviceId)
          credential.displayName none s.ssh.db with
      | mk db result =>
          cases result with
          | error failure => exact replay_stage (replay_auth replay db) i call.request _ trivial
          | ok pair =>
              obtain ⟨session,token⟩ := pair
              have answered := replay_stage (replay_auth replay db) i call.request
                (.answered (.ok ⟨token,session.sessionId,credential.accountId,credential.deviceId.or call.request.deviceId,session.expiresAt⟩)) trivial
              apply replay_note answered (quiet_loggedIn _ _ _ _)
              intro j c n r inside
              rw [List.mem_singleton] at inside
              cases inside
              exact ⟨_,ready⟩
  | answered result => exact replay

theorem replay_created {row : ChallengeRecord} (id : String) (replay : Replay s) (inserted : s.challenges.insert row = some challenges) (named : row.challengeId = id) :
    Replay ({s with challenges := challenges}.note [.opened id]) := by
  obtain ⟨fresh,rfl⟩ := insert_cases inserted
  have quiet := quiet_opened id
  refine ⟨?_,?_,?_,fun j call here => ready_more (replay.ready j call here) _,?_⟩
  · intro other
    have before := replay.once other
    show consumptions (s.effects ++ [.opened id]) other + (if ((s.challenges.upsert row).find other).isSome then 1 else 0) ≤
      openings (s.effects ++ [.opened id]) other
    rw [consumptions_append,quiet.unconsumed,openings_append,find_upsert,named]
    by_cases same : id = other
    · have one : openings [.opened id] other = 1 := by simp [openings,same]
      rw [one,if_pos same]
      simp only [Option.isSome_some,if_true]
      omega
    · rw [if_neg same]
      omega
  · intro c first
    show (_ :: advances (s.effects ++ [.opened id]) c).IsChain Follows
    rw [unstored_advances (quiet.unstored c)]
    exact replay.rising c first
  · intro c
    show _ = (counters (s.effects ++ [.opened id]) c).getLastD 0
    rw [unstored_counters (quiet.unstored c)]
    exact replay.current c
  · intro j c n r inside
    simp only [AuthSystem.note,List.mem_append,List.mem_singleton,reduceCtorEq,or_false] at inside ⊢
    exact replay.won j c n r inside

theorem replay_registered {row : CredentialRecord} (replay : Replay s) (inserted : s.credentials.insert row = some credentials) (zero : row.signCount = 0) :
    Replay {s with credentials := credentials} := by
  obtain ⟨fresh,rfl⟩ := insert_cases inserted
  refine ⟨replay.once,replay.rising,?_,replay.ready,replay.won⟩
  intro c
  have before := replay.current c
  show (((s.credentials.upsert row).find c).map (·.signCount)).getD 0 = _
  rw [find_upsert]
  by_cases same : row.credentialId = c
  · rw [same] at fresh
    rw [fresh] at before
    rw [if_pos same,← before]
    exact zero
  · rw [if_neg same]
    exact before

theorem perform_replay (replay : Replay s) (action : Action) : Replay (perform cfg action s) := by
  cases action with
  | ssh action => exact ⟨replay.once,replay.rising,replay.current,replay.ready,replay.won⟩
  | registerDevice account device displayName => exact replay_auth replay _
  | createSession sessionId entropy account device displayName expiresInSecs =>
      simp only [perform]
      cases made : createSession cfg.crates s.ssh.now sessionId entropy account device displayName expiresInSecs s.ssh.db with
      | mk db result =>
          cases result with
          | error failure => exact replay_auth replay db
          | ok pair =>
              refine replay_note (replay_auth replay db) (quiet_issued _) ?_
              intro i c n r inside
              rw [List.mem_singleton] at inside
              cases inside
  | revokeSession account session => exact replay_auth replay _
  | revokeDevice account device => exact replay_auth replay _
  | createChallenge id challenge account purpose ttlSeconds =>
      simp only [perform]
      cases inserted : s.challenges.insert ⟨id,challenge,account,purpose,s.ssh.now + ttlSeconds⟩ with
      | none => exact replay
      | some challenges => exact replay_created id replay inserted rfl
  | consumeChallenge id purpose =>
      rcases consume_parts s.ssh.now id purpose s.challenges with same | ⟨row,result,held,same⟩
      · simp only [perform,same]
        exact replay
      · simp only [perform,same]
        exact replay_fewer replay id
  | registerCredential id account publicKey device displayName =>
      simp only [perform]
      cases inserted : (s.setAuth (ensureAccount account s.ssh.db)).credentials.insert ⟨id,account,publicKey,0,device,displayName,none⟩ with
      | none => exact replay_auth replay _
      | some credentials => exact replay_registered (replay_auth replay _) inserted rfl
  | receive request =>
      refine replay_calm replay [] rfl rfl (List.append_nil _).symm ⟨fun _ => rfl,fun _ => rfl⟩ ?_ (fun _ _ _ _ inside => by cases inside)
      intro i call here
      rw [perform,List.getElem?_append] at here
      split at here
      · exact replay.ready i call here
      · rw [List.getElem?_singleton] at here
        split at here
        · cases here
          trivial
        · cases here
  | proceed i sessionId entropy =>
      simp only [perform]
      cases here : s.logins[i]? with
      | none => exact replay
      | some call => exact proceed_replay replay i sessionId entropy call here
  | breakOff i =>
      simp only [perform]
      cases here : s.logins[i]? with
      | none => exact replay
      | some call =>
          dsimp only
          split
          · exact replay
          · exact replay_stage replay i call.request (.answered (.error .databaseError)) trivial

theorem performAll_replay (actions : List Action) (replay : Replay s) : Replay (performAll cfg actions s) :=
  performAll_invariant Replay (fun action _ replay => perform_replay replay action) actions replay

theorem rising_counters (chain : (⟨0,0,0⟩ :: advances effects c).IsChain Follows) : (counters effects c).IsChain Rises := by
  have mapped : counters effects c = ((⟨0,0,0⟩ :: advances effects c : List Advance).map (·.new)) := rfl
  rw [mapped,List.isChain_map]
  refine chain.imp ?_
  intro before after follows
  exact follows.1 ▸ follows.2

theorem stored_advance (stored : .stored i c old new ∈ effects) : ⟨i,old,new⟩ ∈ advances effects c :=
  List.mem_filterMap.mpr ⟨_,stored,if_pos rfl⟩

-- Every advance ends strictly above all before it, unless all are zero.
theorem rising_pairwise (chain : (⟨0,0,0⟩ :: advances effects c).IsChain Follows) :
    (advances effects c).Pairwise (fun before after => Rises before.new after.new) := by
  have counted := (List.isChain_iff_pairwise.mp (rising_counters chain)).tail
  exact List.pairwise_map.mp counted

theorem same_advance {one two : Advance} {list : List Advance} (pairwise : list.Pairwise (fun before after => Rises before.new after.new)) (first : one ∈ list) (second : two ∈ list)
    (same : one.new = two.new) (positive : one.new ≠ 0) : one = two := by
  induction pairwise with
  | nil => cases first
  | cons above _ ih =>
      unfold Rises at above
      rcases List.mem_cons.mp first with here | later <;> rcases List.mem_cons.mp second with here' | later'
      · exact here.trans here'.symm
      · have higher := above two later'
        rw [← here] at higher
        omega
      · have higher := above one later
        rw [← here'] at higher
        omega
      · exact ih later later'

theorem advance_follows {before after : List Advance} (chain : (⟨0,0,0⟩ :: advances effects c).IsChain Follows)
    (split : advances effects c = before ++ ⟨i,old,new⟩ :: after) :
    ∃ earlier, counters effects c = earlier ++ [old,new] ++ after.map (·.new) ∧ Rises old new := by
  rw [split] at chain
  rw [counters,split]
  rcases List.eq_nil_or_concat before with none | ⟨front,last,ends⟩
  · rw [none] at chain ⊢
    have follows := (List.isChain_cons_cons.mp chain).1
    refine ⟨[],?_,follows.2⟩
    have replaced : old = 0 := follows.1
    simp [replaced]
  · rw [ends] at chain ⊢
    have follows : Follows last ⟨i,old,new⟩ := by
      rw [← List.cons_append,List.concat_eq_append,← List.cons_append,List.append_assoc] at chain
      exact (List.isChain_cons_cons.mp (List.isChain_append.mp chain).2.1).1
    refine ⟨0 :: front.map (·.new),?_,follows.2⟩
    have replaced : old = last.new := follows.1
    simp [replaced]

theorem consumed_uses {i j : Nat} {id : String} (first : .consumed i id ∈ effects) (second : .consumed j id ∈ effects) (other : i ≠ j) :
    2 ≤ consumptions effects id := by
  induction effects with
  | nil => cases first
  | cons effect rest ih =>
      have counted : consumptions (effect :: rest) id = consumptions rest id + if isConsumed id effect then 1 else 0 := List.countP_cons
      have one : ∀ k, .consumed k id ∈ rest → 1 ≤ consumptions rest id := fun k inside =>
        List.countP_pos_iff.mpr ⟨_,inside,beq_self_eq_true id⟩
      rcases List.mem_cons.mp first with here | later <;> rcases List.mem_cons.mp second with here' | later'
      · rw [← here] at here'
        cases here'
        exact absurd rfl other
      · have more := one j later'
        rw [counted,← here,isConsumed,beq_self_eq_true,if_pos rfl]
        omega
      · have more := one i later
        rw [counted,← here',isConsumed,beq_self_eq_true,if_pos rfl]
        omega
      · have more := ih later later'
        omega

-- Over every interleaving of the handlers' steps: a challenge is used no more
-- often than it is created, a counter other than zero logs in once, and what a
-- credential's row holds only rises.
theorem logins_safe_from_replay (cfg : Config) (now : Nat) (actions : List Action) :
    let s := performAll cfg actions (AuthSystem.opened now)
    (∀ id, consumptions s.effects id ≤ openings s.effects id) ∧
    (∀ id i j, openings s.effects id = 1 → .consumed i id ∈ s.effects → .consumed j id ∈ s.effects → i = j) ∧
    (∀ c n i j r q, n ≠ 0 → .loggedIn i c n r ∈ s.effects → .loggedIn j c n q ∈ s.effects → i = j) ∧
    (∀ c, (counters s.effects c).IsChain Rises ∧ ((s.credentials.find c).map (·.signCount)).getD 0 = (counters s.effects c).getLastD 0) ∧
    (∀ i c n r, .loggedIn i c n r ∈ s.effects → ∃ before old after,
      counters s.effects c = before ++ [old,n] ++ after ∧ Rises old n) := by
  intro s
  have replay : Replay s := performAll_replay actions (opened_replay now)
  refine ⟨?_,?_,?_,?_,?_⟩
  · intro id
    exact Nat.le_trans (Nat.le_add_right _ _) (replay.once id)
  · intro id i j created first second
    by_contra other
    have twice := consumed_uses first second other
    have once := replay.once id
    omega
  · intro c n i j r q positive first second
    obtain ⟨old,stored⟩ := replay.won i c n r first
    obtain ⟨old',stored'⟩ := replay.won j c n q second
    have same := same_advance (rising_pairwise (replay.rising c 0)) (stored_advance stored) (stored_advance stored') rfl positive
    exact congrArg Advance.login same
  · intro c
    exact ⟨rising_counters (replay.rising c 0),replay.current c⟩
  · intro i c n r inside
    obtain ⟨old,stored⟩ := replay.won i c n r inside
    obtain ⟨before,after,split⟩ := List.append_of_mem (stored_advance stored)
    obtain ⟨earlier,follows⟩ := advance_follows (replay.rising c 0) split
    exact ⟨earlier,old,after.map (·.new),follows⟩

end ZkNote.WebauthnReplay
