import ZkNote.EnginePair

namespace ZkNote.EngineServer
open Protocol Adapter KeyedTable LocalStorage MutationQueue Conflict PullChanges PushChanges PushSteps Orchestrator CycleSteps
open ServerStore ServerHistory ServerPages ServerRoutes SyncLink PullRules EnginePair

variable {Key Note World : Type} {s t : Storage}

-- The honest server without other clients, its history in canonical spelling.
def Spelled (log : List Acceptance) : Prop := ∀ e ∈ log, e.request.objectId = e.objectId

def Honest (crates : Crates) (r : Recorded Link) : Prop :=
  ∃ log, Represents crates log r.world.db ∧ Spelled log ∧ r.world.schedule = []

def Canonical (crates : Crates) (request : PushRequest) : Prop := crates.parseUuid request.objectId = .ok request.objectId

variable {crates : Crates} {log : List Acceptance} {l : Link} {request : PushRequest} {response : PushResponse}

theorem quiet_arrived (crates : Crates) (quiet : l.schedule = []) : l.slot.fault = none ∧ l.arrived crates = l.db := by
  simp [Link.arrived,Link.slot,quiet,Slot.quiet,pushAll]

theorem rejected_unanswered (rejected : rejectPush crates request = some reply) : ∀ response, handleResponse reply ≠ .ok response := by
  intro response answered
  unfold rejectPush at rejected
  repeat' split at rejected
  all_goals first
    | cases rejected
      simp [errorReply,handleResponse,errorInvalidEnvelope,errorCryptoUnsupportedVersion,errorSyncCursorInvalid] at answered
    | cases rejected

theorem reply_success (answered : handleResponse (pushReply outcome) = .ok response) : outcome = .ok (.success response) := by
  cases outcome with
  | error e => simp [pushReply,errorReply,handleResponse] at answered
  | ok outcome =>
      cases outcome with
      | success other =>
          simp only [pushReply,handleResponse] at answered
          rw [if_pos (by decide)] at answered
          cases answered
          rfl
      | conflict other => simp [pushReply,handleResponse,errorMutationReplayMismatch] at answered
      | objectNotFound message => simp [pushReply,errorReply,handleResponse] at answered
      | replayMismatch message => simp [pushReply,errorReply,handleResponse] at answered

-- A push on a quiet network: the log grows by one acceptance of this request at
-- most, and an accepted answer repeats an entry of the log it leaves.
theorem quiet_push (rep : Represents crates log l.db) (quiet : l.schedule = []) (account : String) (request : PushRequest) :
    ∃ added : Option Acceptance, Represents crates (log ++ added.toList) (serverPush crates account request l).2.db ∧
      (serverPush crates account request l).2.schedule = [] ∧
      (∀ e, added = some e → e.request = request ∧ crates.parseUuid request.objectId = .ok e.objectId) ∧
      ∀ response, (serverPush crates account request l).1 = .ok response →
        ∃ e ∈ log ++ added.toList, crates.parseUuid request.objectId = .ok e.objectId ∧ response = responseOf e := by
  obtain ⟨calm,arrived⟩ := quiet_arrived crates quiet
  cases rejected : rejectPush crates request with
  | some reply =>
      refine ⟨none,?_⟩
      simp only [serverPush,calm,arrived,pushMutationHandler,rejected,quiet]
      exact ⟨by simpa using rep,rfl,by simp,fun response answered => absurd answered (rejected_unanswered rejected response)⟩
  | none =>
      refine ⟨acceptance crates l.db account request,?_⟩
      simp only [serverPush,calm,arrived,pushMutationHandler,rejected,quiet]
      have ends := push_ends rep account request
      refine ⟨push_represents rep account request,rfl,?_⟩
      generalize acceptance crates l.db account request = added at ends
      generalize pushMutation crates l.db account request = result at ends
      refine ⟨?_,?_⟩
      · rintro e rfl
        cases ends with
        | accepted parsed fresh current => exact ⟨rfl,parsed.object⟩
      · intro response answered
        have success := reply_success answered
        cases ends with
        | malformed bad e => cases success
        | conflicting => cases success
        | missing => cases success
        | accepted parsed fresh current =>
            cases success
            exact ⟨_,by simp,parsed.object,rfl⟩
        | replayed parsed old =>
            obtain ⟨object,_,rfl⟩ := replay_success (Except.ok.inj success)
            exact ⟨_,List.mem_append_left _ (ofMutation_mem old).1,object ▸ parsed.object,rfl⟩

-- Limits from one on mean the same to the server and to the machine.
theorem clamp_agrees (positive : 1 ≤ limit) : clampLimit (some (max 1 (min 500 (max 1 (min limit 500))))) = clampLimit (some limit) := by
  simp only [clampLimit]
  repeat' split
  all_goals omega

theorem honest_serves (crates : Crates) (account : String) (positive : 1 ≤ limit) :
    Serves (recording (honest crates account)) (Honest crates) (Canonical crates) (some limit)
      (max 1 (min 500 (max 1 (min limit 500)))) := by
  refine ⟨?_,?_⟩
  · rintro after ⟨l,asked⟩ ⟨log,rep,spelled,quiet⟩
    have quiet : l.schedule = [] := quiet
    obtain ⟨calm,arrived⟩ := quiet_arrived crates quiet
    have native : serverPull crates account after (some limit) l = _ := server_pull_answered calm after (some limit)
    have web : serverPull crates account after (some (max 1 (min 500 (max 1 (min limit 500))))) l = _ :=
      server_pull_answered calm after (some (max 1 (min 500 (max 1 (min limit 500)))))
    rw [clamp_agrees positive] at web
    dsimp only at native web
    refine ⟨(pullChanges (l.arrived crates) account after (clampLimit (some limit))).1,
      (⟨l,asked⟩ : Recorded Link).ask (.pull after) true {l with
        db := ensureAccount (l.arrived crates) account
        schedule := l.schedule.tail
        pulls := l.pulls ++ [(pullChanges (l.arrived crates) account after (clampLimit (some limit))).1]},?_,?_,?_,?_,?_⟩
    · simp only [recording,honest,native]
      rfl
    · simp only [recording,honest,web]
      rfl
    · refine ⟨log,?_,spelled,?_⟩
      · simp only [Recorded.ask]
        rw [arrived]
        exact represents_ensured rep account
      · simp only [Recorded.ask,quiet,List.tail_nil]
    · intro change inside
      rw [arrived,pull_changes_eq] at inside
      obtain ⟨r,paged,rfl⟩ := List.mem_map.mp inside
      exact (head_seq_positive rep (mem_rowsAfter.mp (List.mem_of_mem_take paged)).1).1
    · intro more empty
      have last := empty_page_last _ account after (clamp_positive (some limit)) empty
      rw [last] at more
      cases more
  · rintro request ⟨l,asked⟩ response w' ⟨log,rep,spelled,quiet⟩ canonical answered
    obtain ⟨added,after,still,new,old⟩ := quiet_push rep quiet account request
    have own : ∀ {o}, crates.parseUuid request.objectId = .ok o → request.objectId = o := by
      intro o parsed
      exact Except.ok.inj (canonical.symm.trans parsed)
    have grown : Spelled (log ++ added.toList) := by
      intro e inside
      rcases List.mem_append.mp inside with before | fresh
      · exact spelled e before
      · obtain ⟨request,parsed⟩ := new e (Option.mem_toList.mp fresh)
        rw [request]
        exact own parsed
    simp only [recording,honest,Prod.mk.injEq] at answered
    obtain ⟨answered,rfl⟩ := answered
    obtain ⟨e,inside,parsed,rfl⟩ := old response answered
    exact ⟨(grown e inside).trans (own parsed).symm,_,after,grown,still⟩

-- With nothing in flight the reset changes nothing.
theorem native_reset (pending : ∀ m ∈ s.mutations.rows, m.status = .pending) : (resetInFlight s).2 = s := by
  have rows : (resetInFlight s).2.mutations.rows = s.mutations.rows := by
    rw [reset_in_flight_rows]
    conv_rhs => rw [← List.map_id s.mutations.rows]
    apply List.map_congr_left
    intro m inside
    simp [refresh,pending m inside]
  have table : ∀ one two : Table String PendingMutation (·.mutationId), one.rows = two.rows → one = two := by
    rintro ⟨_,_⟩ ⟨_,_⟩ rfl
    rfl
  rw [reset_in_flight_frame,table _ _ rows]

-- Recording changes no answer.
theorem recorded_loop (inner : SyncServerAdapter World) (options : PullOptions) (clock : Nat → String) (fuel : Nat) (world : World)
    (asked : List Asked) (p : Progress) :
    ∃ after, pullLoop (recording inner) options clock fuel ⟨world,asked⟩ p =
      (pullLoop inner options clock fuel world p).map (fun out => (⟨out.1,after⟩,out.2)) := by
  induction fuel generalizing world asked p with
  | zero => exact ⟨[],rfl⟩
  | succ fuel ih =>
      cases served : inner.pullChanges p.currentSeq options.pageLimit world with
      | mk answer next =>
      have heard : (recording inner).pullChanges p.currentSeq options.pageLimit ⟨world,asked⟩ =
          (answer,⟨next,asked ++ [⟨.pull p.currentSeq,answer.isOk⟩]⟩) := by
        simp only [recording,served]
        rfl
      simp only [pullLoop,heard,served]
      split
      · exact ⟨asked,rfl⟩
      · cases answer with
        | error e => exact ⟨_,rfl⟩
        | ok page =>
            dsimp only
            split
            · exact ⟨_,rfl⟩
            · split
              · exact ih next _ _
              · exact ⟨_,rfl⟩

-- A quiet pull leaves the server's log as it is, and the cursor where it was or
-- at a number the server has handed out.
theorem quiet_phase (crates : Crates) (account : String) (codec : NoteCodec Key Note) (clock : Nat → String) (limit fuel : Nat)
    {r : Recorded Link} (rep : Represents crates log r.world.db) (quiet : r.world.schedule = []) (start : currentCursor s < 2^63)
    (small : (ofAccount log account).length < 2^63) (enough : (ofAccount log account).length < fuel) :
    ∃ r' t report, pullRemoteChanges (recording (honest crates account)) codec none ⟨some limit,none⟩ clock fuel r s =
        some (r',t,.ok report) ∧
      Represents crates log r'.world.db ∧ r'.world.schedule = [] ∧ currentCursor t < 2^63 ∧ t.mutations = s.mutations := by
  obtain ⟨l',q,looped⟩ := quiet_loop_returns (p := startPull s) clock ⟨some limit,none⟩ fuel rep quiet rfl start small (by omega) (by omega)
  obtain ⟨asked,recorded⟩ := recorded_loop (honest crates account) ⟨some limit,none⟩ clock fuel r.world r.asked (startPull s)
  rw [looped] at recorded
  obtain ⟨⟨after,still⟩,bound⟩ := pull_loop_rule
    (fun (r : Recorded Link) s => (Represents crates log r.world.db ∧ r.world.schedule = []) ∧ currentCursor s < 2^63)
    (fun change => change.serverSeq < 2^63) (by
      rintro after limit ⟨l,asked⟩ s ⟨⟨rep,quiet⟩,bound⟩
      have quiet : l.schedule = [] := quiet
      obtain ⟨calm,arrived⟩ := quiet_arrived crates quiet
      have served : serverPull crates account after limit l = _ := server_pull_answered calm after limit
      simp only [recording,honest,served,arrived,Recorded.ask,quiet,List.tail_nil]
      refine ⟨⟨⟨represents_ensured rep account,trivial⟩,bound⟩,?_⟩
      rintro page served change inside
      cases served
      rw [pull_changes_eq] at inside
      obtain ⟨row,paged,rfl⟩ := List.mem_map.mp inside
      obtain ⟨member,own,_⟩ := mem_rowsAfter.mp (List.mem_of_mem_take paged)
      have below := (head_seq_positive rep member).2
      rw [own,rep.sequence] at below
      exact Nat.lt_of_le_of_lt below small)
    (fun _ _ _ _ kept fine _ => ⟨kept.1,fine⟩) fuel (p := startPull s) ⟨⟨rep,quiet⟩,start⟩ recorded
  refine ⟨⟨l',asked⟩,recordSyncSuccess q.storage (clock q.applied.length),pullReport q (currentCursor s) false [],?_,after,still,bound,?_⟩
  · have looped : pullLoop (recording (honest crates account)) ⟨some limit,none⟩ clock fuel r (startPull s) =
        some (⟨l',asked⟩,q,.ok ()) := recorded
    simp only [pullRemoteChanges,looped]
  · exact (pull_loop_frame fuel recorded).mutations

-- No push moves the cursor, whatever comes of it.
theorem mark_state (marked : mark status retries s mutationId = .ok t) : t.syncState = s.syncState := by
  unfold mark at marked
  split at marked
  · cases marked
  · unfold Storage.updateMutationStatus at marked
    split at marked
    · cases marked
    · rename_i updated
      cases marked
      split at updated <;> cases updated
      rfl

theorem settle_state (codec : NoteCodec Key Note) (options : PushOptions Key) (tick : Tick) (m : PendingMutation) (s : Storage)
    (report : PushReport) (answer : Except SyncNetworkError PushResponse) :
    (settlePush codec options tick m s report answer).1.syncState = s.syncState := by
  have marks : ∀ status retries (s : Storage), (orKeep s (mark status retries s m.mutationId)).syncState = s.syncState := by
    intro status retries s
    unfold orKeep
    split
    · rename_i marked
      exact mark_state marked
    · rfl
  have removed : ∀ (list : List PendingMutation) (s : Storage),
      (list.foldl (fun s m => s.removeMutation m.mutationId) s).syncState = s.syncState := by
    intro list
    induction list with
    | nil => exact fun _ => rfl
    | cons x list ih => exact fun s => ih (s.removeMutation x.mutationId)
  have resolved : ∀ conflict, (evaluateGuardedLww codec options.vaultKey tick s m conflict).2.syncState = s.syncState := by
    intro conflict
    unfold evaluateGuardedLww removeForObject
    split
    · rfl
    · dsimp only
      split
      · split
        · exact (removed _ _).trans rfl
        · rename_i queued
          obtain ⟨_,rfl⟩ := enqueue_cases queued
          exact (removed _ _).trans rfl
      · exact (removed _ _).trans rfl
  cases answer with
  | ok response =>
      simp only [settlePush,acknowledgeAccepted]
      split
      · rfl
      · rename_i accepted
        split at accepted <;> cases accepted
        rfl
  | error e =>
      unfold settlePush
      split
      · rename_i same
        cases same
      · rename_i conflict same
        split
        · have kept := resolved conflict
          split
          · rename_i out
            rw [out] at kept
            exact kept
          · rename_i out
            rw [out] at kept
            exact kept
        · dsimp only
          split
          · exact marks .pending _ s
          · rename_i recorded
            rw [(record_conflict_cases recorded).1]
            exact marks .pending _ s
      · rename_i same
        split
        · exact marks .pending _ s
        · exact marks .failed _ s

theorem push_loop_state {adapter : SyncServerAdapter World} {codec : NoteCodec Key Note} {options : PushOptions Key} {ticks : Nat → Tick}
    {w w' : World} (ran : pushLoop adapter codec options ticks list w s report = (w',t,result)) : t.syncState = s.syncState := by
  induction list generalizing w s report with
  | nil =>
      cases ran
      rfl
  | cons row rest ih =>
      have tried : (attempt adapter codec options (ticks report.totalAttempted) row w s report).2.1.syncState = s.syncState := by
        unfold attempt
        dsimp only
        split
        · rfl
        · rename_i flying
          exact (settle_state codec options _ row _ _ _).trans (mark_state flying)
      unfold pushLoop at ran
      split at ran
      · cases ran
        rfl
      · split at ran
        · split at ran
          · rename_i attempted
            rw [attempted] at tried
            exact (ih ran).trans tried
          · rename_i attempted
            rw [attempted] at tried
            cases ran
            exact tried
          · rename_i attempted
            rw [attempted] at tried
            cases ran
            exact tried
        · exact ih ran

-- On a quiet network a cycle of the native engine returns.
theorem cycle_returns (crates : Crates) (account : String) (codec : NoteCodec Key Note) (options : SyncCycleOptions Key) (draws : Draws)
    (limit : Nat) {r : Recorded Link} (rep : Represents crates log r.world.db) (quiet : r.world.schedule = [])
    (pages : options.pullOptions = ⟨some limit,none⟩) (pending : ∀ m ∈ s.mutations.rows, m.status = .pending)
    (start : currentCursor s < 2^63) (small : currentSequence r.world.db account + s.mutations.rows.length < 2^63) :
    ∃ fuel out, runSyncCycle (recording (honest crates account)) codec none options {draws with fuel := fuel} r s = some out := by
  rw [rep.sequence] at small
  let fuel := (ofAccount log account).length + s.mutations.rows.length + 1
  refine ⟨fuel,?_⟩
  obtain ⟨r₁,s₁,report₁,pulled,rep₁,quiet₁,start₁,queue⟩ := quiet_phase crates account codec draws.clock limit fuel rep quiet start
    (by omega) (by omega)
  unfold runSyncCycle
  simp only [native_reset pending,pages,pulled]
  cases pushed : pushPendingChanges (recording (honest crates account)) codec (pushKey options none) draws.ticks r₁ s₁ with
  | mk r₂ out =>
  obtain ⟨s₂,result₂⟩ := out
  cases result₂ with
  | error e => exact ⟨_,rfl⟩
  | ok report =>
      dsimp only
      split
      · obtain ⟨log₂,rep₂,quiet₂,length⟩ := push_loop_world
          (fun n (r : Recorded Link) => ∃ log₂, Represents crates log₂ r.world.db ∧ r.world.schedule = [] ∧
            (ofAccount log₂ account).length ≤ n)
          (fun n r kept => kept.imp (fun _ kept => ⟨kept.1,kept.2.1,by omega⟩)) (by
            rintro n request ⟨l,asked⟩ ⟨log₂,rep,quiet,length⟩
            obtain ⟨added,after,still,_⟩ := quiet_push rep quiet account request
            refine ⟨_,after,still,?_⟩
            have one : (ofAccount added.toList account).length ≤ 1 := by
              cases added with
              | none => simp [ofAccount]
              | some e => exact List.length_filter_le _ _
            simp only [ofAccount,List.filter_append,List.length_append] at one length ⊢
            omega) (n := (ofAccount log account).length) ⟨log,rep₁,quiet₁,Nat.le_refl _⟩ pushed
        have cursor : currentCursor s₂ < 2^63 := by
          rw [PullChanges.currentCursor,push_loop_state pushed]
          exact start₁
        have rows : s₁.listPendingMutations.length = s.mutations.rows.length := by
          rw [Storage.listPendingMutations,(List.perm_insertionSort _ _).length_eq,queue]
        obtain ⟨r₃,s₃,report₃,again,_⟩ := quiet_phase crates account codec draws.followupClock limit fuel rep₂ quiet₂ cursor
          (by omega) (by omega)
        rw [again]
        exact ⟨_,rfl⟩
      · exact ⟨_,rfl⟩

end ZkNote.EngineServer
