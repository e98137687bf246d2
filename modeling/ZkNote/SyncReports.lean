import ZkNote.CycleSteps
import ZkNote.StateMachineRuns

namespace ZkNote.SyncReports
open Protocol Adapter KeyedTable LocalStorage MutationQueue Conflict PullChanges PushChanges PushSteps Orchestrator CycleSteps
open StateMachine StateMachineRuns
open SyncStateMachine (new finish stepPush storeChanges)

-- The acknowledgements of a run: the mutation, and the object the server named.
def acknowledged (trace : List SyncAction) : List (String × String) :=
  trace.filterMap (fun | .acknowledgeAccepted object mutationId => some (mutationId,object.objectId) | _ => none)

theorem acknowledged_append (xs ys : List SyncAction) : acknowledged (xs ++ ys) = acknowledged xs ++ acknowledged ys :=
  List.filterMap_append

-- What a run has booked: one acceptance per acknowledgement, each for an entry
-- of the queue before the index.
structure Books (q : List PendingMutation) (m : SyncStateMachine) (trace : List SyncAction) : Prop where
  queue : m.pendingMutations = q
  accepted : m.push.accepted.map (·.objectId) = (acknowledged trace).map Prod.snd
  struck : ((acknowledged trace).map Prod.fst).Sublist ((q.take m.mutationIndex).map (·.mutationId))

-- What no handler but that of a success leaves otherwise.
structure Onward (m next : SyncStateMachine) (actions : List SyncAction) : Prop where
  queue : next.pendingMutations = m.pendingMutations
  accepted : next.push.accepted = m.push.accepted
  index : m.mutationIndex ≤ next.mutationIndex
  quiet : acknowledged actions = []

variable {m next : SyncStateMachine}

theorem finish_onward (m : SyncStateMachine) (now : String) : Onward m (m.finish now).1 (m.finish now).2 := by
  unfold finish
  split <;> exact ⟨rfl,rfl,Nat.le_refl _,rfl⟩

theorem step_push_onward (m : SyncStateMachine) (now : String) : Onward m (m.stepPush now).1 (m.stepPush now).2 := by
  unfold stepPush
  simp only
  split
  · exact ⟨rfl,rfl,Nat.le_add_right _ _,rfl⟩
  · split
    · exact ⟨rfl,rfl,Nat.le_add_right _ _,rfl⟩
    · have done := finish_onward {m with
        mutationIndex := m.mutationIndex + (m.pendingMutations.drop m.mutationIndex).findIdx m.eligible} now
      exact ⟨done.queue,done.accepted,Nat.le_trans (Nat.le_add_right _ _) done.index,done.quiet⟩

theorem stores_quiet (clock : Nat → String) (i cursor : Nat) (changes : List ObjectChange) :
    acknowledged (storeChanges clock i cursor changes).1 = [] := by
  refine List.filterMap_eq_nil_iff.mpr ?_
  intro x inside
  rcases store_changes_actions _ _ _ _ inside with ⟨_,rfl⟩ | ⟨_,rfl⟩ <;> rfl

theorem page_onward (m : SyncStateMachine) (clock : Nat → String) (response : PullChangesResponse) :
    Onward m (m.handlePullResponse clock response).1 (m.handlePullResponse clock response).2 := by
  have quiet := stores_quiet clock 0 m.currentCursor response.changes
  unfold SyncStateMachine.handlePullResponse
  by_cases first : m.phase = .pullingInitial
  · simp only [first,if_true]
    split
    · exact ⟨rfl,rfl,Nat.le_refl _,by rw [acknowledged_append,quiet]; rfl⟩
    · have turn := step_push_onward {m with
        phase := .pushing
        currentCursor := (storeChanges clock 0 m.currentCursor response.changes).2.1
        initialPull := SyncStateMachine.countPage m.initialPull response.changes.length
          (storeChanges clock 0 m.currentCursor response.changes).2.2
          (storeChanges clock 0 m.currentCursor response.changes).2.1} (clock response.changes.length)
      exact ⟨turn.queue,turn.accepted,turn.index,by rw [acknowledged_append,quiet,turn.quiet]; rfl⟩
  · simp only [first,if_false]
    split <;> exact ⟨rfl,rfl,Nat.le_refl _,by rw [acknowledged_append,quiet]; rfl⟩

theorem books_onward (books : Books q m trace) (onward : Onward m next actions) : Books q next (trace ++ actions) := by
  refine ⟨onward.queue.trans books.queue,?_,?_⟩
  · rw [onward.accepted,books.accepted,acknowledged_append,onward.quiet,List.append_nil]
  · rw [acknowledged_append,onward.quiet,List.append_nil]
    exact books.struck.trans ((List.take_sublist_take_left onward.index).map _)

-- A success strikes the entry at the index and books its response.
theorem books_accepted (books : Books q m trace) (found : m.inFlight mutationId = .ok mutation) (resp : PushResponse)
    (stored : StoredEncryptedObject) (named : stored.objectId = resp.objectId) :
    Books q {m with
      push := {m.push with accepted := m.push.accepted ++ [resp]}
      mutationIndex := m.mutationIndex+1} (trace ++ [.acknowledgeAccepted stored mutationId]) := by
  have place : q[m.mutationIndex]? = some mutation ∧ mutation.mutationId = mutationId := by
    rw [← books.queue]
    unfold SyncStateMachine.inFlight at found
    split at found
    · cases found
    · rename_i present
      split at found
      · cases found
      · rename_i same
        cases found
        exact ⟨present,by simpa using same⟩
  have one : acknowledged [.acknowledgeAccepted stored mutationId] = [(mutationId,stored.objectId)] := rfl
  refine ⟨books.queue,?_,?_⟩
  · rw [acknowledged_append,one,List.map_append,List.map_append,books.accepted]
    simp [named]
  · rw [acknowledged_append,one,List.map_append,List.take_add_one,place.1,List.map_append]
    refine books.struck.append ?_
    simp [place.2]

theorem books_answer (books : Books q m trace) (done : answer m request a = some (.ok (next,actions))) :
    Books q next (trace ++ actions) := by
  cases request with
  | fetchPull after limit =>
      cases a with
      | page clock response =>
          have same : m.handlePullResponse clock response = (next,actions) := Except.ok.inj (Option.some.inj done)
          have turn := page_onward m clock response
          rw [same] at turn
          exact books_onward books turn
      | accepted => cases done
      | conflict => cases done
      | transient => cases done
      | fatal => cases done
  | sendPush request =>
      cases a with
      | page => cases done
      | accepted now response =>
          simp only [answer,SyncStateMachine.handlePushSuccess,Option.some.injEq] at done
          cases found : m.inFlight request.mutationId with
          | error e => rw [found] at done; cases done
          | ok mutation =>
              rw [found] at done
              cases done
              have booked := books_accepted books found response
                ⟨response.objectId,mutation.objectKind,response.revision,response.serverSeq,
                  decide (mutation.mutationType = .delete),mutation.envelope,now⟩ rfl
              have whole := books_onward booked (step_push_onward _ now)
              rw [List.append_assoc] at whole
              exact whole
      | conflict now conflictRecord =>
          simp only [answer,SyncStateMachine.handlePushConflict,Option.some.injEq] at done
          cases found : m.inFlight request.mutationId with
          | error e => rw [found] at done; cases done
          | ok mutation =>
              rw [found] at done
              cases done
              have booked : Books q {m with
                  conflictedObjects := conflictRecord.objectId :: m.conflictedObjects
                  push := {m.push with conflicts := m.push.conflicts ++ [conflictRecord]}
                  mutationIndex := m.mutationIndex+1}
                  (trace ++ [.recordConflict conflictRecord request.mutationId,.resetMutationToPending request.mutationId]) :=
                books_onward books ⟨rfl,rfl,Nat.le_succ _,rfl⟩
              by_cases stop : m.stopOnConflict = true
              · simp only [if_pos stop]
                have whole := books_onward booked (finish_onward _ now)
                rw [List.append_assoc] at whole
                exact whole
              · simp only [if_neg stop]
                have whole := books_onward booked (step_push_onward _ now)
                rw [List.append_assoc] at whole
                exact whole
      | transient =>
          simp only [answer,SyncStateMachine.handlePushTransientError,Option.some.injEq] at done
          cases found : m.inFlight request.mutationId with
          | error e => rw [found] at done; cases done
          | ok mutation =>
              rw [found] at done
              cases done
              exact books_onward books ⟨rfl,rfl,Nat.le_succ _,rfl⟩
      | fatal error =>
          cases done
          exact books_onward books ⟨rfl,rfl,Nat.le_refl _,rfl⟩
  | _ => cases a <;> cases done

theorem run_books (run : Run allowed (new c q options) m trace out) : Books q m trace := by
  induction run with
  | started => exact ⟨rfl,rfl,List.nil_sublist _⟩
  | answered run fits done ih => exact books_answer ih done

theorem remaining_iff (books : Books q m trace) :
    m.getReport.mutationsRemaining = q.length - (acknowledged trace).length ↔
      (∀ x ∈ q, x.mutationId ≠ "" → ∀ ack ∈ acknowledged trace, ack.2 ≠ x.objectId) ∨
      (acknowledged trace).length = q.length := by
  have count : m.push.accepted.length = (acknowledged trace).length := by
    simpa using congrArg List.length books.accepted
  have bound : (acknowledged trace).length ≤ q.length := by
    have shorter := books.struck.length_le
    simp only [List.length_map,List.length_take] at shorter
    omega
  have kept := List.length_filter_le (fun x : PendingMutation =>
    !m.push.accepted.any (fun a => a.objectId = x.objectId ∧ x.mutationId ≠ "")) q
  have all : (q.filter (fun x => !m.push.accepted.any (fun a => a.objectId = x.objectId ∧ x.mutationId ≠ ""))).length = q.length ↔
      ∀ x ∈ q, x.mutationId ≠ "" → ∀ ack ∈ acknowledged trace, ack.2 ≠ x.objectId := by
    rw [List.length_filter_eq_length_iff]
    have named : ∀ o, (∃ resp ∈ m.push.accepted, resp.objectId = o) ↔ ∃ ack ∈ acknowledged trace, ack.2 = o := by
      intro o
      have same : o ∈ m.push.accepted.map (·.objectId) ↔ o ∈ (acknowledged trace).map Prod.snd := by rw [books.accepted]
      simpa only [List.mem_map] using same
    constructor
    · intro clear x inside told ack member same
      obtain ⟨resp,accepted,object⟩ := (named x.objectId).mpr ⟨ack,member,same⟩
      have free := clear x inside
      simp only [Bool.not_eq_true',List.any_eq_false,decide_eq_true_eq,not_and] at free
      exact free resp accepted object told
    · intro clear x inside
      simp only [Bool.not_eq_true',List.any_eq_false,decide_eq_true_eq,not_and]
      intro resp accepted object told
      obtain ⟨ack,member,same⟩ := (named x.objectId).mp ⟨resp,accepted,object⟩
      exact clear x inside told ack member same
  rw [SyncStateMachine.getReport,books.queue,count,← all]
  simp only
  omega

variable {World Key Note : Type} {s t : Storage}

theorem restatus_length (found : s.getMutation mutationId = some row) (status : MutationStatus) (retries : UInt32) :
    (restatus s row status retries).mutations.rows.length = s.mutations.rows.length := by
  have own : row.mutationId = mutationId := find_key found
  have held : s.mutations.find (marked row status retries).mutationId = some row := by
    rw [← own] at found
    exact found
  have same := congrArg List.length (upsert_held_map held (fun _ => ()) rfl)
  rw [List.length_map,List.length_map] at same
  exact same

theorem marked_length (status : MutationStatus) (retries : UInt32 → UInt32) (s : Storage) (mutationId : String) :
    (orKeep s (mark status retries s mutationId)).mutations.rows.length = s.mutations.rows.length := by
  cases found : s.getMutation mutationId with
  | none => simp [mark,found,orKeep]
  | some row =>
      rw [mark_row found]
      exact restatus_length found status _

theorem acknowledged_length (done : MutationQueue.acknowledgeAccepted s mutationId revision serverSeq now = .ok (stored,t)) :
    t.mutations.rows.length + 1 = s.mutations.rows.length := by
  unfold MutationQueue.acknowledgeAccepted at done
  split at done
  · cases done
  · rename_i mutation found
    cases done
    exact delete_length found

-- One attempt that resolves nothing by the guarded policy moves an accepted
-- mutation from the queue to the report and no other.
theorem attempt_counts {adapter : SyncServerAdapter World} {codec : NoteCodec Key Note} {options : PushOptions Key} {w : World}
    (ran : attempt adapter codec options tick row w s report = (w',t,report',flow)) (whole : ∀ e, flow ≠ .abort e)
    (plain : report'.lwwResolved = []) :
    report.lwwResolved = [] ∧
      t.mutations.rows.length + report'.accepted.length = s.mutations.rows.length + report.accepted.length := by
  unfold attempt at ran
  simp only at ran
  split at ran
  · cases ran
    exact absurd rfl (whole _)
  · rename_i s₁ flying
    have same : s₁.mutations.rows.length = s.mutations.rows.length := by
      have kept := marked_length .inFlight saturatingSucc s row.mutationId
      rw [show mark .inFlight saturatingSucc s row.mutationId = .ok s₁ from flying] at kept
      exact kept
    generalize (adapter.pushMutation (requestOf row) w).1 = answer at ran
    simp only [Prod.mk.injEq] at ran
    obtain ⟨_,settled⟩ := ran
    rw [← same]
    cases answer with
    | ok resp =>
        simp only [settlePush] at settled
        split at settled
        · cases settled
          exact absurd rfl (whole _)
        · rename_i accepted
          cases settled
          have shorter := acknowledged_length accepted
          refine ⟨plain,?_⟩
          simp only [List.length_append,List.length_cons,List.length_nil]
          omega
    | error e =>
        have kept := marked_length .pending (fun n => n) s₁ row.mutationId
        cases e with
        | conflict conflict =>
            simp only [settlePush] at settled
            split at settled
            · split at settled
              · cases settled
                exact absurd rfl (whole _)
              · cases settled
                simp at plain
            · split at settled
              · cases settled
                exact absurd rfl (whole _)
              · rename_i recorded
                obtain ⟨rfl,_⟩ := record_conflict_cases recorded
                cases settled
                exact ⟨plain,congrArg (· + report.accepted.length) kept⟩
        | _ =>
            simp only [settlePush] at settled
            split at settled
            · cases settled
              exact ⟨plain,congrArg (· + report.accepted.length) kept⟩
            · cases settled
              exact absurd rfl (whole _)

theorem push_loop_counts {adapter : SyncServerAdapter World} {codec : NoteCodec Key Note} {options : PushOptions Key} {w : World}
    (ran : pushLoop adapter codec options ticks list w s report = (w',t,.ok report')) (plain : report'.lwwResolved = []) :
    report.lwwResolved = [] ∧
      t.mutations.rows.length + report'.accepted.length = s.mutations.rows.length + report.accepted.length := by
  induction list generalizing w s report with
  | nil =>
      cases ran
      exact ⟨plain,rfl⟩
  | cons row rest ih =>
      unfold pushLoop at ran
      split at ran
      · cases ran
        exact ⟨plain,rfl⟩
      · split at ran
        · split at ran
          · rename_i attempted
            obtain ⟨still,later⟩ := ih ran
            obtain ⟨first,now⟩ := attempt_counts attempted (by simp) still
            exact ⟨first,later.trans now⟩
          · rename_i attempted
            cases ran
            exact attempt_counts attempted (by simp) plain
          · cases ran
        · exact ih ran

-- Under the manual policy nothing is resolved on the way.
theorem attempt_manual {adapter : SyncServerAdapter World} {codec : NoteCodec Key Note} {options : PushOptions Key} {w : World}
    (manual : options.conflictPolicy = .manual)
    (ran : attempt adapter codec options tick row w s report = (w',t,report',flow)) :
    report'.lwwResolved = report.lwwResolved := by
  unfold attempt at ran
  simp only at ran
  split at ran
  · cases ran
    rfl
  · generalize (adapter.pushMutation (requestOf row) w).1 = answer at ran
    simp only [Prod.mk.injEq] at ran
    obtain ⟨_,settled⟩ := ran
    cases answer with
    | ok resp =>
        simp only [settlePush] at settled
        split at settled <;> cases settled <;> rfl
    | error e =>
        cases e with
        | conflict conflict =>
            simp only [settlePush,manual,reduceCtorEq,false_and,if_false] at settled
            split at settled <;> cases settled <;> rfl
        | _ =>
            simp only [settlePush] at settled
            split at settled <;> cases settled <;> rfl

theorem push_loop_manual {adapter : SyncServerAdapter World} {codec : NoteCodec Key Note} {options : PushOptions Key} {w : World}
    (manual : options.conflictPolicy = .manual)
    (ran : pushLoop adapter codec options ticks list w s report = (w',t,.ok report')) :
    report'.lwwResolved = report.lwwResolved := by
  induction list generalizing w s report with
  | nil =>
      cases ran
      rfl
  | cons row rest ih =>
      unfold pushLoop at ran
      split at ran
      · cases ran
        rfl
      · split at ran
        · split at ran
          · rename_i attempted
            exact (ih ran).trans (attempt_manual manual attempted)
          · rename_i attempted
            cases ran
            exact attempt_manual manual attempted
          · cases ran
        · exact ih ran

-- A cycle reports what is left of the queue it began with; only the guarded
-- policy takes mutations out of it that were not accepted.
theorem cycle_remaining {adapter : SyncServerAdapter World} {codec : NoteCodec Key Note} {w : World} {report : SyncCycleReport Note}
    (ran : runSyncCycle adapter codec vaultKey options draws w s = some (w',t,.ok report))
    (plain : options.pushOptions.conflictPolicy = .manual ∨ report.push.lwwResolved = []) :
    report.mutationsRemaining + report.mutationsAccepted = s.listPendingMutations.length := by
  have listed : s.listPendingMutations.length = (resetInFlight s).2.mutations.rows.length := by
    rw [reset_in_flight_rows,List.length_map]
    exact (List.perm_insertionSort _ _).length_eq
  have counted : ∀ w₁ s₁ first w₂ s₂ pushed,
      pullRemoteChanges adapter codec vaultKey options.pullOptions draws.clock draws.fuel w (resetInFlight s).2 =
        some (w₁,s₁,.ok first) →
      pushPendingChanges adapter codec (pushKey options vaultKey) draws.ticks w₁ s₁ = (w₂,s₂,.ok pushed) →
      options.pushOptions.conflictPolicy = .manual ∨ pushed.lwwResolved = [] →
      s₂.mutations.rows.length + pushed.accepted.length = s.listPendingMutations.length := by
    intro w₁ s₁ first w₂ s₂ pushed pulled ran plain
    have none : pushed.lwwResolved = [] := by
      rcases plain with manual | none
      · exact push_loop_manual (by exact manual) ran
      · exact none
    obtain ⟨_,counts⟩ := push_loop_counts ran none
    rw [counts,listed,(pull_frame pulled).mutations]
    rfl
  generalize result : (Except.ok report : Except SyncCycleError (SyncCycleReport Note)) = ended at ran
  cases cycle_phases ran with
  | unpulled => cases result
  | unpushed => cases result
  | unfollowed => cases result
  | ended pulled pushed =>
      cases result
      exact counted _ _ _ _ _ _ pulled pushed plain
  | followed pulled pushed again =>
      cases result
      have counts := counted _ _ _ _ _ _ pulled pushed plain
      rw [← (pull_frame again).mutations] at counts
      exact counts

-- The machine counts by the objects of its acceptances and then takes the
-- acceptances off once more, so it is right in two extremes only.
theorem report_remaining_iff (run : Run allowed (new c q options) m trace out) :
    ((acknowledged trace).map Prod.fst).Sublist (q.map (·.mutationId)) ∧
    (m.getReport.mutationsRemaining = q.length - (acknowledged trace).length ↔
      (∀ x ∈ q, x.mutationId ≠ "" → ∀ ack ∈ acknowledged trace, ack.2 ≠ x.objectId) ∨
      (acknowledged trace).length = q.length) ∧
    ∀ {World Key Note : Type} (adapter : SyncServerAdapter World) (codec : NoteCodec Key Note) (vaultKey : Option Key)
      (cycle : SyncCycleOptions Key) (draws : Draws) (w w' : World) (s t : Storage) (report : SyncCycleReport Note),
      s.listPendingMutations = q → runSyncCycle adapter codec vaultKey cycle draws w s = some (w',t,.ok report) →
      cycle.pushOptions.conflictPolicy = .manual ∨ report.push.lwwResolved = [] →
      report.mutationsRemaining = q.length - report.mutationsAccepted := by
  have books := run_books run
  refine ⟨books.struck.trans ((List.take_sublist _ _).map _),remaining_iff books,?_⟩
  rintro World Key Note adapter codec vaultKey cycle draws w w' s t report rfl ran plain
  have counts := cycle_remaining ran plain
  omega

def twoEdits : List PendingMutation :=
  [queued change1 firstNote 0 .pending "aaaa" "t1",queued change2 secondNote 0 .pending "bbbb" "t2"]

-- With both accepted the report is right, with one of two it says none is left.
theorem all_accepted_reported :
    ∃ m trace, Run (fun _ _ => True) (new 0 twoEdits .default) m trace [.fetchPull 0 50] ∧
      m.getReport.mutationsRemaining = twoEdits.length - (acknowledged trace).length := by
  have run : Run (fun _ _ => True) (new 0 twoEdits .default) _ _ _ :=
    drive_run [.page (fun _ => "t3") ⟨[],0,false⟩,.accepted "t3" ⟨firstNote,1,1⟩,.accepted "t3" ⟨secondNote,1,2⟩]
      .started (by simp) rfl
  exact ⟨_,_,run,(report_remaining_iff run).2.1.mpr (.inr rfl)⟩

theorem half_accepted_misreported :
    ∃ m trace out, Run (fun _ _ => True) (new 0 twoEdits .default) m trace out ∧
      m.getReport.mutationsRemaining = 0 ∧ twoEdits.length - (acknowledged trace).length = 1 := by
  have run : Run (fun _ _ => True) (new 0 twoEdits .default) _ _ _ :=
    drive_run [.page (fun _ => "t3") ⟨[],0,false⟩,.accepted "t3" ⟨firstNote,1,1⟩] .started (by simp) rfl
  exact ⟨_,_,_,run,by decide,rfl⟩

end ZkNote.SyncReports
