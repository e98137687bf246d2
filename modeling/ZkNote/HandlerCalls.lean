import ZkNote.StateMachineRuns

namespace ZkNote.HandlerCalls
open Protocol LocalStorage StateMachine SyncStateMachine StateMachineRuns

-- The calls the binding exposes, with any arguments.
inductive Call where
  | start
  | pullResponse (clock : Nat → String) (response : PullChangesResponse)
  | pushSuccess (now mutationId : String) (response : PushResponse)
  | pushConflict (now mutationId : String) (conflictRecord : ConflictRecord)
  | pushTransientError (mutationId : String)
  | pushFatalError (mutationId error : String)

def perform (m : SyncStateMachine) : Call → Except String (SyncStateMachine × List SyncAction)
  | .start => .ok m.start
  | .pullResponse clock response => .ok (m.handlePullResponse clock response)
  | .pushSuccess now mutationId response => m.handlePushSuccess now mutationId response
  | .pushConflict now mutationId conflictRecord => m.handlePushConflict now mutationId conflictRecord
  | .pushTransientError mutationId => m.handlePushTransientError mutationId
  | .pushFatalError mutationId error => m.handlePushFatalError mutationId error

-- Which emitted request a call is the answer to.
def Call.answers : Call → SyncAction → Bool
  | .pullResponse _ _,.fetchPull _ _ => true
  | .pushSuccess _ mutationId _,.sendPush request => request.mutationId = mutationId
  | .pushConflict _ mutationId _,.sendPush request => request.mutationId = mutationId
  | .pushTransientError mutationId,.sendPush request => request.mutationId = mutationId
  | .pushFatalError mutationId _,.sendPush request => request.mutationId = mutationId
  | _,_ => false

-- The machine with the requests it emitted and that no handled call answered.
structure Watched where
  machine : SyncStateMachine
  outstanding : List SyncAction

def Watched.step (x : Watched) (call : Call) : Watched :=
  match perform x.machine call with
  | .error _ => x
  | .ok (next,actions) => ⟨next,x.outstanding.eraseP call.answers ++ actions.filter isRequest⟩

def watched (m : SyncStateMachine) (calls : List Call) : Watched := calls.foldl Watched.step ⟨m,[]⟩

def outcomeOf : SyncAction → Option String
  | .acknowledgeAccepted _ mutationId => some mutationId
  | .recordConflict _ mutationId => some mutationId
  | .markMutationFailed mutationId => some mutationId
  | _ => none

-- At every call of a sequence: outcomes only of outstanding sends, and an error
-- for a handler call that answers nothing outstanding.
structure Robust (m : SyncStateMachine) (calls : List Call) : Prop where
  outcomes : ∀ before call after, calls = before ++ call :: after → ∀ next actions,
    perform (watched m before).machine call = .ok (next,actions) → ∀ action ∈ actions, ∀ mutationId,
      outcomeOf action = some mutationId →
        ∃ request, .sendPush request ∈ (watched m before).outstanding ∧ request.mutationId = mutationId
  refusals : ∀ before call after, calls = before ++ call :: after → call ≠ .start →
    (∀ request ∈ (watched m before).outstanding, call.answers request = false) →
      (∃ e, perform (watched m before).machine call = .error e) ∧ watched m (before ++ [call]) = watched m before

-- An outcome for another mutation than the one at the index, which is all that
-- three of the handlers check.
def Misnamed (m : SyncStateMachine) : Call → Prop
  | .pushSuccess _ mutationId _ | .pushConflict _ mutationId _ | .pushTransientError mutationId =>
    ∀ mutation, m.pendingMutations[m.mutationIndex]? = some mutation → mutation.mutationId ≠ mutationId
  | _ => False

def Proper (x : Watched) (call : Call) : Prop :=
  call = .start ∨ (∃ request ∈ x.outstanding, call.answers request = true) ∨ Misnamed x.machine call

theorem in_flight_error (m : SyncStateMachine) (mutationId : String) :
    (∃ e, m.inFlight mutationId = .error e) ↔
      ∀ mutation, m.pendingMutations[m.mutationIndex]? = some mutation → mutation.mutationId ≠ mutationId := by
  unfold inFlight
  cases found : m.pendingMutations[m.mutationIndex]? with
  | none => simp
  | some mutation =>
      by_cases same : mutation.mutationId = mutationId <;> simp [same]

theorem success_error (m : SyncStateMachine) (now mutationId : String) (response : PushResponse) :
    (∃ e, m.handlePushSuccess now mutationId response = .error e) ↔ ∃ e, m.inFlight mutationId = .error e := by
  cases held : m.inFlight mutationId <;> simp [handlePushSuccess,held,bind,Except.bind,pure,Except.pure]

theorem conflict_error (m : SyncStateMachine) (now mutationId : String) (conflictRecord : ConflictRecord) :
    (∃ e, m.handlePushConflict now mutationId conflictRecord = .error e) ↔ ∃ e, m.inFlight mutationId = .error e := by
  cases held : m.inFlight mutationId <;> simp [handlePushConflict,held,bind,Except.bind,pure,Except.pure]

theorem transient_error (m : SyncStateMachine) (mutationId : String) :
    (∃ e, m.handlePushTransientError mutationId = .error e) ↔ ∃ e, m.inFlight mutationId = .error e := by
  cases held : m.inFlight mutationId <;> simp [handlePushTransientError,held,bind,Except.bind,pure,Except.pure]

-- What the code refuses, exactly.
theorem perform_error (m : SyncStateMachine) (call : Call) : (∃ e, perform m call = .error e) ↔ Misnamed m call := by
  cases call with
  | start => simp [perform,Misnamed]
  | pullResponse clock response => simp [perform,Misnamed]
  | pushSuccess now mutationId response => exact (success_error ..).trans (in_flight_error ..)
  | pushConflict now mutationId conflictRecord => exact (conflict_error ..).trans (in_flight_error ..)
  | pushTransientError mutationId => exact (transient_error ..).trans (in_flight_error ..)
  | pushFatalError mutationId error => simp [perform,Misnamed,handlePushFatalError,pure,Except.pure]

theorem refused_stays (x : Watched) (refused : perform x.machine call = .error e) : x.step call = x := by
  rw [Watched.step,refused]

theorem finish_outcomes (m : SyncStateMachine) (now : String) : ∀ action ∈ (m.finish now).2, outcomeOf action = none := by
  unfold finish
  split <;> simp [outcomeOf,fetch]

theorem step_push_outcomes (m : SyncStateMachine) (now : String) : ∀ action ∈ (m.stepPush now).2, outcomeOf action = none := by
  unfold stepPush
  simp only
  split
  · simp [outcomeOf]
  · split
    · simp
    · exact finish_outcomes _ now

theorem page_outcomes (m : SyncStateMachine) (clock : Nat → String) (response : PullChangesResponse) :
    ∀ action ∈ (m.handlePullResponse clock response).2, outcomeOf action = none := by
  have stores : ∀ action ∈ (storeChanges clock 0 m.currentCursor response.changes).1, outcomeOf action = none := by
    intro action inside
    rcases store_changes_actions _ _ _ _ inside with ⟨_,rfl⟩ | ⟨_,rfl⟩ <;> rfl
  unfold handlePullResponse
  simp only
  split
  · intro action inside
    rcases List.mem_append.mp inside with old | new
    · exact stores action old
    · rw [List.mem_singleton.mp new]
      rfl
  · split
    · intro action inside
      rcases List.mem_append.mp inside with old | new
      · exact stores action old
      · exact step_push_outcomes _ _ action new
    · intro action inside
      rcases List.mem_append.mp inside with old | new
      · exact stores action old
      · rw [List.mem_singleton.mp new]
        rfl

-- An outcome is emitted by the handler that was given it, for the id it was
-- given, so whatever request the call answers is a send of that mutation.
theorem outcome_answers (done : perform m call = .ok (next,actions)) (inside : action ∈ actions)
    (outcome : outcomeOf action = some mutationId) (answers : call.answers request = true) :
    ∃ sent, request = .sendPush sent ∧ sent.mutationId = mutationId := by
  cases call with
  | start =>
      cases done
      simp only [List.mem_cons,List.not_mem_nil,or_false] at inside
      rcases inside with rfl | rfl <;> cases outcome
  | pullResponse clock response =>
      have quiet := page_outcomes m clock response
      rw [show m.handlePullResponse clock response = (next,actions) from Except.ok.inj done] at quiet
      rw [quiet action inside] at outcome
      cases outcome
  | pushSuccess now given response =>
      simp only [perform,handlePushSuccess] at done
      cases held : m.inFlight given with
      | error e => rw [held] at done; cases done
      | ok mutation =>
          rw [held] at done
          cases done
          rcases List.mem_cons.mp inside with rfl | inside
          · cases outcome
            cases request <;> simp_all [Call.answers]
          · rw [step_push_outcomes _ _ action inside] at outcome
            cases outcome
  | pushConflict now given conflictRecord =>
      simp only [perform,handlePushConflict] at done
      cases held : m.inFlight given with
      | error e => rw [held] at done; cases done
      | ok mutation =>
          rw [held] at done
          cases done
          rcases List.mem_cons.mp inside with rfl | inside
          · cases outcome
            cases request <;> simp_all [Call.answers]
          · rcases List.mem_cons.mp inside with rfl | inside
            · cases outcome
            · have quiet : outcomeOf action = none := by
                split at inside
                · exact finish_outcomes _ _ action inside
                · exact step_push_outcomes _ _ action inside
              rw [quiet] at outcome
              cases outcome
  | pushTransientError given =>
      simp only [perform,handlePushTransientError] at done
      cases held : m.inFlight given with
      | error e => rw [held] at done; cases done
      | ok mutation =>
          rw [held] at done
          cases done
          rw [List.mem_singleton.mp inside] at outcome
          cases outcome
  | pushFatalError given error =>
      cases done
      rw [List.mem_singleton.mp inside] at outcome
      cases outcome
      cases request <;> simp_all [Call.answers]

theorem no_outcome_of_start (done : perform m .start = .ok (next,actions)) (inside : action ∈ actions) :
    outcomeOf action = none := by
  cases done
  simp only [List.mem_cons,List.not_mem_nil,or_false] at inside
  rcases inside with rfl | rfl <;> rfl

-- A sequence of calls is handled as promised exactly when each of its calls is a
-- start, answers something outstanding, or names another mutation than the one
-- at the index.
theorem robust_iff (c : Nat) (q : List PendingMutation) (options : SyncStateMachineOptions) (calls : List Call) :
    Robust (new c q options) calls ↔
      ∀ before call after, calls = before ++ call :: after → Proper (watched (new c q options) before) call := by
  constructor
  · intro robust before call after same
    by_cases begins : call = .start
    · exact .inl begins
    · by_cases answered : ∃ request ∈ (watched (new c q options) before).outstanding, call.answers request = true
      · exact .inr (.inl answered)
      · refine .inr (.inr ((perform_error _ _).mp (robust.refusals before call after same begins ?_).1))
        intro request inside
        by_contra fits
        exact answered ⟨request,inside,by simpa using fits⟩
  · intro proper
    refine ⟨?_,?_⟩
    · intro before call after same next actions done action inside mutationId outcome
      rcases proper before call after same with rfl | ⟨request,member,answers⟩ | misnamed
      · rw [no_outcome_of_start done inside] at outcome
        cases outcome
      · obtain ⟨sent,rfl,named⟩ := outcome_answers done inside outcome answers
        exact ⟨sent,member,named⟩
      · obtain ⟨e,refused⟩ := (perform_error _ _).mpr misnamed
        rw [refused] at done
        cases done
    · intro before call after same handler unanswered
      rcases proper before call after same with begins | ⟨request,member,answers⟩ | misnamed
      · exact absurd begins handler
      · rw [unanswered request member] at answers
        cases answers
      · obtain ⟨e,refused⟩ := (perform_error _ _).mpr misnamed
        refine ⟨⟨e,refused⟩,?_⟩
        rw [watched,List.foldl_append,← watched]
        exact refused_stays _ refused

-- A handled answer is the answer a driver would have brought.
theorem answers_answer (answers : call.answers request = true) (done : perform m call = .ok (next,actions)) :
    ∃ a, answer m request a = some (.ok (next,actions)) := by
  cases call with
  | start => cases answers
  | pullResponse clock response =>
      cases request with
      | fetchPull after limit => exact ⟨.page clock response,congrArg some done⟩
      | _ => cases answers
  | pushSuccess now mutationId response =>
      cases request with
      | sendPush sent =>
          obtain rfl : sent.mutationId = mutationId := by simpa [Call.answers] using answers
          exact ⟨.accepted now response,congrArg some done⟩
      | _ => cases answers
  | pushConflict now mutationId conflictRecord =>
      cases request with
      | sendPush sent =>
          obtain rfl : sent.mutationId = mutationId := by simpa [Call.answers] using answers
          exact ⟨.conflict now conflictRecord,congrArg some done⟩
      | _ => cases answers
  | pushTransientError mutationId =>
      cases request with
      | sendPush sent =>
          obtain rfl : sent.mutationId = mutationId := by simpa [Call.answers] using answers
          exact ⟨.transient,congrArg some done⟩
      | _ => cases answers
  | pushFatalError mutationId error =>
      cases request with
      | sendPush sent =>
          obtain rfl : sent.mutationId = mutationId := by simpa [Call.answers] using answers
          exact ⟨.fatal error,congrArg some done⟩
      | _ => cases answers

-- A proper call continues a disciplined run or changes nothing.
theorem proper_step {x : Watched} (run : Run (fun _ _ => True) (new c q options) x.machine trace x.outstanding)
    (handler : call ≠ .start) (fits : Proper x call) :
    ∃ longer, Run (fun _ _ => True) (new c q options) (x.step call).machine longer (x.step call).outstanding := by
  cases done : perform x.machine call with
  | error e => exact ⟨trace,by rw [refused_stays x done]; exact run⟩
  | ok result =>
      obtain ⟨next,actions⟩ := result
      rcases fits with begins | ⟨request,member,answers⟩ | misnamed
      · exact absurd begins handler
      · obtain ⟨a,answered⟩ := answers_answer answers done
        have only := (open_phase (run_waiting run).2 member).1
        have waited : Run (fun _ _ => True) (new c q options) x.machine trace ([] ++ request :: []) := by
          rw [only] at run
          exact run
        refine ⟨trace ++ actions,?_⟩
        simp only [Watched.step,done,only,List.eraseP_cons_of_pos answers]
        exact .answered waited trivial answered
      · obtain ⟨e,refused⟩ := (perform_error _ _).mpr misnamed
        rw [refused] at done
        cases done

theorem proper_run {x : Watched} (run : Run (fun _ _ => True) (new c q options) x.machine trace x.outstanding)
    (once : .start ∉ calls)
    (proper : ∀ before call after, calls = before ++ call :: after → Proper (before.foldl Watched.step x) call) :
    ∃ longer, Run (fun _ _ => True) (new c q options) (calls.foldl Watched.step x).machine longer
      (calls.foldl Watched.step x).outstanding := by
  induction calls generalizing x trace with
  | nil => exact ⟨trace,run⟩
  | cons call rest ih =>
      have handler : call ≠ .start := fun same => once (same ▸ List.mem_cons_self)
      obtain ⟨longer,next⟩ := proper_step run handler (proper [] call rest rfl)
      refine ih next (fun inside => once (List.mem_cons_of_mem _ inside)) ?_
      intro before later after same
      exact proper (call :: before) later after (by rw [same]; rfl)

-- While it pushes, a machine that was driven so far as promised cannot be misled
-- by an outcome it checks: what it would take is outstanding.
theorem pushing_checks (run : Run (fun _ _ => True) (new c q options) m trace out) (pushing : m.phase = .pushing)
    (call : Call) (checked : (∃ now mutationId response, call = .pushSuccess now mutationId response) ∨
      (∃ now mutationId conflictRecord, call = .pushConflict now mutationId conflictRecord) ∨
      ∃ mutationId, call = .pushTransientError mutationId) : Proper ⟨m,out⟩ call := by
  obtain ⟨_,waiting⟩ := run_waiting run
  simp only [Waiting,pushing] at waiting
  obtain ⟨mutation,found,_,only⟩ := waiting
  have named : ∀ mutationId, mutation.mutationId = mutationId ∨
      ∀ other, m.pendingMutations[m.mutationIndex]? = some other → other.mutationId ≠ mutationId := by
    intro mutationId
    by_cases same : mutation.mutationId = mutationId
    · exact .inl same
    · right
      intro other present
      rw [found] at present
      cases present
      exact same
  rcases checked with ⟨now,mutationId,response,rfl⟩ | ⟨now,mutationId,conflictRecord,rfl⟩ | ⟨mutationId,rfl⟩
  all_goals
    rcases named mutationId with same | other
    · exact .inr (.inl ⟨.sendPush (requestOf mutation),by simp [only],by simp [Call.answers,same]⟩)
    · exact .inr (.inr other)

def oneNote : List PendingMutation := [queued "m1" "a" 0 .pending "text" "2026-01-01T00:00:00Z"]

-- An outcome before `start` is acknowledged although nothing was sent.
theorem early_success_acknowledged :
    ¬Robust (new 0 oneNote .default) [.pushSuccess "2026-01-01T00:00:01Z" "m1" ⟨"a",1,1⟩] := by
  intro robust
  have refused := (robust.refusals [] _ [] rfl (by simp) (by simp [watched])).1
  exact (perform_error _ _).mp refused _ rfl rfl

end ZkNote.HandlerCalls
