import ZkNote.SyncLink

namespace ZkNote.LinkSteps
open Protocol Adapter KeyedTable ServerStore ServerHistory ServerRoutes SyncLink

variable {crates : Crates} {account : String} {log : List Acceptance} {request : PushRequest} {l : Link}

-- A request as the client builds it: it passes the handler, and its ids are
-- spelled the way the tables spell them.
structure Proper (crates : Crates) (request : PushRequest) : Prop where
  admitted : Admitted crates request
  parsed : Parsed crates request request.objectId request.mutationId

def entryOf (log : List Acceptance) (account : String) (request : PushRequest) : Acceptance :=
  nextAcceptance log account request.objectId request.mutationId request

theorem head_accepted (log : List Acceptance) (account : String) (request : PushRequest) :
    headRevision (log ++ [entryOf log account request]) account =
      Function.update (headRevision log account) request.objectId (headRevision log account request.objectId+1) := by
  funext o
  simp only [headRevision,ofObject_append,List.length_append,Function.update_apply]
  by_cases same : o = request.objectId
  · simp [entryOf,nextAcceptance,same]
  · have other : ¬request.objectId = o := fun equal => same equal.symm
    simp [entryOf,nextAcceptance,same,other]

theorem logged_after (other : request.mutationId ≠ mutationId) :
    ofMutation (log ++ [entryOf log account request]) account mutationId = ofMutation log account mutationId := by
  rw [ofMutation_append]
  simp [entryOf,nextAcceptance,other]

-- Every answer of the handler to a proper request, and what it adds to the log.
inductive Handled (account : String) (log : List Acceptance) (request : PushRequest) :
    Except SyncNetworkError PushResponse → List Acceptance → Prop where
  | accepted (fresh : ofMutation log account request.mutationId = none)
      (current : request.expectedRevision = headRevision log account request.objectId) :
      Handled account log request (.ok (responseOf (entryOf log account request))) [entryOf log account request]
  | replayed (old : ofMutation log account request.mutationId = some e) (object : e.objectId = request.objectId) :
      Handled account log request (.ok (responseOf e)) []
  | mismatched (old : ofMutation log account request.mutationId = some e) (differs : e.request ≠ request) (message : String) :
      Handled account log request (.error (.replayMismatch message)) []
  | conflicting (fresh : ofMutation log account request.mutationId = none)
      (last : (ofObject log account request.objectId).getLast? = some e) (stale : request.expectedRevision ≠ e.revision) :
      Handled account log request (.error (.conflict (conflictWith (headOf e) request))) []
  | missing (fresh : ofMutation log account request.mutationId = none)
      (absent : headRevision log account request.objectId = 0) (stale : request.expectedRevision ≠ 0) (message : String) :
      Handled account log request (.error (.notFound message)) []

theorem replay_cases (row : ProcessedMutationRow) (o : String) (digest : List UInt8) (request : PushRequest) :
    (∃ response, replayOutcome row o digest request = .success response) ∨
      ∃ message, replayOutcome row o digest request = .replayMismatch message := by
  unfold replayOutcome
  split
  · exact .inr ⟨_,rfl⟩
  · split
    · exact .inl ⟨_,rfl⟩
    · split
      · exact .inr ⟨_,rfl⟩
      · exact .inl ⟨_,rfl⟩

theorem handler_answers (rep : Represents crates log db) (proper : Proper crates request) (account : String) :
    ∃ added, Handled account log request (handleResponse (pushMutationHandler crates db account request).1) added ∧
      Represents crates (log ++ added) (pushMutationHandler crates db account request).2 := by
  have passes := admitted_passes proper.admitted
  have ends := push_ends rep account request
  have after := push_represents rep account request
  simp only [pushMutationHandler,passes]
  refine ⟨(acceptance crates db account request).toList,?_,after⟩
  generalize acceptance crates db account request = added at ends
  generalize pushMutation crates db account request = result at ends
  have own : ∀ {o m}, Parsed crates request o m → request.objectId = o ∧ request.mutationId = m := by
    intro o m parsed
    exact ⟨Except.ok.inj (proper.parsed.object.symm.trans parsed.object),
      Except.ok.inj (proper.parsed.mutation.symm.trans parsed.mutation)⟩
  cases ends with
  | malformed bad e => exact absurd proper.parsed (bad _ _)
  | replayed parsed old =>
      obtain ⟨rfl,rfl⟩ := own parsed
      rename_i e
      rcases replay_cases (processedOf crates e) request.objectId (computeMutationRequestHash crates request) request with
        ⟨response,outcome⟩ | ⟨message,outcome⟩
      · obtain ⟨object,_,rfl⟩ := replay_success outcome
        rw [outcome]
        exact .replayed old object
      · have differs : e.request ≠ request := by
          intro same
          have entry := rep.parsed e (ofMutation_mem old).1
          rw [same] at entry
          rw [(own entry).1,← same,replay_same] at outcome
          cases outcome
        rw [outcome]
        exact .mismatched old differs message
  | conflicting parsed fresh last stale =>
      obtain ⟨rfl,rfl⟩ := own parsed
      exact .conflicting fresh last stale
  | missing parsed fresh absent stale message =>
      obtain ⟨rfl,rfl⟩ := own parsed
      exact .missing fresh absent stale message
  | accepted parsed fresh current =>
      obtain ⟨rfl,rfl⟩ := own parsed
      exact .accepted fresh current

-- One push over the link, as the client sees it: the request or the answer may
-- be lost on the way.
inductive Served (account : String) (log : List Acceptance) (request : PushRequest) :
    Except SyncNetworkError PushResponse → List Acceptance → Prop where
  | unsent (outage : Outage) : Served account log request (.error outage.error) []
  | unheard (outage : Outage) (handled : Handled account log request answer added) :
      Served account log request (.error outage.error) added
  | answered (handled : Handled account log request answer added) : Served account log request answer added

-- The log when a request arrives, after the pushes of others.
def arrivals (crates : Crates) (log : List Acceptance) (l : Link) : List Acceptance :=
  log ++ acceptedBy crates l.db l.slot.others

theorem arrived_represents (rep : Represents crates log l.db) : Represents crates (arrivals crates log l) (l.arrived crates) :=
  pushAll_represents rep _

theorem push_served (rep : Represents crates log l.db) (proper : Proper crates request) (account : String) :
    ∃ added handled, Served account (arrivals crates log l) request (serverPush crates account request l).1 added ∧
      Represents crates (arrivals crates log l ++ added) (serverPush crates account request l).2.db ∧
      (l.slot.fault = none → Handled account (arrivals crates log l) request (serverPush crates account request l).1 added) ∧
      (serverPush crates account request l).2 = ⟨(serverPush crates account request l).2.db,l.schedule.tail,l.pulls,
        l.pushes ++ [⟨request,l.arrived crates,handled,(serverPush crates account request l).1⟩]⟩ := by
  have arrived := arrived_represents rep
  obtain ⟨added,answers,after⟩ := handler_answers arrived proper account
  cases fault : l.slot.fault with
  | none =>
      refine ⟨added,true,?_⟩
      simp only [serverPush,fault]
      exact ⟨.answered answers,after,fun _ => answers,trivial⟩
  | some broken =>
      cases broken with
      | requestLost outage =>
          refine ⟨[],false,?_⟩
          simp only [serverPush,fault]
          exact ⟨.unsent outage,by simpa using arrived,by simp,trivial⟩
      | responseLost outage =>
          refine ⟨added,true,?_⟩
          simp only [serverPush,fault]
          exact ⟨.unheard outage answers,after,by simp,trivial⟩

theorem outage_transient (outage : Outage) : outage.error.isTransient = true := by
  cases outage <;> rfl

end ZkNote.LinkSteps
