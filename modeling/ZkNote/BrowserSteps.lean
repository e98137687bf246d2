import ZkNote.BrowserSync
import ZkNote.DependencyGating

namespace ZkNote.BrowserSteps
open Protocol KeyedTable LocalStorage IndexedDb StateMachine SyncStateMachine StateMachineRuns DependencyGating BrowserSync

variable {World Key Note : Type} {b : Browser World Key Note} {deviceId : Option String} {c d e : SyncCycle World}

-- The loop gets from one state to another by executing some actions.
def Reaches (b : Browser World Key Note) (deviceId : Option String) (c d : SyncCycle World) : Prop :=
  ∃ steps, ∀ fuel, loop b deviceId (fuel+steps) c = loop b deviceId fuel d ∧
    executed b deviceId (fuel+steps) c = executed b deviceId fuel d

theorem reaches_refl (c : SyncCycle World) : Reaches b deviceId c c := ⟨0,fun _ => ⟨rfl,rfl⟩⟩

theorem reaches_trans (one : Reaches b deviceId c d) (two : Reaches b deviceId d e) : Reaches b deviceId c e := by
  obtain ⟨first,one⟩ := one
  obtain ⟨second,two⟩ := two
  refine ⟨second+first,fun fuel => ?_⟩
  rw [← Nat.add_assoc,(one _).1,(one _).2]
  exact two fuel

theorem reaches_step (queued : c.actions = action :: rest)
    (went : perform b deviceId {c with actions := rest,done := c.done ++ [action]} action = .go d) : Reaches b deviceId c d := by
  refine ⟨1,fun fuel => ?_⟩
  rw [loop,executed]
  simp only [queued,went,and_self]

theorem reaches_executed (reaches : Reaches b deviceId c d) : ∃ turns, executed b deviceId turns c = d.done := by
  obtain ⟨steps,same⟩ := reaches
  exact ⟨0+steps,(same 0).2⟩

theorem reaches_end (reaches : Reaches b deviceId c d) (empty : d.actions = []) :
    ∃ fuel, loop b deviceId fuel c = some (d,.ok ()) := by
  obtain ⟨steps,same⟩ := reaches
  refine ⟨1+steps,?_⟩
  rw [(same 1).1,loop]
  simp only [empty]

-- One executed action, seen from the machine: nothing, or an answered request.
structure Driven (c₀ : Nat) (q : List PendingMutation) (options : SyncStateMachineOptions) (c : SyncCycle World) : Prop where
  run : Run Named (new c₀ q options) c.machine (c.done ++ c.actions) (c.actions.filter isRequest)

theorem driven_start (b : Browser World Key Note) (world : World) (db : WebDb) :
    Driven (db.getSyncState b.identity).syncCursor (db.listPendingMutations b.collation) b.options (start b world db) :=
  ⟨.started⟩

variable {c₀ : Nat} {q : List PendingMutation} {options : SyncStateMachineOptions}

theorem driven_answered (driven : Driven c₀ q options c) (queued : c.actions = request :: rest) (open' : isRequest request = true)
    (fits : Named request a) (done : answer c.machine request a = some (.ok (next,actions))) :
    Run Named (new c₀ q options) next (c.done ++ [request] ++ (rest ++ actions)) ((rest ++ actions).filter isRequest) := by
  have run := driven.run
  rw [queued,List.filter_cons_of_pos open'] at run
  have step := @Run.answered _ _ _ _ [] _ _ _ _ _ run fits done
  simpa [List.filter_append,List.append_assoc] using step

theorem drain_done (wanted : SyncAction → Option (String × MutationStatus)) (message : String) (list : List SyncAction)
    (c : SyncCycle World) : ∃ failed d, drain wanted message list c = .thrown failed d ∧ d.done = c.done := by
  induction list generalizing c with
  | nil => exact ⟨message,_,rfl,rfl⟩
  | cons action rest ih =>
      unfold drain
      split
      · exact ih c
      · split
        · exact ⟨_,_,rfl,rfl⟩
        · rename_i storage _
          exact ih {c with storage := storage}

theorem give_up_thrown (wanted : SyncAction → Option (String × MutationStatus)) (message : String) (c : SyncCycle World)
    (result : Except String (SyncStateMachine × List SyncAction)) :
    ∃ failed d, giveUp wanted message c result = .thrown failed d ∧ d.done = c.done := by
  cases result with
  | error failed => exact ⟨failed,c,rfl,rfl⟩
  | ok pair =>
      obtain ⟨machine,next⟩ := pair
      exact drain_done wanted message _ (c.queue machine next)

theorem fail_thrown (message : String) (c : SyncCycle World) (request : PushRequest) :
    ∃ failed d, fail message c request = .thrown failed d ∧ d.done = c.done := by
  unfold fail
  exact give_up_thrown _ _ _ _

theorem retry_later_thrown (message : String) (c : SyncCycle World) (request : PushRequest) :
    ∃ failed d, retryLater message c request = .thrown failed d ∧ d.done = c.done := by
  unfold retryLater
  exact give_up_thrown _ _ _ _

theorem record_for_found (built : recordFor b n m db request response = .ok record) :
    ∃ mutation, m.pendingMutations.find? (fun m => m.mutationId = request.mutationId) = some mutation ∧
      record.objectId = mutation.objectId := by
  unfold recordFor at built
  split at built
  · cases built
  · rename_i mutation found
    refine ⟨mutation,found,?_⟩
    unfold buildConflictRecord at built
    simp only [Except.map] at built
    split at built
    · cases built
    · cases built
      rfl

-- A push either ends the cycle, or its answer is handed to the machine.
theorem settle_cases (b : Browser World Key Note) (c : SyncCycle World) (request : PushRequest) (answered : PushAnswer) :
    (∃ failed d, settle b c request answered = .thrown failed d ∧ d.done = c.done) ∨
    (∃ response machine next, answered = .accepted response ∧ settle b c request answered = .go (c.queue machine next) ∧
      answer c.machine (.sendPush request) (.accepted ((b.draws c.answered).clock 0) response) = some (.ok (machine,next))) ∨
    (∃ response mutation record machine next, answered = .conflict response ∧
      settle b c request answered = .go (c.queue machine next) ∧
      c.machine.pendingMutations.find? (fun m => m.mutationId = request.mutationId) = some mutation ∧
      record.objectId = mutation.objectId ∧
      answer c.machine (.sendPush request) (.conflict ((b.draws c.answered).clock 0) record) = some (.ok (machine,next))) := by
  cases answered with
  | retryable message => exact .inl (retry_later_thrown message c request)
  | fatal message => exact .inl (fail_thrown message c request)
  | accepted response =>
      simp only [settle]
      cases handled : c.machine.handlePushSuccess ((b.draws c.answered).clock 0) request.mutationId response with
      | error message => exact .inl (fail_thrown message c request)
      | ok pair => exact .inr (.inl ⟨response,pair.1,pair.2,rfl,rfl,congrArg some handled⟩)
  | conflict response =>
      simp only [settle]
      cases built : recordFor b c.answered c.machine c.storage request response with
      | error message => exact .inl (retry_later_thrown message c request)
      | ok record =>
          obtain ⟨mutation,found,object⟩ := record_for_found built
          dsimp only
          cases handled : c.machine.handlePushConflict ((b.draws c.answered).clock 0) request.mutationId record with
          | error message => exact .inl ⟨_,_,rfl,rfl⟩
          | ok pair => exact .inr (.inr ⟨response,mutation,record,pair.1,pair.2,rfl,rfl,found,object,congrArg some handled⟩)

-- The request that is open is the one of the mutation at the index.
theorem driven_mutation (unique : (q.map (·.mutationId)).Nodup) (driven : Driven c₀ q options c)
    (queued : c.actions = .sendPush request :: rest)
    (found : c.machine.pendingMutations.find? (fun m => m.mutationId = request.mutationId) = some mutation) :
    mutation.objectId = request.objectId := by
  obtain ⟨queue,waiting⟩ := run_waiting driven.run
  rw [queued,List.filter_cons_of_pos rfl] at waiting
  obtain ⟨_,held,place,_,rfl⟩ := send_phase waiting List.mem_cons_self
  rw [queue] at place found
  have listed := List.find?_some found
  have same : mutation.mutationId = held.mutationId := of_decide_eq_true listed
  have equal := List.inj_on_of_nodup_map unique (List.mem_of_find?_eq_some found) (List.mem_of_getElem? place) same
  rw [equal]
  rfl

theorem perform_quiet (closed : isRequest action = false) (went : perform b deviceId c action = .go d) :
    d.machine = c.machine ∧ d.actions = c.actions ∧ d.done = c.done := by
  have kept : ∀ result : Except String WebDb, c.stored result = .go d → d.machine = c.machine ∧ d.actions = c.actions ∧ d.done = c.done := by
    intro result stored
    cases result with
    | error message => cases stored
    | ok storage => cases stored; exact ⟨rfl,rfl,rfl⟩
  cases action with
  | fetchPull after limit => cases closed
  | sendPush request => cases closed
  | resetInFlightMutations => exact kept _ went
  | markMutationInFlight mutationId retryCount => exact kept _ went
  | resetMutationToPending mutationId => exact kept _ went
  | markMutationFailed mutationId => exact kept _ went
  | storeObject object => cases went; exact ⟨rfl,rfl,rfl⟩
  | advanceCursor cursor => cases went; exact ⟨rfl,rfl,rfl⟩
  | acknowledgeAccepted object mutationId => cases went; exact ⟨rfl,rfl,rfl⟩
  | recordConflict record mutationId => cases went; exact ⟨rfl,rfl,rfl⟩
  | updateSyncState cursor lastSyncAt => cases went; exact ⟨rfl,rfl,rfl⟩

theorem perform_thrown_done (threw : perform b deviceId c action = .thrown message d) : d.done = c.done := by
  have kept : ∀ result : Except String WebDb, c.stored result = .thrown message d → d.done = c.done := by
    intro result stored
    cases result with
    | error failed => cases stored; rfl
    | ok storage => cases stored
  cases action with
  | fetchPull after limit =>
      unfold perform at threw
      dsimp only at threw
      split at threw
      · cases threw; rfl
      · cases threw
  | sendPush request =>
      unfold perform at threw
      dsimp only at threw
      rcases settle_cases b {c with world := (b.server.pushMutation request c.world).2} request
        (b.server.pushMutation request c.world).1 with ⟨failed,e,same,kept⟩ | ⟨_,_,_,_,same,_⟩ | ⟨_,_,_,_,_,_,same,_⟩
      · rw [same] at threw
        cases threw
        exact kept
      · rw [same] at threw
        cases threw
      · rw [same] at threw
        cases threw
  | resetInFlightMutations => exact kept _ threw
  | markMutationInFlight mutationId retryCount => exact kept _ threw
  | resetMutationToPending mutationId => exact kept _ threw
  | markMutationFailed mutationId => exact kept _ threw
  | storeObject object => cases threw
  | advanceCursor cursor => cases threw
  | acknowledgeAccepted object mutationId => cases threw
  | recordConflict record mutationId => cases threw
  | updateSyncState cursor lastSyncAt => cases threw

theorem perform_driven (unique : (q.map (·.mutationId)).Nodup) (driven : Driven c₀ q options c) (queued : c.actions = action :: rest)
    (went : perform b deviceId {c with actions := rest,done := c.done ++ [action]} action = .go d) : Driven c₀ q options d := by
  cases kind : isRequest action with
  | false =>
      obtain ⟨machine,actions,done⟩ := perform_quiet kind went
      have run := driven.run
      rw [queued,List.filter_cons_of_neg (by simp [kind])] at run
      refine ⟨?_⟩
      rw [machine,actions,done]
      simpa using run
  | true =>
      cases action with
      | fetchPull after limit =>
          unfold perform at went
          dsimp only at went
          split at went
          · cases went
          · rename_i response world _
            cases went
            exact ⟨driven_answered driven queued rfl (a := .page (b.draws c.answered).clock response) trivial rfl⟩
      | sendPush request =>
          unfold perform at went
          dsimp only at went
          rcases settle_cases b ⟨c.machine,rest,c.storage,(b.server.pushMutation request c.world).2,c.answered,c.done ++ [.sendPush request]⟩
              request (b.server.pushMutation request c.world).1 with
            ⟨_,_,same,_⟩ | ⟨response,machine,next,_,same,handled⟩ | ⟨response,mutation,record,machine,next,_,same,found,object,handled⟩
          · rw [same] at went
            cases went
          · rw [same] at went
            cases went
            exact ⟨driven_answered driven queued rfl (a := .accepted ((b.draws c.answered).clock 0) response) trivial handled⟩
          · rw [same] at went
            cases went
            have named : record.objectId = request.objectId := object.trans (driven_mutation unique driven queued found)
            exact ⟨driven_answered driven queued rfl (a := .conflict ((b.draws c.answered).clock 0) record) named handled⟩
      | _ => cases kind

-- Every executed action has been emitted by the machine, in the same order.
theorem executed_driven (deviceId : Option String) (unique : (q.map (·.mutationId)).Nodup) (turns : Nat) (driven : Driven c₀ q options c) :
    ∃ m trace out, Run Named (new c₀ q options) m trace out ∧ executed b deviceId turns c <+: trace := by
  induction turns generalizing c with
  | zero => exact ⟨_,_,_,driven.run,List.prefix_append _ _⟩
  | succ turns ih =>
      rw [executed]
      split
      · exact ⟨_,_,_,driven.run,List.prefix_append _ _⟩
      · rename_i action rest queued
        split
        · rename_i next went
          exact ih (perform_driven unique driven queued went)
        · rename_i message next threw
          rw [perform_thrown_done threw]
          refine ⟨_,_,_,driven.run,?_⟩
          rw [queued]
          exact ⟨rest,by simp⟩

-- The actions of a page, executed one after the other.
def storeEffect (identity : String) (db : WebDb) : SyncAction → WebDb
  | .storeObject object => db.putObject object
  | .advanceCursor cursor => db.setSyncCursor cursor identity
  | _ => db

theorem stores_reach (list : List SyncAction) (stores : ∀ x ∈ list, (∃ object, x = .storeObject object) ∨ ∃ cursor, x = .advanceCursor cursor)
    (queued : c.actions = list ++ rest) :
    Reaches b deviceId c
      {c with actions := rest,storage := list.foldl (storeEffect b.identity) c.storage,done := c.done ++ list} := by
  induction list generalizing c with
  | nil =>
      have same : c = {c with actions := rest,done := c.done ++ []} := by
        obtain ⟨machine,actions,storage,world,answered,done⟩ := c
        simpa using queued
      exact same ▸ reaches_refl c
  | cons action list ih =>
      have went : perform b deviceId {c with actions := list ++ rest,done := c.done ++ [action]} action =
          .go {c with
            actions := list ++ rest
            storage := storeEffect b.identity c.storage action
            done := c.done ++ [action]} := by
        rcases stores action List.mem_cons_self with ⟨object,rfl⟩ | ⟨cursor,rfl⟩ <;> rfl
      have first : Reaches b deviceId c _ := reaches_step queued went
      have more := ih (c := {c with
        actions := list ++ rest
        storage := storeEffect b.identity c.storage action
        done := c.done ++ [action]}) (fun x inside => stores x (List.mem_cons_of_mem _ inside)) rfl
      simpa using reaches_trans first more

-- The object an accepted push leaves behind, at the time of its answer.
def ackOf (b : Browser World Key Note) (n : Nat) (m : PendingMutation) (response : PushResponse) : StoredEncryptedObject :=
  ⟨response.objectId,m.objectKind,response.revision,response.serverSeq,decide (m.mutationType = .delete),m.envelope,(b.draws n).clock 0⟩

-- A list of mutations sent one after the other, every one accepted.
inductive Pushes (b : Browser World Key Note) :
    Nat → World → WebDb → List PendingMutation → Nat → World → WebDb → List SyncAction → Prop where
  | none (n : Nat) (w : World) (db : WebDb) : Pushes b n w db [] n w db []
  | one (marked : db.updateMutationStatus m.mutationId .inFlight (some (m.retryCount+1)) = .ok flying)
      (answered : b.server.pushMutation (requestOf m) w = (.accepted response,w₁))
      (more : Pushes b (n+1) w₁ ((flying.putObject (ackOf b n m response)).removeMutation m.mutationId).2 ms n' w' db' done) :
      Pushes b n w db (m :: ms) n' w' db'
        ([.markMutationInFlight m.mutationId (m.retryCount+1),.sendPush (requestOf m),
          .acknowledgeAccepted (ackOf b n m response) m.mutationId] ++ done)

-- The machine in its push phase with these mutations to go, none held back.
structure Left (m : SyncStateMachine) (ms : List PendingMutation) : Prop where
  pushing : m.phase = .pushing
  left : m.pendingMutations.drop m.mutationIndex = ms
  fit : ∀ x ∈ ms, ready x = true
  free : m.conflictedObjects = []
  calm : m.push.transientFailures = 0

theorem left_place {m : SyncStateMachine} (left : Left m (x :: ms)) : m.pendingMutations[m.mutationIndex]? = some x := by
  have first := congrArg List.head? left.left
  rwa [List.head?_drop] at first

theorem step_push_left {m : SyncStateMachine} (left : Left m (x :: ms)) (now : String) :
    m.stepPush now = ({m with push := {m.push with totalAttempted := m.push.totalAttempted+1}},
      [.markMutationInFlight x.mutationId (x.retryCount+1),.sendPush (requestOf x)]) := by
  have eligible : m.eligible x = true := by simp [SyncStateMachine.eligible,left.fit x List.mem_cons_self,left.free]
  have here : (m.pendingMutations.drop m.mutationIndex).findIdx m.eligible = 0 := by
    rw [left.left,List.findIdx_cons,eligible]; rfl
  have place := left_place left
  simp only [stepPush,here,Nat.add_zero,place]

theorem step_push_none {m : SyncStateMachine} (left : Left m []) (now : String) : m.stepPush now = m.finish now := by
  have here : (m.pendingMutations.drop m.mutationIndex).findIdx m.eligible = 0 := by rw [left.left]; rfl
  have place : m.pendingMutations[m.mutationIndex]? = none := by
    have first := congrArg List.head? left.left
    rwa [List.head?_drop] at first
  simp only [stepPush,here,Nat.add_zero,place,left.calm,Nat.lt_irrefl,if_false]

-- The machine once the last acceptance is booked: it fetches what followed.
structure Followed (m m' : SyncStateMachine) : Prop where
  phase : m'.phase = .pullingFollowup
  cursor : m'.currentCursor = m.currentCursor
  limit : m'.pageLimit = m.pageLimit

def bookAccepted (m : SyncStateMachine) (response : PushResponse) : SyncStateMachine :=
  {m with push := {m.push with accepted := m.push.accepted ++ [response]},mutationIndex := m.mutationIndex+1}

theorem left_booked {m : SyncStateMachine} (left : Left m (x :: ms)) (response : PushResponse) : Left (bookAccepted m response) ms := by
  refine ⟨left.pushing,?_,fun y inside => left.fit y (List.mem_cons_of_mem _ inside),left.free,left.calm⟩
  have tail := congrArg List.tail left.left
  rwa [List.tail_drop] at tail

-- One mutation: marked, sent, accepted and acknowledged.
theorem push_one {now : String} (left : Left c.machine (x :: ms))
    (queued : c.actions = [.markMutationInFlight x.mutationId (x.retryCount+1),.sendPush (requestOf x)])
    (marked : c.storage.updateMutationStatus x.mutationId .inFlight (some (x.retryCount+1)) = .ok flying)
    (answered : b.server.pushMutation (requestOf x) c.world = (.accepted response,w₁)) (clock : now = (b.draws c.answered).clock 0) :
    Reaches b deviceId c
      { machine := ((bookAccepted c.machine response).stepPush now).1
        actions := ((bookAccepted c.machine response).stepPush now).2
        storage := ((flying.putObject (ackOf b c.answered x response)).removeMutation x.mutationId).2
        world := w₁
        answered := c.answered+1
        done := c.done ++ [.markMutationInFlight x.mutationId (x.retryCount+1),.sendPush (requestOf x),
          .acknowledgeAccepted (ackOf b c.answered x response) x.mutationId] } := by
  subst clock
  have mark : Reaches b deviceId c
      {c with
        actions := [.sendPush (requestOf x)]
        storage := flying
        done := c.done ++ [.markMutationInFlight x.mutationId (x.retryCount+1)]} := by
    refine reaches_step queued ?_
    simp only [perform,marked,SyncCycle.stored]
  have handled : c.machine.handlePushSuccess ((b.draws c.answered).clock 0) (requestOf x).mutationId response =
      .ok (((bookAccepted c.machine response).stepPush ((b.draws c.answered).clock 0)).1,
        .acknowledgeAccepted (ackOf b c.answered x response) x.mutationId ::
          ((bookAccepted c.machine response).stepPush ((b.draws c.answered).clock 0)).2) := by
    have flight : c.machine.inFlight (requestOf x).mutationId = .ok x := by
      simp [inFlight,left_place left]
    simp only [handlePushSuccess,flight]
    rfl
  have send : Reaches b deviceId
      {c with
        actions := [.sendPush (requestOf x)]
        storage := flying
        done := c.done ++ [.markMutationInFlight x.mutationId (x.retryCount+1)]}
      { machine := ((bookAccepted c.machine response).stepPush ((b.draws c.answered).clock 0)).1
        actions := .acknowledgeAccepted (ackOf b c.answered x response) x.mutationId ::
          ((bookAccepted c.machine response).stepPush ((b.draws c.answered).clock 0)).2
        storage := flying
        world := w₁
        answered := c.answered+1
        done := c.done ++ [.markMutationInFlight x.mutationId (x.retryCount+1)] ++ [.sendPush (requestOf x)] } := by
    refine reaches_step rfl ?_
    simp only [perform,answered,settle,handled]
    rfl
  refine reaches_trans mark (reaches_trans send (reaches_step rfl ?_))
  simp only [perform,List.append_assoc]
  rfl

theorem pushes_reach (deviceId : Option String) (pushes : Pushes b n w db (x :: ms) n' w' db' done) (left : Left c.machine (x :: ms))
    (queued : c.actions = [.markMutationInFlight x.mutationId (x.retryCount+1),.sendPush (requestOf x)])
    (stands : c.answered = n ∧ c.world = w ∧ c.storage = db) :
    ∃ d, Reaches b deviceId c d ∧ Followed c.machine d.machine ∧ d.actions = [d.machine.fetch] ∧
      d.answered = n' ∧ d.world = w' ∧ d.storage = db' ∧ d.done = c.done ++ done := by
  induction ms generalizing c n w db x done with
  | nil =>
      obtain ⟨rfl,rfl,rfl⟩ := stands
      cases pushes with
      | one marked answered more =>
          rename_i response _ _
          cases more with
          | none =>
              have reached : Reaches b deviceId c _ := push_one left queued marked answered rfl
              have booked := left_booked left response
              have finish : (bookAccepted c.machine response).stepPush ((b.draws c.answered).clock 0) =
                  ({bookAccepted c.machine response with phase := .pullingFollowup},[(bookAccepted c.machine response).fetch]) := by
                rw [step_push_none booked]
                simp [SyncStateMachine.finish,bookAccepted]
              refine ⟨_,reached,?_,?_,rfl,rfl,rfl,by simp⟩
              · rw [finish]
                exact ⟨rfl,rfl,rfl⟩
              · rw [finish]
                rfl
  | cons y ms ih =>
      obtain ⟨rfl,rfl,rfl⟩ := stands
      cases pushes with
      | one marked answered more =>
          rename_i w₁ response done flying
          have reached : Reaches b deviceId c _ := push_one left queued marked answered rfl
          have booked := left_booked left response
          have onward := step_push_left booked ((b.draws c.answered).clock 0)
          rw [onward] at reached
          obtain ⟨d,further,followed,fetching,answers,world,storage,trace⟩ := ih
            (c := ⟨{bookAccepted c.machine response with
                push := {(bookAccepted c.machine response).push with totalAttempted := (bookAccepted c.machine response).push.totalAttempted+1}},
              [.markMutationInFlight y.mutationId (y.retryCount+1),.sendPush (requestOf y)],
              ((flying.putObject (ackOf b c.answered x response)).removeMutation x.mutationId).2,w₁,c.answered+1,_⟩)
            more ⟨booked.pushing,booked.left,booked.fit,booked.free,booked.calm⟩ rfl ⟨rfl,rfl,rfl⟩
          refine ⟨d,reaches_trans reached further,⟨followed.phase,followed.cursor,followed.limit⟩,fetching,answers,world,storage,?_⟩
          rw [trace]
          simp

end ZkNote.BrowserSteps
