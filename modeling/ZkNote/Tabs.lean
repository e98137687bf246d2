import ZkNote.BrowserSync
import ZkNote.Runs

namespace ZkNote.Tabs
open Protocol KeyedTable LocalStorage IndexedDb StateMachine SyncStateMachine BrowserSync Conflict Runs

variable {ι World Key Note : Type}

-- The transactions the storage calls are made of. Between two of them another
-- tab may run its own on the same database.
inductive Txn where
  | readMutation (mutationId : String) (status : MutationStatus) (retryCount : Option UInt32)
  | writeMutation (mutation : PendingMutation)
  | checkMutation (mutationId : String)
  | deleteMutation (mutationId : String)
  | readMutations
  | readState (cursor : Nat)
  | writeState (state : SyncState)
  | writeObject (object : StoredEncryptedObject)
  | writeConflict (record : ConflictRecord)
  deriving DecidableEq, Repr

-- One transaction, and the ones its call goes on with.
def Txn.run (identity : String) (db : WebDb) : Txn → Except String (WebDb × List Txn)
  | .readMutation mutationId status retryCount =>
    match db.getMutation mutationId with
    | none => .error s!"Mutation {mutationId} not found"
    | some mutation => .ok (db,[.writeMutation (WebDb.restatus mutation status retryCount)])
  | .writeMutation mutation => .ok (db.enqueueMutation mutation,[])
  | .checkMutation mutationId => .ok (db,if (db.getMutation mutationId).isSome then [.deleteMutation mutationId] else [])
  | .deleteMutation mutationId => .ok ({db with mutations := db.mutations.delete (fun m => m.mutationId = mutationId)},[])
  | .readMutations => .ok (db,(db.allMutations.filter (fun m => m.status = .inFlight)).map
      (fun m => .readMutation m.mutationId .pending (some m.retryCount)))
  | .readState cursor => .ok (db,[.writeState {db.getSyncState identity with syncCursor := cursor}])
  | .writeState state => .ok (db.setSyncState state identity,[])
  | .writeObject object => .ok (db.putObject object,[])
  | .writeConflict record => .ok (db.putConflict record,[])

-- The first transactions of the calls an action makes; requests go to the server.
def calls (deviceId : Option String) : SyncAction → List Txn
  | .resetInFlightMutations => [.readMutations]
  | .storeObject object => [.writeObject object]
  | .advanceCursor cursor => [.readState cursor]
  | .markMutationInFlight mutationId retryCount => [.readMutation mutationId .inFlight (some retryCount)]
  | .acknowledgeAccepted object mutationId => [.writeObject object,.checkMutation mutationId]
  | .recordConflict record _ => [.writeConflict record]
  | .resetMutationToPending mutationId => [.readMutation mutationId .pending none]
  | .markMutationFailed mutationId => [.readMutation mutationId .failed none]
  | .updateSyncState cursor lastSyncAt => [.writeState ⟨cursor,some lastSyncAt,deviceId⟩]
  | .fetchPull _ _ | .sendPush _ => []

-- A cycle between two of its transactions. `seen` is the cursor the cycle read
-- at its start or wrote last itself; nothing the cycle does depends on it.
structure Running where
  machine : SyncStateMachine
  actions : List SyncAction
  todo : List Txn
  deviceId : Option String
  answered : Nat
  seen : Nat
  deriving DecidableEq, Repr

inductive Tab where
  | idle (answered : Nat)
  | listing (state : SyncState) (answered : Nat)
  | running (r : Running)
  | conflicted (r : Running) (request : PushRequest) (response : ConflictResponse)
  deriving DecidableEq, Repr

structure Shared (ι World : Type) where
  db : WebDb
  world : World
  tabs : ι → Tab

def opened (world : World) (db : WebDb) : Shared ι World := ⟨db,world,fun _ => .idle 0⟩

def Running.goOn (r : Running) : SyncStateMachine × List SyncAction → Tab
  | (machine,next) => .running {r with machine := machine,actions := r.actions ++ next,answered := r.answered+1}

-- After an error the queued actions are dropped but for the wanted status writes.
def Running.abandon (r : Running) (wanted : SyncAction → Option (String × MutationStatus)) :
    Except String (SyncStateMachine × List SyncAction) → Tab
  | .error _ => .idle r.answered
  | .ok (machine,next) => .running {r with
      machine := machine
      actions := []
      todo := ((r.actions ++ next).filterMap wanted).map (fun (mutationId,status) => .readMutation mutationId status none)
      answered := r.answered+1}

def Running.fail (r : Running) (request : PushRequest) (message : String) : Tab :=
  r.abandon failing (r.machine.handlePushFatalError request.mutationId message)

def Running.retryLater (r : Running) (request : PushRequest) : Tab :=
  r.abandon resetting (r.machine.handlePushTransientError request.mutationId)

def Running.settle (r : Running) (draw : Draw) (request : PushRequest) : PushAnswer → Tab
  | .accepted response =>
    match r.machine.handlePushSuccess (draw.clock 0) request.mutationId response with
    | .error message => r.fail request message
    | .ok next => r.goOn next
  | .conflict response => .conflicted r request response
  | .retryable _ => r.retryLater request
  | .fatal message => r.fail request message

-- The catch block reads the base version before it builds the record.
def Running.resolve (r : Running) (b : Browser World Key Note) (db : WebDb) (request : PushRequest) (response : ConflictResponse) : Tab :=
  match recordFor b r.answered r.machine db request response with
  | .error _ => r.retryLater request
  | .ok record =>
    match r.machine.handlePushConflict ((b.draws r.answered).clock 0) request.mutationId record with
    | .error _ => .idle r.answered
    | .ok next => r.goOn next

-- The next action of the loop, once the calls of the one before are through.
def Running.take (r : Running) (b : Browser World Key Note) (world : World) : SyncAction → Tab × World
  | .fetchPull after limit =>
    match b.server.fetchPullChanges after (max 1 (min 500 limit)) world with
    | (.error _,world) => (.idle r.answered,world)
    | (.ok response,world) => (r.goOn (r.machine.handlePullResponse (b.draws r.answered).clock response),world)
  | .sendPush request =>
    let (answer,world) := b.server.pushMutation request world
    (r.settle (b.draws r.answered) request answer,world)
  | action => (.running {r with todo := calls r.deviceId action},world)

def Running.saw (r : Running) : Txn → Nat
  | .writeState state => state.syncCursor
  | _ => r.seen

-- What a tab does next: one transaction, one request, or a step of its own.
def Tab.next (b : Browser World Key Note) (db : WebDb) (world : World) : Tab → Tab × WebDb × World
  | .idle answered => (.listing (db.getSyncState b.identity) answered,db,world)
  | .listing state answered =>
    let machine := new state.syncCursor (db.listPendingMutations b.collation) b.options
    (.running ⟨machine.start.1,machine.start.2,[],state.deviceId,answered,state.syncCursor⟩,db,world)
  | .conflicted r request response => (r.resolve b db request response,db,world)
  | .running r =>
    match r.todo with
    | txn :: todo =>
      match txn.run b.identity db with
      | .error _ => (.idle r.answered,db,world)
      | .ok (db,more) => (.running {r with todo := more ++ todo,seen := r.saw txn},db,world)
    | [] =>
      match r.actions with
      | [] => (.idle r.answered,db,world)
      | action :: rest =>
        let (tab,world) := {r with actions := rest}.take b world action
        (tab,db,world)

variable [DecidableEq ι]

-- A run is a schedule: whose turn it is, again and again.
def turn (b : ι → Browser World Key Note) (i : ι) (s : Shared ι World) : Option (Shared ι World) :=
  let (tab,db,world) := (s.tabs i).next (b i) s.db s.world
  some ⟨db,world,Function.update s.tabs i tab⟩

-- A status is written back to a record that is still queued, and a cursor only
-- while the stored one is not past what the tab has seen.
def Tab.undisturbed (identity : String) (db : WebDb) : Tab → Bool
  | .running ⟨_,_,.writeMutation mutation :: _,_,_,_⟩ => (db.getMutation mutation.mutationId).isSome
  | .running ⟨_,_,.writeState _ :: _,_,_,seen⟩ => decide ((db.getSyncState identity).syncCursor ≤ seen)
  | _ => true

def Undisturbed (b : ι → Browser World Key Note) (i : ι) (s : Shared ι World) : Prop :=
  (s.tabs i).undisturbed (b i).identity s.db = true

instance (b : ι → Browser World Key Note) (i : ι) (s : Shared ι World) : Decidable (Undisturbed b i s) :=
  inferInstanceAs (Decidable (_ = true))

-- The cursors a cycle is going to write, in order.
def Txn.plan : Txn → List Nat
  | .readState cursor => [cursor]
  | .writeState state => [state.syncCursor]
  | _ => []

def planned : SyncAction → List Nat
  | .advanceCursor cursor => [cursor]
  | .updateSyncState cursor _ => [cursor]
  | _ => []

def Running.Ahead (r : Running) : Prop :=
  (r.seen :: (r.todo.flatMap Txn.plan ++ r.actions.flatMap planned ++ [r.machine.currentCursor])).Pairwise (· ≤ ·)

def Tab.Ahead : Tab → Prop
  | .idle _ | .listing _ _ => True
  | .running r | .conflicted r _ _ => r.Ahead

-- A machine answered: what it plans starts at a cursor and ends at its own.
def Onward (cursor : Nat) (result : SyncStateMachine × List SyncAction) : Prop :=
  (cursor :: (result.2.flatMap planned ++ [result.1.currentCursor])).Pairwise (· ≤ ·)

variable {m : SyncStateMachine} {r : Running} {b : Browser World Key Note}

theorem finish_onward (here : m.currentCursor = cursor) (now : String) : Onward cursor (m.finish now) := by
  unfold finish
  split <;> simp [Onward,planned,fetch,here]

theorem step_push_onward (here : m.currentCursor = cursor) (now : String) : Onward cursor (m.stepPush now) := by
  unfold stepPush
  dsimp only
  split
  · simp [Onward,planned,here]
  · split
    · simp [Onward,here]
    · apply finish_onward
      exact here

theorem pairwise_join {xs ys : List Nat} (one : (xs ++ [c]).Pairwise (· ≤ ·)) (two : (c :: ys).Pairwise (· ≤ ·)) :
    (xs ++ ys).Pairwise (· ≤ ·) := by
  obtain ⟨left,_,low⟩ := List.pairwise_append.mp one
  obtain ⟨high,right⟩ := List.pairwise_cons.mp two
  refine List.pairwise_append.mpr ⟨left,right,?_⟩
  intro x first y second
  exact Nat.le_trans (low x first c (by simp)) (high y second)

theorem store_changes_onward (clock : Nat → String) (i cursor : Nat) (changes : List ObjectChange) :
    (cursor :: ((storeChanges clock i cursor changes).1.flatMap planned ++ [(storeChanges clock i cursor changes).2.1])).Pairwise (· ≤ ·) := by
  induction changes generalizing i cursor with
  | nil => simp [storeChanges]
  | cons change rest ih =>
      unfold storeChanges
      split
      · exact ih (i+1) cursor
      · rename_i fresh
        have up : cursor ≤ change.serverSeq := by omega
        have later := ih (i+1) change.serverSeq
        simp only [List.flatMap_cons,planned,List.nil_append,List.cons_append]
        refine List.pairwise_cons.mpr ⟨?_,later⟩
        intro x inside
        rcases List.mem_cons.mp inside with rfl | inside
        · exact up
        · exact Nat.le_trans up ((List.pairwise_cons.mp later).1 x inside)

theorem onward_after {actions : List SyncAction} (first : (cursor :: (actions.flatMap planned ++ [middle])).Pairwise (· ≤ ·))
    (second : Onward middle (m,next)) : Onward cursor (m,actions ++ next) := by
  unfold Onward
  rw [List.flatMap_append,List.append_assoc,← List.cons_append]
  exact pairwise_join first second

theorem onward_quiet (quiet : planned action = []) (onward : Onward cursor (m,next)) : Onward cursor (m,action :: next) := by
  simpa [Onward,quiet] using onward

theorem pull_response_onward (m : SyncStateMachine) (clock : Nat → String) (response : PullChangesResponse) :
    Onward m.currentCursor (m.handlePullResponse clock response) := by
  have stored := store_changes_onward clock 0 m.currentCursor response.changes
  generalize page : storeChanges clock 0 m.currentCursor response.changes = result at stored
  obtain ⟨actions,cursor,applied⟩ := result
  unfold handlePullResponse
  simp only [page]
  by_cases first : m.phase = .pullingInitial
  · simp only [first,if_true]
    split
    · exact onward_after stored (by simp [Onward,planned,fetch])
    · refine onward_after stored ?_
      apply step_push_onward
      rfl
  · simp only [first,if_false]
    split
    · exact onward_after stored (by simp [Onward,planned,fetch])
    · exact onward_after stored (by simp [Onward,planned])

theorem push_success_onward (done : m.handlePushSuccess now mutationId response = .ok result) : Onward m.currentCursor result := by
  unfold handlePushSuccess at done
  cases held : m.inFlight mutationId with
  | error message => rw [held] at done; cases done
  | ok mutation =>
      rw [held] at done
      cases done
      refine onward_quiet rfl ?_
      apply step_push_onward
      rfl

theorem push_conflict_onward (done : m.handlePushConflict now mutationId record = .ok result) : Onward m.currentCursor result := by
  unfold handlePushConflict at done
  cases held : m.inFlight mutationId with
  | error message => rw [held] at done; cases done
  | ok mutation =>
      cases stop : m.stopOnConflict with
      | true =>
          simp only [held,stop,bind,Except.bind] at done
          cases done
          refine onward_quiet rfl (onward_quiet rfl ?_)
          apply finish_onward
          rfl
      | false =>
          simp only [held,stop,bind,Except.bind] at done
          cases done
          refine onward_quiet rfl (onward_quiet rfl ?_)
          apply step_push_onward
          rfl

theorem go_on_ahead (ahead : r.Ahead) (onward : Onward r.machine.currentCursor result) : (r.goOn result).Ahead := by
  obtain ⟨machine,next⟩ := result
  unfold Running.goOn Tab.Ahead Running.Ahead
  dsimp only
  rw [List.flatMap_append,← List.append_assoc,List.append_assoc,← List.cons_append]
  exact pairwise_join (by simpa [Running.Ahead] using ahead) onward

-- Writing a status back plans no cursor.
theorem abandon_ahead (ahead : r.Ahead) (wanted : SyncAction → Option (String × MutationStatus))
    (same : ∀ machine next, result = .ok (machine,next) → machine.currentCursor = r.machine.currentCursor) : (r.abandon wanted result).Ahead := by
  cases result with
  | error message => trivial
  | ok pair =>
      obtain ⟨machine,next⟩ := pair
      have quiet : ∀ list : List (String × MutationStatus),
          (list.map (fun (mutationId,status) => Txn.readMutation mutationId status none)).flatMap Txn.plan = [] := by
        intro list
        induction list with
        | nil => rfl
        | cons pair list ih => exact ih
      have low := (List.pairwise_cons.mp ahead).1 r.machine.currentCursor (by simp)
      unfold Running.abandon Tab.Ahead Running.Ahead
      dsimp only
      rw [quiet,same machine next rfl]
      simpa using low

theorem fail_ahead (ahead : r.Ahead) (request : PushRequest) (message : String) : (r.fail request message).Ahead := by
  refine abandon_ahead ahead _ ?_
  intro machine next done
  cases done
  rfl

theorem retry_later_ahead (ahead : r.Ahead) (request : PushRequest) : (r.retryLater request).Ahead := by
  refine abandon_ahead ahead _ ?_
  intro machine next done
  unfold handlePushTransientError at done
  cases held : r.machine.inFlight request.mutationId with
  | error message => rw [held] at done; cases done
  | ok mutation =>
      rw [held] at done
      cases done
      rfl

theorem settle_ahead (ahead : r.Ahead) (draw : Draw) (request : PushRequest) (answer : PushAnswer) : (r.settle draw request answer).Ahead := by
  cases answer with
  | accepted response =>
      unfold Running.settle
      dsimp only
      split
      · exact fail_ahead ahead request _
      · rename_i done
        exact go_on_ahead ahead (push_success_onward done)
  | conflict response => exact ahead
  | retryable message => exact retry_later_ahead ahead request
  | fatal message => exact fail_ahead ahead request message

theorem resolve_ahead (ahead : r.Ahead) (b : Browser World Key Note) (db : WebDb) (request : PushRequest) (response : ConflictResponse) :
    (r.resolve b db request response).Ahead := by
  unfold Running.resolve
  split
  · exact retry_later_ahead ahead request
  · split
    · trivial
    · rename_i done
      exact go_on_ahead ahead (push_conflict_onward done)

theorem calls_plan (deviceId : Option String) (action : SyncAction) : (calls deviceId action).flatMap Txn.plan = planned action := by
  cases action <;> rfl

theorem take_ahead (ahead : Running.Ahead {r with actions := action :: rest,todo := []}) (b : Browser World Key Note) (world : World) :
    (Running.take {r with actions := rest,todo := []} b world action).1.Ahead := by
  have kept : planned action = [] → Running.Ahead {r with actions := rest,todo := []} := by
    intro quiet
    simpa [Running.Ahead,quiet] using ahead
  have called : Running.Ahead {r with actions := rest,todo := calls r.deviceId action} := by
    simpa [Running.Ahead,calls_plan] using ahead
  cases action with
  | fetchPull after limit =>
      unfold Running.take
      dsimp only
      split
      · trivial
      · exact go_on_ahead (kept rfl) (pull_response_onward _ _ _)
  | sendPush request => exact settle_ahead (kept rfl) _ _ _
  | _ => exact called

theorem txn_ahead (ahead : Running.Ahead {r with todo := txn :: todo}) (ran : txn.run identity db = .ok (db',more)) :
    Running.Ahead {r with todo := more ++ todo,seen := r.saw txn} := by
  have kept : txn.plan = more.flatMap Txn.plan → r.saw txn = r.seen → Running.Ahead {r with todo := more ++ todo,seen := r.saw txn} := by
    intro same still
    simpa [Running.Ahead,List.flatMap_append,same,still] using ahead
  cases txn with
  | readMutation mutationId status retryCount =>
      unfold Txn.run at ran
      dsimp only at ran
      split at ran
      · cases ran
      · cases ran
        exact kept rfl rfl
  | checkMutation mutationId =>
      cases ran
      refine kept ?_ rfl
      split <;> rfl
  | readMutations =>
      cases ran
      refine kept ?_ rfl
      rw [List.flatMap_map]
      exact (List.flatMap_eq_nil_iff.mpr (fun _ _ => rfl)).symm
  | writeState state =>
      cases ran
      exact (List.pairwise_cons.mp ahead).2
  | _ => cases ran; exact kept rfl rfl

theorem next_ahead (ahead : Tab.Ahead tab) (b : Browser World Key Note) (db : WebDb) (world : World) : (tab.next b db world).1.Ahead := by
  cases tab with
  | idle answered => trivial
  | listing state answered => simp [Tab.next,Tab.Ahead,Running.Ahead,SyncStateMachine.start,new,planned,fetch]
  | conflicted r request response => exact resolve_ahead ahead b db request response
  | running r =>
      obtain ⟨machine,actions,todo,deviceId,answered,seen⟩ := r
      cases todo with
      | nil =>
          cases actions with
          | nil => trivial
          | cons action rest => exact take_ahead (r := ⟨machine,rest,[],deviceId,answered,seen⟩) ahead b world
      | cons txn todo =>
          unfold Tab.next
          dsimp only
          split
          · trivial
          · rename_i ran
            exact txn_ahead (r := ⟨machine,actions,[],deviceId,answered,seen⟩) ahead ran

-- From one state of the database to a later one: what left the queue stays
-- away, and no cursor goes back.
structure Kept (before after : WebDb) : Prop where
  gone : ∀ mutationId, before.getMutation mutationId = none → after.getMutation mutationId = none
  cursor : ∀ identity, (before.getSyncState identity).syncCursor ≤ (after.getSyncState identity).syncCursor

theorem kept_refl (db : WebDb) : Kept db db := ⟨fun _ gone => gone,fun _ => Nat.le_refl _⟩

theorem kept_trans {one two three : WebDb} (first : Kept one two) (second : Kept two three) : Kept one three :=
  ⟨fun mutationId gone => second.gone mutationId (first.gone mutationId gone),
    fun identity => Nat.le_trans (first.cursor identity) (second.cursor identity)⟩

theorem enqueue_kept {db : WebDb} (queued : (db.getMutation mutation.mutationId).isSome) : Kept db (db.enqueueMutation mutation) := by
  refine ⟨?_,fun _ => Nat.le_refl _⟩
  intro mutationId gone
  unfold WebDb.getMutation WebDb.enqueueMutation
  dsimp only
  rw [find_upsert]
  split
  · rename_i same
    rw [same,gone] at queued
    cases queued
  · exact gone

theorem delete_kept (db : WebDb) (doomed : PendingMutation → Bool) : Kept db {db with mutations := db.mutations.delete doomed} := by
  refine ⟨?_,fun _ => Nat.le_refl _⟩
  intro mutationId gone
  unfold WebDb.getMutation at gone ⊢
  dsimp only
  rw [find_delete,gone]
  rfl

theorem set_state_kept {db : WebDb} (low : (db.getSyncState identity).syncCursor ≤ state.syncCursor) : Kept db (db.setSyncState state identity) := by
  refine ⟨fun _ gone => gone,?_⟩
  intro other
  unfold WebDb.setSyncState
  by_cases same : identity = other
  · subst same
    have now : (WebDb.getSyncState {db with syncState := db.syncState.upsert ⟨identity,state⟩} identity) = state := by
      unfold WebDb.getSyncState
      dsimp only
      rw [find_upsert,if_pos rfl]
      rfl
    rw [now]
    exact low
  · have still : (WebDb.getSyncState {db with syncState := db.syncState.upsert ⟨identity,state⟩} other) = db.getSyncState other := by
      unfold WebDb.getSyncState
      dsimp only
      rw [find_upsert,if_neg same]
    rw [still]

theorem txn_kept {txn : Txn} (ran : txn.run identity db = .ok (db',more))
    (queued : ∀ mutation, txn = .writeMutation mutation → (db.getMutation mutation.mutationId).isSome)
    (low : ∀ state, txn = .writeState state → (db.getSyncState identity).syncCursor ≤ state.syncCursor) : Kept db db' := by
  cases txn with
  | readMutation mutationId status retryCount =>
      unfold Txn.run at ran
      dsimp only at ran
      split at ran
      · cases ran
      · cases ran
        exact kept_refl db
  | writeMutation mutation => cases ran; exact enqueue_kept (queued mutation rfl)
  | deleteMutation mutationId => cases ran; exact delete_kept db _
  | writeState state => cases ran; exact set_state_kept (low state rfl)
  | writeObject object => cases ran; exact ⟨fun _ gone => gone,fun _ => Nat.le_refl _⟩
  | writeConflict record => cases ran; exact ⟨fun _ gone => gone,fun _ => Nat.le_refl _⟩
  | checkMutation mutationId => cases ran; exact kept_refl db
  | readMutations => cases ran; exact kept_refl db
  | readState cursor => cases ran; exact kept_refl db

variable {b : ι → Browser World Key Note} {s t : Shared ι World}

theorem turn_ahead (ahead : ∀ i, (s.tabs i).Ahead) (ran : turn b i s = some t) : ∀ i, (t.tabs i).Ahead := by
  cases ran
  intro j
  dsimp only
  rw [Function.update_apply]
  split
  · exact next_ahead (ahead i) (b i) s.db s.world
  · exact ahead j

theorem turn_kept (ahead : ∀ i, (s.tabs i).Ahead) (fine : Undisturbed b i s) (ran : turn b i s = some t) : Kept s.db t.db := by
  cases ran
  have own := ahead i
  unfold Undisturbed at fine
  dsimp only
  cases tab : s.tabs i with
  | idle answered => exact kept_refl _
  | listing state answered => exact kept_refl _
  | conflicted r request response => exact kept_refl _
  | running r =>
      obtain ⟨machine,actions,todo,deviceId,answered,seen⟩ := r
      rw [tab] at own fine
      cases todo with
      | nil => cases actions <;> exact kept_refl _
      | cons txn todo =>
          dsimp only
          split
          · exact kept_refl _
          · rename_i ran
            refine txn_kept ran ?_ ?_
            · rintro mutation rfl
              exact fine
            · rintro state rfl
              have next : seen ≤ state.syncCursor := (List.pairwise_cons.mp own).1 _ (by simp [Txn.plan])
              exact Nat.le_trans (of_decide_eq_true fine) next

-- Whatever tabs do from the moment they open, from any state they reach on:
-- while they do not disturb one another nothing is undone.
theorem tabs_undo_nothing (b : ι → Browser World Key Note) (world : World) (db : WebDb) (first rest : List ι)
    (reached : runAll (turn b) first (opened world db) = some s) (fine : Along (turn b) (Undisturbed b) rest s)
    (ran : runAll (turn b) rest s = some t) :
    (∀ mutationId, s.db.getMutation mutationId = none → t.db.getMutation mutationId = none) ∧
    ∀ identity, (s.db.getSyncState identity).syncCursor ≤ (t.db.getSyncState identity).syncCursor := by
  have ahead : ∀ i, (s.tabs i).Ahead :=
    run_invariant (fun s => ∀ i, (s.tabs i).Ahead) (fun _ _ _ ahead ran => turn_ahead ahead ran) first (fun _ => trivial) reached
  have kept : (∀ i, (t.tabs i).Ahead) ∧ Kept s.db t.db := by
    refine run_keeps (fun t => (∀ i, (t.tabs i).Ahead) ∧ Kept s.db t.db) ?_ rest fine ⟨ahead,kept_refl _⟩ ran
    intro i u v held fine ran
    exact ⟨turn_ahead held.1 ran,kept_trans held.2 (turn_kept held.1 fine ran)⟩
  exact ⟨kept.2.gone,kept.2.cursor⟩

-- A server that appends every push to its log and sends what follows a cursor.
def logServer : BrowserServer (List ObjectChange) where
  pushMutation request log :=
    (.accepted ⟨request.objectId,request.expectedRevision+1,log.length+1⟩,
      log ++ [⟨log.length+1,request.objectId,request.expectedRevision+1,request.objectKind,request.isDeleted,request.envelope⟩])
  fetchPullChanges after _ log := (.ok ⟨log.filter (fun c => after < c.serverSeq),log.length,false⟩,log)

def sameTabs : Bool → Browser (List ObjectChange) Unit String := fun _ =>
  ⟨logServer,NoteCodec.standIn,none,⟨fun _ _ => .eq,fun _ _ => rfl,fun _ _ _ _ _ => by simp⟩,"alice",.default,
    fun n => ⟨fun _ => s!"t{n}","conflict",0⟩⟩

def oneEdit : WebDb := {WebDb.new with mutations := ⟨[queued change1 firstNote 0 .pending "aaaa" "t1"],by decide⟩}

def twoChanges : List ObjectChange :=
  [⟨1,secondNote,1,objectKindNote,false,sealedText secondNote "cccc"⟩,⟨2,secondNote,2,objectKindNote,false,sealedText secondNote "dddd"⟩]

def turns (n : Nat) (tab : Bool) : List Bool := List.replicate n tab

-- One tab pulls and pushes, then the other one does.
theorem tabs_in_turn_undo_nothing : ∃ s t, runAll (turn sameTabs) (turns 25 true) (opened twoChanges oneEdit) = some s ∧
    runAll (turn sameTabs) (turns 25 false) s = some t ∧ s.db.getMutation change1 = none ∧ t.db.getMutation change1 = none ∧
    (s.db.getSyncState "alice").syncCursor ≤ (t.db.getSyncState "alice").syncCursor := by
  obtain ⟨s,reached⟩ := Option.isSome_iff_exists.mp
    (show (runAll (turn sameTabs) (turns 25 true) (opened twoChanges oneEdit)).isSome = true by decide)
  have fine : ∀ s ∈ runAll (turn sameTabs) (turns 25 true) (opened twoChanges oneEdit),
      Along (turn sameTabs) (Undisturbed sameTabs) (turns 25 false) s ∧ (runAll (turn sameTabs) (turns 25 false) s).isSome = true ∧
      s.db.getMutation change1 = none := by decide
  obtain ⟨fine,more,gone⟩ := fine s reached
  obtain ⟨t,ran⟩ := Option.isSome_iff_exists.mp more
  obtain ⟨away,onward⟩ := tabs_undo_nothing sameTabs twoChanges oneEdit (turns 25 true) (turns 25 false) reached fine ran
  exact ⟨s,t,reached,ran,gone,away _ gone,onward _⟩

-- A status read before the other tab's removal is written after it; a pull that
-- started from an older cursor writes it after the other tab's pull.
theorem tabs_undo_each_other :
    (∃ s t, runAll (turn sameTabs) (turns 6 false ++ turns 12 true ++ [false,true]) (opened [] oneEdit) = some s ∧
      runAll (turn sameTabs) [false] s = some t ∧ (s.db.getObject firstNote).map (·.revision) = some 1 ∧
      s.db.getMutation change1 = none ∧ (t.db.getMutation change1).map (·.status) = some .inFlight) ∧
    ∃ s t, runAll (turn sameTabs) (turns 1 true ++ turns 15 false ++ turns 8 true) (opened twoChanges .new) = some s ∧
      runAll (turn sameTabs) [true] s = some t ∧
      (s.db.getSyncState "alice").syncCursor = 2 ∧ (t.db.getSyncState "alice").syncCursor = 1 := by
  refine ⟨⟨_,_,rfl,rfl,?_⟩,⟨_,_,rfl,rfl,?_⟩⟩ <;> decide

end ZkNote.Tabs
