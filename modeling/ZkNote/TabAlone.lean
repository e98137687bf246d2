import ZkNote.BrowserSteps
import ZkNote.Tabs

namespace ZkNote.TabAlone
open Protocol KeyedTable LocalStorage IndexedDb StateMachine SyncStateMachine BrowserSync BrowserSteps Tabs Conflict

variable {World Key Note : Type}

-- A tab that has the browser to itself: its steps follow one another.
inductive Alone (b : Browser World Key Note) : Tab × WebDb × World → Tab × WebDb × World → Prop where
  | done (x : Tab × WebDb × World) : Alone b x x
  | step {x y : Tab × WebDb × World} (more : Alone b (x.1.next b x.2.1 x.2.2) y) : Alone b x y

variable {b : Browser World Key Note} {x y z : Tab × WebDb × World} {db db' : WebDb} {world : World} {r : Running} {c d : SyncCycle World}

theorem alone_trans (one : Alone b x y) (two : Alone b y z) : Alone b x z := by
  induction one with
  | done => exact two
  | step more ih => exact .step (ih two)

theorem alone_one (same : x.1.next b x.2.1 x.2.2 = y) : Alone b x y := .step (same ▸ .done _)

-- A call that is read and written back with nothing in between.
theorem update_alone (updated : db.updateMutationStatus mutationId status retryCount = .ok db') (todo : List Txn) :
    Alone b (.running {r with todo := .readMutation mutationId status retryCount :: todo},db,world) (.running {r with todo := todo},db',world) := by
  unfold WebDb.updateMutationStatus at updated
  split at updated
  · cases updated
  · rename_i mutation found
    cases updated
    have read : Txn.run b.identity db (.readMutation mutationId status retryCount) =
        .ok (db,[.writeMutation (WebDb.restatus mutation status retryCount)]) := by
      simp only [Txn.run,found]
    refine .step ?_
    simp only [Tab.next,read]
    exact alone_one rfl

theorem update_missing (failed : db.updateMutationStatus mutationId status retryCount = .error message) (todo : List Txn) :
    Alone b (.running {r with todo := .readMutation mutationId status retryCount :: todo},db,world) (.idle r.answered,db,world) := by
  unfold WebDb.updateMutationStatus at failed
  split at failed
  · rename_i missing
    apply alone_one
    simp only [Tab.next,Txn.run,missing]
  · cases failed

theorem reset_alone (flying : List PendingMutation) (count : Nat)
    (reset : flying.foldlM (fun (count,db) (m : PendingMutation) =>
      (WebDb.updateMutationStatus db m.mutationId .pending (some m.retryCount)).map (fun db => (count+1,db))) (count,db) = .ok (total,db')) :
    Alone b (.running {r with todo := flying.map (fun m => .readMutation m.mutationId .pending (some m.retryCount))},db,world)
      (.running {r with todo := []},db',world) := by
  induction flying generalizing count db with
  | nil => cases reset; exact .done _
  | cons m flying ih =>
      rw [List.foldlM_cons] at reset
      dsimp only at reset
      cases updated : db.updateMutationStatus m.mutationId .pending (some m.retryCount) with
      | error message => rw [updated] at reset; cases reset
      | ok middle =>
          rw [updated] at reset
          exact alone_trans (update_alone updated _) (ih (count+1) reset)

theorem drain_alone (wanted : SyncAction → Option (String × MutationStatus)) (message : String) (list : List SyncAction)
    (drained : drain wanted message list c = .thrown failed d) (empty : r.actions = []) :
    ∃ answered, Alone b
      (.running {r with todo := (list.filterMap wanted).map (fun (mutationId,status) => .readMutation mutationId status none)},c.storage,c.world)
      (.idle answered,d.storage,d.world) := by
  induction list generalizing c with
  | nil =>
      cases drained
      refine ⟨r.answered,alone_one ?_⟩
      simp only [List.filterMap_nil,List.map_nil,Tab.next,empty]
  | cons action rest ih =>
      unfold drain at drained
      cases want : wanted action with
      | none =>
          rw [want] at drained
          rw [List.filterMap_cons_none want]
          exact ih drained
      | some pair =>
          obtain ⟨mutationId,status⟩ := pair
          rw [want] at drained
          rw [List.filterMap_cons_some want,List.map_cons]
          dsimp only at drained ⊢
          cases updated : c.storage.updateMutationStatus mutationId status none with
          | error failure =>
              rw [updated] at drained
              cases drained
              exact ⟨r.answered,update_missing updated _⟩
          | ok storage =>
              rw [updated] at drained
              obtain ⟨answered,more⟩ := ih drained
              exact ⟨answered,alone_trans (update_alone updated _) more⟩

def Tab.of (deviceId : Option String) (seen : Nat) (c : SyncCycle World) : Tab × WebDb × World :=
  (.running ⟨c.machine,c.actions,[],deviceId,c.answered,seen⟩,c.storage,c.world)

-- Where a step of the loop leads, the tab gets to as well.
def Matches (b : Browser World Key Note) (deviceId : Option String) (x : Tab × WebDb × World) : Step World → Prop
  | .go d => ∃ seen, Alone b x (Tab.of deviceId seen d)
  | .thrown _ d => ∃ answered, Alone b x (.idle answered,d.storage,d.world)

variable {deviceId : Option String} {seen : Nat}

theorem abandon_alone (wanted : SyncAction → Option (String × MutationStatus)) (message : String) (c : SyncCycle World)
    (result : Except String (SyncStateMachine × List SyncAction)) (todo : List Txn) :
    Matches b deviceId (Running.abandon ⟨c.machine,c.actions,todo,deviceId,c.answered,seen⟩ wanted result,c.storage,c.world)
      (giveUp wanted message c result) := by
  cases result with
  | error failed => exact ⟨c.answered,.done _⟩
  | ok pair =>
      obtain ⟨machine,next⟩ := pair
      obtain ⟨failed,d,drained,_⟩ := drain_done wanted message (c.actions ++ next) (c.queue machine next)
      unfold giveUp
      dsimp only
      rw [drained]
      exact drain_alone (r := ⟨machine,[],[],deviceId,c.answered+1,seen⟩) (c := c.queue machine next) wanted message _ drained rfl

theorem settle_alone (b : Browser World Key Note) (c : SyncCycle World) (request : PushRequest) (answer : PushAnswer) :
    Matches b deviceId (Running.settle ⟨c.machine,c.actions,[],deviceId,c.answered,seen⟩ (b.draws c.answered) request answer,c.storage,c.world)
      (settle b c request answer) := by
  cases answer with
  | retryable message => exact abandon_alone resetting message c (c.machine.handlePushTransientError request.mutationId) []
  | fatal message => exact abandon_alone failing message c (c.machine.handlePushFatalError request.mutationId message) []
  | accepted response =>
      unfold Running.settle settle
      dsimp only
      cases handled : c.machine.handlePushSuccess ((b.draws c.answered).clock 0) request.mutationId response with
      | error message => exact abandon_alone failing message c _ []
      | ok pair => exact ⟨seen,.done _⟩
  | conflict response =>
      -- the base version is read in a transaction of its own
      have resolved : Matches b deviceId (Running.resolve ⟨c.machine,c.actions,[],deviceId,c.answered,seen⟩ b c.storage request response,
          c.storage,c.world) (settle b c request (.conflict response)) := by
        unfold Running.resolve settle
        dsimp only
        cases recordFor b c.answered c.machine c.storage request response with
        | error message => exact abandon_alone resetting message c (c.machine.handlePushTransientError request.mutationId) []
        | ok record =>
            dsimp only
            cases c.machine.handlePushConflict ((b.draws c.answered).clock 0) request.mutationId record with
            | error message => exact ⟨c.answered,.done _⟩
            | ok pair => exact ⟨seen,.done _⟩
      cases stepped : settle b c request (.conflict response) with
      | go d =>
          rw [stepped] at resolved
          obtain ⟨seen,more⟩ := resolved
          exact ⟨seen,.step more⟩
      | thrown message d =>
          rw [stepped] at resolved
          obtain ⟨answered,more⟩ := resolved
          exact ⟨answered,.step more⟩

theorem matches_step {result : Step World} (more : Matches b deviceId (x.1.next b x.2.1 x.2.2) result) : Matches b deviceId x result := by
  cases result with
  | go d => obtain ⟨seen,more⟩ := more; exact ⟨seen,.step more⟩
  | thrown message d => obtain ⟨answered,more⟩ := more; exact ⟨answered,.step more⟩

theorem stored_alone (c : SyncCycle World) (mutationId : String) (status : MutationStatus) (retryCount : Option UInt32) :
    Matches b deviceId (.running ⟨c.machine,c.actions,[.readMutation mutationId status retryCount],deviceId,c.answered,seen⟩,c.storage,c.world)
      (c.stored (c.storage.updateMutationStatus mutationId status retryCount)) := by
  let r : Running := ⟨c.machine,c.actions,[],deviceId,c.answered,seen⟩
  cases updated : c.storage.updateMutationStatus mutationId status retryCount with
  | error message => exact ⟨c.answered,update_missing (r := r) updated []⟩
  | ok storage => exact ⟨seen,update_alone (r := r) updated []⟩

theorem perform_alone (b : Browser World Key Note) (deviceId : Option String) (seen : Nat) (c : SyncCycle World) (action : SyncAction) :
    Matches b deviceId (.running ⟨c.machine,action :: c.actions,[],deviceId,c.answered,seen⟩,c.storage,c.world)
      (perform b deviceId c action) := by
  apply matches_step
  cases action with
  | fetchPull after limit =>
      unfold perform
      simp only [Tab.next,Running.take]
      cases b.server.fetchPullChanges after (max 1 (min 500 limit)) c.world with
      | mk answer world =>
          cases answer with
          | error message => exact ⟨c.answered,.done _⟩
          | ok response => exact ⟨seen,.done _⟩
  | sendPush request => exact settle_alone b {c with world := (b.server.pushMutation request c.world).2} request _
  | resetInFlightMutations =>
      obtain ⟨count,next,reset,_⟩ := reset_found c.storage
      apply matches_step
      have stored : (Except.map (·.2) c.storage.resetInFlightMutations) = .ok next := by rw [reset]; rfl
      simp only [perform,stored,SyncCycle.stored]
      have each : Alone b _ (_,next,c.world) := reset_alone (r := ⟨c.machine,c.actions,[],deviceId,c.answered,seen⟩) _ 0 reset
      refine ⟨seen,?_⟩
      simpa [Tab.next,Running.take,calls,Txn.run,Running.saw,Tab.of] using each
  | markMutationInFlight mutationId retryCount => exact stored_alone c mutationId _ _
  | resetMutationToPending mutationId => exact stored_alone c mutationId _ _
  | markMutationFailed mutationId => exact stored_alone c mutationId _ _
  | storeObject object => exact ⟨seen,alone_one rfl⟩
  | advanceCursor cursor => exact ⟨cursor,.step (alone_one rfl)⟩
  | recordConflict record mutationId => exact ⟨seen,alone_one rfl⟩
  | updateSyncState cursor lastSyncAt => exact ⟨cursor,alone_one rfl⟩
  | acknowledgeAccepted object mutationId =>
      refine ⟨seen,.step (.step ?_)⟩
      unfold WebDb.removeMutation
      cases found : (c.storage.putObject object).getMutation mutationId with
      | none => simp [Tab.next,Running.take,calls,Txn.run,Running.saw,found,Tab.of]; exact .done _
      | some mutation =>
          simp [Tab.next,Running.take,calls,Txn.run,Running.saw,found,Tab.of]
          exact alone_one rfl

theorem loop_alone (fuel : Nat) (c : SyncCycle World) (ran : loop b deviceId fuel c = some (d,result)) (seen : Nat) :
    ∃ answered, Alone b (Tab.of deviceId seen c) (.idle answered,d.storage,d.world) := by
  induction fuel generalizing c seen with
  | zero => cases ran
  | succ fuel ih =>
      rw [loop] at ran
      cases queued : c.actions with
      | nil =>
          rw [queued] at ran
          cases ran
          refine ⟨d.answered,alone_one ?_⟩
          simp only [Tab.of,Tab.next,queued]
      | cons action rest =>
          rw [queued] at ran
          have first := perform_alone b deviceId seen
            {c with actions := rest,done := c.done ++ [action]} action
          have here : Tab.of deviceId seen c =
              (.running ⟨c.machine,action :: rest,[],deviceId,c.answered,seen⟩,c.storage,c.world) := by rw [Tab.of,queued]
          dsimp only at ran first
          cases stepped : perform b deviceId {c with actions := rest,done := c.done ++ [action]} action with
          | go next =>
              rw [stepped] at ran first
              obtain ⟨seen',first⟩ := first
              obtain ⟨answered,more⟩ := ih next ran seen'
              exact ⟨answered,here ▸ alone_trans first more⟩
          | thrown message next =>
              rw [stepped] at ran first
              cases ran
              exact here ▸ first

-- A tab that runs alone does what one undivided call of `sync` does.
theorem sync_alone (b : Browser World Key Note) (fuel : Nat) (world : World) (db : WebDb) (ran : sync b fuel world db = some (d,result)) :
    ∃ answered, Alone b (.idle 0,db,world) (.idle answered,d.storage,d.world) := by
  obtain ⟨answered,more⟩ := loop_alone fuel _ ran (db.getSyncState b.identity).syncCursor
  exact ⟨answered,.step (.step more)⟩

end ZkNote.TabAlone
