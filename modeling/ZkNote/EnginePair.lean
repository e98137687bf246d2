import ZkNote.BrowserSteps
import ZkNote.CrashSafePull
import ZkNote.CycleSteps

namespace ZkNote.EnginePair
open Protocol Adapter KeyedTable LocalStorage MutationQueue Conflict IndexedDb PullChanges PushChanges PushSteps CrashSafePull
open StateMachine SyncStateMachine StateMachineRuns BrowserSync BrowserSteps

-- What an engine asks of its server, in order, and whether it was answered with
-- anything but an error.
inductive Question where
  | pull (after : Nat)
  | push (request : PushRequest)
  deriving DecidableEq, Repr

structure Asked where
  question : Question
  answered : Bool
  deriving DecidableEq, Repr

structure Recorded (World : Type) where
  world : World
  asked : List Asked

variable {World Key Note : Type}

def Recorded.ask (r : Recorded World) (question : Question) (answered : Bool) (world : World) : Recorded World :=
  ⟨world,r.asked ++ [⟨question,answered⟩]⟩

def recording (adapter : SyncServerAdapter World) : SyncServerAdapter (Recorded World) where
  pushMutation request r :=
    let (answer,world) := adapter.pushMutation request r.world
    (answer,r.ask (.push request) answer.isOk world)
  pullChanges after limit r :=
    let (answer,world) := adapter.pullChanges after limit r.world
    (answer,r.ask (.pull after) answer.isOk world)

-- Every request was answered, and no push met a conflict.
def Recorded.Calm (r : Recorded World) : Prop := ∀ x ∈ r.asked, x.answered = true

instance (r : Recorded World) : Decidable r.Calm := inferInstanceAs (Decidable (∀ x ∈ r.asked, x.answered = true))

-- The browser asks the same server. How it sorts an error does not matter
-- where there is none.
structure Sorting where
  pushError : SyncNetworkError → PushAnswer
  pullError : SyncNetworkError → String

def browserServer (sorting : Sorting) (adapter : SyncServerAdapter World) : BrowserServer World where
  pushMutation request w :=
    match adapter.pushMutation request w with
    | (.ok response,w) => (.accepted response,w)
    | (.error e,w) => (sorting.pushError e,w)
  fetchPullChanges after limit w :=
    match adapter.pullChanges after (some limit) w with
    | (.ok page,w) => (.ok page,w)
    | (.error e,w) => (.error (sorting.pullError e),w)

-- The two stores agree on what the engines share; times, base versions and
-- whatever one side alone keeps are left out.
structure Level (identity : String) (s : Storage) (db : WebDb) : Prop where
  objects : ∀ id, (db.getObject id).map untimed = (s.getObject id).map untimed
  mutations : db.mutations = s.mutations
  cursor : (db.getSyncState identity).syncCursor = currentCursor s

variable {identity : String} {s t : Storage} {db : WebDb} {o o' : StoredEncryptedObject}

theorem put_untimed (find : ∀ id, (db.getObject id).map untimed = (s.getObject id).map untimed) (same : untimed o' = untimed o) (id : String) :
    ((db.putObject o').getObject id).map untimed = ((s.putObject o).getObject id).map untimed := by
  have key : o'.objectId = o.objectId := congrArg (·.objectId) same
  simp only [WebDb.putObject,WebDb.getObject,Storage.putObject,Storage.getObject,find_upsert,key]
  split
  · exact congrArg some same
  · exact find id

theorem level_put (level : Level identity s db) (same : untimed o' = untimed o) : Level identity (s.putObject o) (db.putObject o') :=
  ⟨put_untimed level.objects same,level.mutations,level.cursor⟩

theorem set_state_cursor (db : WebDb) (state : SyncState) (identity : String) :
    (db.setSyncState state identity).getSyncState identity = state := by
  have held := find_upsert_same db.syncState (⟨identity,state⟩ : SyncStateRow)
  simp only [WebDb.getSyncState,WebDb.setSyncState]
  rw [held]
  rfl

theorem level_cursor (level : Level identity s db) (cursor : Nat) :
    Level identity (s.setSyncCursor cursor) (db.setSyncCursor cursor identity) := by
  refine ⟨level.objects,level.mutations,?_⟩
  rw [WebDb.setSyncCursor,set_state_cursor]
  rfl

-- One page, taken in by the loop and executed as the machine's actions.
theorem page_level (clock clock' : Nat → String) (i : Nat) (changes : List ObjectChange) {p : Progress}
    (positive : ∀ change ∈ changes, 1 ≤ change.serverSeq) (level : Level identity p.storage db)
    (durable : currentCursor p.storage = p.currentSeq) :
    let page := storeChanges clock' i p.currentSeq changes
    let q := takePage clock p changes
    Level identity q.storage (page.1.foldl (storeEffect identity) db) ∧ currentCursor q.storage = q.currentSeq ∧
      page.2.1 = q.currentSeq := by
  induction changes generalizing p db i with
  | nil => exact ⟨level,durable,rfl⟩
  | cons change rest ih =>
      have later := fun x inside => positive x (List.mem_cons_of_mem _ inside)
      have first := positive change List.mem_cons_self
      have page : takePage clock p (change :: rest) = takePage clock (takeChange clock p change) rest := rfl
      rw [page]
      unfold storeChanges
      by_cases old : change.serverSeq ≤ p.currentSeq ∧ 0 < p.currentSeq
      · have same : takeChange clock p change = p := if_pos old
        rw [if_pos old,same]
        exact ih (i+1) later level durable
      · have fresh : ¬change.serverSeq ≤ currentCursor p.storage := by omega
        have taken : takeChange clock p change =
            {p with
              storage := (p.storage.putObject (storedOf change (clock p.applied.length))).setSyncCursor change.serverSeq
              currentSeq := change.serverSeq
              applied := p.applied ++ [change]} := by
          simp only [takeChange,if_neg old,applyChange,if_neg fresh]
        rw [if_neg old,taken]
        refine ih (p := {p with
          storage := (p.storage.putObject (storedOf change (clock p.applied.length))).setSyncCursor change.serverSeq
          currentSeq := change.serverSeq
          applied := p.applied ++ [change]}) (i+1) later ?_ rfl
        have put : Level identity (p.storage.putObject (storedOf change (clock p.applied.length)))
            (db.putObject (storedOf change (clock' i))) := level_put level rfl
        exact level_cursor put change.serverSeq

-- What both engines need of a server they ask with these two page limits: it
-- answers pulls, no page with more to come is empty, and an accepted push names
-- the object that was pushed. `Named` is what is asked of the requests.
structure Serves (adapter : SyncServerAdapter (Recorded World)) (Good : Recorded World → Prop) (Named : PushRequest → Prop)
    (nativeLimit : Option Nat) (webLimit : Nat) : Prop where
  paged : ∀ after w, Good w → ∃ page w', adapter.pullChanges after nativeLimit w = (.ok page,w') ∧
    adapter.pullChanges after (some webLimit) w = (.ok page,w') ∧ Good w' ∧
    (∀ change ∈ page.changes, 1 ≤ change.serverSeq) ∧ (page.hasMore = true → page.changes ≠ [])
  named : ∀ request w response w', Good w → Named request → adapter.pushMutation request w = (.ok response,w') →
    response.objectId = request.objectId ∧ Good w'

variable {Good : Recorded World → Prop} {Named : PushRequest → Prop} {nativeLimit : Option Nat} {webLimit : Nat}
  {adapter : SyncServerAdapter (Recorded World)} {sorting : Sorting} {b : Browser (Recorded World) Key Note}
  {deviceId : Option String} {c : SyncCycle (Recorded World)} {w w' : Recorded World}

-- The machine after a last page, and all a pull changes in it before that.
def closePull (m : SyncStateMachine) (now : String) : SyncStateMachine × List SyncAction :=
  if m.phase = .pullingInitial then stepPush {m with phase := .pushing} now
  else ({m with phase := .complete,completed := true},[.updateSyncState m.currentCursor now])

def Pulled (m m' : SyncStateMachine) : Prop :=
  ∃ cursor first again, m' = {m with currentCursor := cursor,initialPull := first,followupPull := again}

theorem pulled_trans {m m' m'' : SyncStateMachine} (one : Pulled m m') (two : Pulled m' m'') : Pulled m m'' := by
  obtain ⟨_,_,_,rfl⟩ := one
  obtain ⟨cursor,first,again,rfl⟩ := two
  exact ⟨cursor,first,again,rfl⟩

theorem handle_pull_cases (m : SyncStateMachine) (clock : Nat → String) (page : PullChangesResponse) :
    ∃ m' now, Pulled m m' ∧ m'.currentCursor = (storeChanges clock 0 m.currentCursor page.changes).2.1 ∧
      (page.hasMore = true → m.handlePullResponse clock page =
        (m',(storeChanges clock 0 m.currentCursor page.changes).1 ++ [m'.fetch])) ∧
      (page.hasMore = false → m.handlePullResponse clock page =
        ((closePull m' now).1,(storeChanges clock 0 m.currentCursor page.changes).1 ++ (closePull m' now).2)) := by
  by_cases initial : m.phase = .pullingInitial
  · refine ⟨_,clock page.changes.length,⟨(storeChanges clock 0 m.currentCursor page.changes).2.1,
      countPage m.initialPull page.changes.length (storeChanges clock 0 m.currentCursor page.changes).2.2
        (storeChanges clock 0 m.currentCursor page.changes).2.1,m.followupPull,rfl⟩,rfl,?_,?_⟩
    · intro more
      simp only [handlePullResponse,initial,more,if_true]
    · intro last
      simp [handlePullResponse,initial,last,closePull]
  · refine ⟨_,clock page.changes.length,⟨(storeChanges clock 0 m.currentCursor page.changes).2.1,m.initialPull,
      some (countPage (m.followupPull.getD (.at m.currentCursor)) page.changes.length
        (storeChanges clock 0 m.currentCursor page.changes).2.2
        (storeChanges clock 0 m.currentCursor page.changes).2.1),rfl⟩,rfl,?_,?_⟩
    · intro more
      simp only [handlePullResponse,initial,more,if_true,if_false]
    · intro last
      simp [handlePullResponse,initial,last,closePull]

-- One page on the browser's side: the request, then the actions of the page.
theorem page_reach (deviceId : Option String) {page : PullChangesResponse} {rest : List SyncAction} {machine : SyncStateMachine} (queued : c.actions = [c.machine.fetch])
    (answered : b.server.fetchPullChanges c.machine.currentCursor (max 1 (min 500 c.machine.pageLimit)) c.world = (.ok page,w'))
    (handled : c.machine.handlePullResponse (b.draws c.answered).clock page =
      (machine,(storeChanges (b.draws c.answered).clock 0 c.machine.currentCursor page.changes).1 ++ rest)) :
    ∃ d, Reaches b deviceId c d ∧ d.machine = machine ∧ d.actions = rest ∧ d.world = w' ∧
      d.storage = (storeChanges (b.draws c.answered).clock 0 c.machine.currentCursor page.changes).1.foldl
        (storeEffect b.identity) c.storage := by
  let stores := (storeChanges (b.draws c.answered).clock 0 c.machine.currentCursor page.changes).1
  have ask : Reaches b deviceId c ⟨machine,stores ++ rest,c.storage,w',c.answered+1,c.done ++ [c.machine.fetch]⟩ := by
    refine reaches_step queued ?_
    simp only [fetch,perform,answered,handled]
    rfl
  have store : Reaches b deviceId ⟨machine,stores ++ rest,c.storage,w',c.answered+1,c.done ++ [c.machine.fetch]⟩ _ := stores_reach stores
    (c := ⟨machine,stores ++ rest,c.storage,w',c.answered+1,c.done ++ [c.machine.fetch]⟩)
    (fun x inside => store_changes_actions _ _ _ _ inside) rfl
  exact ⟨_,reaches_trans ask store,rfl,rfl,rfl,rfl⟩

theorem browser_fetch {page : PullChangesResponse} (server : b.server = browserServer sorting adapter)
    (answered : adapter.pullChanges after (some limit) w = (.ok page,w')) : b.server.fetchPullChanges after limit w = (.ok page,w') := by
  rw [server]
  simp only [browserServer,answered]

-- A whole pull. The induction is on the pages the loop has left; what carries it
-- is that the machine asks from the cursor the loop stands at.
theorem pull_level (deviceId : Option String) (serves : Serves adapter Good Named nativeLimit webLimit) (server : b.server = browserServer sorting adapter)
    (clock : Nat → String) (fuel : Nat) {p q : Progress} (good : Good w) (queued : c.actions = [c.machine.fetch]) (world : c.world = w)
    (cursor : c.machine.currentCursor = p.currentSeq) (limit : max 1 (min 500 c.machine.pageLimit) = webLimit)
    (level : Level b.identity p.storage c.storage) (durable : currentCursor p.storage = p.currentSeq)
    (ran : pullLoop adapter ⟨nativeLimit,none⟩ clock fuel w p = some (w',q,ended)) :
    ended = .ok () ∧ Good w' ∧ currentCursor q.storage = q.currentSeq ∧
      ∃ d m now, Reaches b deviceId c d ∧ Pulled c.machine m ∧ m.currentCursor = q.currentSeq ∧
        d.machine = (closePull m now).1 ∧ d.actions = (closePull m now).2 ∧ d.world = w' ∧ Level b.identity q.storage d.storage := by
  induction fuel generalizing w p c with
  | zero => cases ran
  | succ fuel ih =>
      obtain ⟨page,w₁,native,web,good₁,positive,full⟩ := serves.paged p.currentSeq w good
      have asked : b.server.fetchPullChanges c.machine.currentCursor (max 1 (min 500 c.machine.pageLimit)) c.world = (.ok page,w₁) := by
        rw [cursor,limit,world]
        exact browser_fetch server web
      obtain ⟨m,now,pulled,reached,onward,last⟩ := handle_pull_cases c.machine (b.draws c.answered).clock page
      obtain ⟨paged,still,stands⟩ := page_level clock (b.draws c.answered).clock 0 page.changes
        (p := {p with pagesFetched := p.pagesFetched+1}) positive level durable
      rw [pullLoop] at ran
      simp only [Option.any_none,Bool.false_eq_true,if_false,native] at ran
      rw [cursor] at reached onward last
      cases more : page.hasMore with
      | true =>
          obtain ⟨d,step,machine,actions,world₁,storage⟩ := page_reach deviceId queued asked (cursor ▸ onward more)
          rw [if_neg (full more),if_pos more] at ran
          obtain ⟨_,_,_,rfl⟩ := pulled
          obtain ⟨fine,good₂,held,e,m,now,further,again,rest⟩ := ih (c := d) good₁ (by rw [actions,machine]) world₁
            (by rw [machine,reached]; exact stands) (by rw [machine]; exact limit) (by rw [storage,cursor]; exact paged) still ran
          refine ⟨fine,good₂,held,e,m,now,reaches_trans step further,?_,rest⟩
          rw [machine] at again
          exact pulled_trans ⟨_,_,_,rfl⟩ again
      | false =>
          obtain ⟨d,step,machine,actions,world₁,storage⟩ := page_reach deviceId queued asked (cursor ▸ last more)
          have final : ended = .ok () ∧ w' = w₁ ∧ q = takePage clock {p with pagesFetched := p.pagesFetched+1} page.changes := by
            split at ran
            · rename_i empty
              cases ran
              rw [empty]
              exact ⟨rfl,rfl,rfl⟩
            · rw [more] at ran
              cases ran
              exact ⟨rfl,rfl,rfl⟩
          obtain ⟨rfl,rfl,rfl⟩ := final
          exact ⟨rfl,good₁,still,d,m,now,step,pulled,reached.trans stands,machine,actions,world₁,by rw [storage,cursor]; exact paged⟩

-- One attempt asks at most once.
theorem attempt_world {adapter : SyncServerAdapter World} (codec : NoteCodec Key Note) (options : PushOptions Key) (tick : Tick)
    (row : PendingMutation) (w : World) (s : Storage) (report : PushReport) :
    (attempt adapter codec options tick row w s report).1 = w ∨
      (attempt adapter codec options tick row w s report).1 = (adapter.pushMutation (requestOf row) w).2 := by
  unfold attempt
  dsimp only
  split
  · exact .inl rfl
  · exact .inr rfl

-- What a push can raise by one at most, a push loop raises by the length of its list.
theorem push_loop_world {adapter : SyncServerAdapter World} {codec : NoteCodec Key Note} {options : PushOptions Key} {ticks : Nat → Tick}
    (Kept : Nat → World → Prop) (less : ∀ n w, Kept n w → Kept (n+1) w)
    (step : ∀ n request w, Kept n w → Kept (n+1) (adapter.pushMutation request w).2) {w w' : World} (start : Kept n w)
    (ran : pushLoop adapter codec options ticks list w s report = (w',t,result)) : Kept (n+list.length) w' := by
  have grown : ∀ i k w, Kept i w → Kept (i+k) w := by
    intro i k w kept
    induction k with
    | zero => exact kept
    | succ k ih => exact less _ _ ih
  induction list generalizing n w s report with
  | nil =>
      cases ran
      exact start
  | cons row rest ih =>
      have tried : Kept (n+1) (attempt adapter codec options (ticks report.totalAttempted) row w s report).1 := by
        rcases attempt_world codec options (ticks report.totalAttempted) row w s report with same | asked
        · rw [same]
          exact less n w start
        · rw [asked]
          exact step n (requestOf row) w start
      have counted : n+(row :: rest).length = n+1+rest.length := by simp only [List.length_cons]; omega
      rw [counted]
      unfold pushLoop at ran
      split at ran
      · cases ran
        exact grown _ _ _ (less _ _ start)
      · split at ran
        · split at ran
          · rename_i attempted
            rw [attempted] at tried
            exact ih tried ran
          · rename_i attempted
            rw [attempted] at tried
            cases ran
            exact grown _ _ _ tried
          · rename_i attempted
            rw [attempted] at tried
            cases ran
            exact grown _ _ _ tried
        · exact ih (less n w start) ran

variable {inner : SyncServerAdapter World}

-- An unanswered request stays on the record.
theorem ask_calm {r : Recorded World} {question : Question} {answered : Bool} {world : World} (calm : (r.ask question answered world).Calm) :
    r.Calm ∧ answered = true := by
  unfold Recorded.ask Recorded.Calm at calm
  refine ⟨fun x inside => calm x (List.mem_append_left _ inside),?_⟩
  exact calm ⟨question,answered⟩ (by simp)

theorem push_calm {request : PushRequest} {r : Recorded World} (calm : ((recording inner).pushMutation request r).2.Calm) :
    r.Calm ∧ ∃ response, ((recording inner).pushMutation request r).1 = .ok response := by
  simp only [recording] at calm ⊢
  obtain ⟨before,answered⟩ := ask_calm calm
  refine ⟨before,?_⟩
  cases answer : (inner.pushMutation request r.world).1 with
  | ok response => exact ⟨response,rfl⟩
  | error e =>
      rw [answer] at answered
      cases answered

theorem push_loop_calm {codec : NoteCodec Key Note} {options : PushOptions Key} {ticks : Nat → Tick}
    (ran : pushLoop (recording inner) codec options ticks list w s report = (w',t,result)) (calm : w'.Calm) : w.Calm := by
  by_contra broken
  have kept := push_loop_world (fun (_ : Nat) (r : Recorded World) => ¬r.Calm) (fun _ _ broken => broken)
    (fun _ _ _ broken after => broken (push_calm after).1) (n := 0) broken ran
  exact kept calm

-- An accepted push on the native side.
theorem attempt_accepted {codec : NoteCodec Key Note} {options : PushOptions Key} {tick : Tick} {row : PendingMutation}
    (found : s.getMutation row.mutationId = some row) (answered : adapter.pushMutation (requestOf row) w = (.ok response,w')) :
    attempt adapter codec options tick row w s report =
      (w',accept s row response tick.now,
        {report with
          totalAttempted := report.totalAttempted+1
          accepted := report.accepted ++ [⟨row.mutationId,response.objectId,response.revision,response.serverSeq⟩]},.next) := by
  have flying : markInFlight s row.mutationId = .ok (restatus s row .inFlight (saturatingSucc row.retryCount)) :=
    mark_row found _ _
  have held := restatus_found found .inFlight (saturatingSucc row.retryCount)
  simp only [attempt,flying,answered,settlePush,acknowledgeAccepted,held]
  rw [← accept_restatus found .inFlight (saturatingSucc row.retryCount)]
  rfl

-- The same push on the browser's side, and the stores after it. The retry count
-- the two write may differ, but the row goes with the acknowledgement.
theorem accept_level {row : PendingMutation} {response : PushResponse} (level : Level identity s db)
    (found : s.getMutation row.mutationId = some row) (named : response.objectId = row.objectId) (b : Browser World Key Note) (n : Nat) (now : String) :
    ∃ flying, db.updateMutationStatus row.mutationId .inFlight (some (row.retryCount+1)) = .ok flying ∧
      Level identity (accept s row response now)
        ((flying.putObject (ackOf b n row response)).removeMutation row.mutationId).2 := by
  have held : db.mutations.find row.mutationId = some row := level.mutations ▸ found
  let retried := WebDb.restatus row .inFlight (some (row.retryCount+1))
  refine ⟨db.enqueueMutation retried,by simp only [WebDb.updateMutationStatus,WebDb.getMutation,held]; rfl,?_⟩
  have present : ((db.enqueueMutation retried).putObject (ackOf b n row response)).getMutation row.mutationId = some retried :=
    find_upsert_same db.mutations retried
  simp only [WebDb.removeMutation,present]
  refine ⟨?_,?_,level.cursor⟩
  · have same : untimed (ackOf b n row response) = untimed ⟨row.objectId,row.objectKind,response.revision,response.serverSeq,
        decide (row.mutationType = .delete),row.envelope,now⟩ := by
      simp only [untimed,ackOf,named]
    exact put_untimed level.objects same
  · change (db.mutations.upsert retried).delete (fun m => m.mutationId = row.mutationId) = s.mutations.delete _
    rw [delete_upsert (r := retried) held _ (by simp [retried,WebDb.restatus]),level.mutations]

-- In a loop that met no error the first push was accepted.
theorem first_answered {codec : NoteCodec Key Note} {options : PushOptions Key} {ticks : Nat → Tick} {row : PendingMutation}
    (whole : options.maxMutations = none) (found : s.getMutation row.mutationId = some row) (able : ready row = true)
    (ran : pushLoop (recording inner) codec options ticks (row :: rest) w s report = (w',t,result)) (calm : w'.Calm) :
    ∃ response w₁, (recording inner).pushMutation (requestOf row) w = (.ok response,w₁) := by
  have flying : markInFlight s row.mutationId = .ok (restatus s row .inFlight (saturatingSucc row.retryCount)) :=
    mark_row found _ _
  have world : (attempt (recording inner) codec options (ticks report.totalAttempted) row w s report).1 =
      ((recording inner).pushMutation (requestOf row) w).2 := by
    simp only [attempt,flying]
  have kept : ((recording inner).pushMutation (requestOf row) w).2.Calm := by
    rw [← world]
    unfold pushLoop at ran
    rw [whole] at ran
    simp only [Option.any_none,Bool.false_eq_true,if_false,able,if_true] at ran
    split at ran
    · rename_i attempted
      rw [attempted]
      exact push_loop_calm ran calm
    · rename_i attempted
      rw [attempted]
      cases ran
      exact calm
    · rename_i attempted
      rw [attempted]
      cases ran
      exact calm
  obtain ⟨response,accepted⟩ := (push_calm kept).2
  exact ⟨response,_,Prod.ext accepted rfl⟩

-- Where the push phase leaves the machine: nothing to send, and as many
-- acceptances as the loop's report counts.
structure Pushed (m m' : SyncStateMachine) (report : PushReport) : Prop where
  cursor : m'.currentCursor = m.currentCursor
  limit : m'.pageLimit = m.pageLimit
  always : m'.alwaysFollowupPull = m.alwaysFollowupPull
  counted : m'.push.accepted.length = report.accepted.length

-- A whole push phase that met no error, by induction on the list to send.
theorem push_level (deviceId : Option String) (serves : Serves (recording inner) Good Named nativeLimit webLimit)
    (server : b.server = browserServer sorting (recording inner)) (codec : NoteCodec Key Note) {options : PushOptions Key}
    (whole : options.maxMutations = none) (ticks : Nat → Tick) {m : SyncStateMachine} {now : String} {list : List PendingMutation}
    (good : Good w) (listed : Listed list s) (named : ∀ x ∈ list, Named (requestOf x)) (left : Left m list)
    (machine : c.machine = (m.stepPush now).1) (actions : c.actions = (m.stepPush now).2) (world : c.world = w)
    (level : Level b.identity s c.storage) (counted : m.push.accepted.length = report.accepted.length)
    (ran : pushLoop (recording inner) codec options ticks list w s report = (w',t,result)) (calm : w'.Calm) :
    Good w' ∧ t.syncState = s.syncState ∧ ∃ report' d m' now', result = .ok report' ∧ Reaches b deviceId c d ∧
      Pushed m m' report' ∧ d.machine = (m'.finish now').1 ∧ d.actions = (m'.finish now').2 ∧ d.world = w' ∧
      Level b.identity t d.storage := by
  induction list generalizing w s report m now c with
  | nil =>
      cases ran
      rw [step_push_none left] at machine actions
      exact ⟨good,rfl,report,c,m,now,rfl,reaches_refl c,⟨rfl,rfl,rfl,counted⟩,machine,actions,world,level⟩
  | cons row rest ih =>
      have found := listed.present row List.mem_cons_self
      have able := left.fit row List.mem_cons_self
      obtain ⟨response,w₁,answered⟩ := first_answered whole found able ran calm
      obtain ⟨object,good₁⟩ := serves.named (requestOf row) w response w₁ good (named row List.mem_cons_self) answered
      have web : b.server.pushMutation (requestOf row) c.world = (.accepted response,w₁) := by
        rw [server,world]
        simp only [browserServer,answered]
      rw [step_push_left left] at machine actions
      have sending : Left c.machine (row :: rest) := by
        rw [machine]
        exact ⟨left.pushing,left.left,left.fit,left.free,left.calm⟩
      obtain ⟨flying,marked,after⟩ := accept_level level found object b c.answered (ticks report.totalAttempted).now
      have turn : Reaches b deviceId c _ := push_one sending actions marked web rfl
      unfold pushLoop at ran
      rw [whole] at ran
      simp only [Option.any_none,Bool.false_eq_true,if_false,able,if_true,attempt_accepted found answered] at ran
      obtain ⟨good₂,state,report',d,m',now',fine,further,pushed,rest⟩ := ih
        (c := ⟨((bookAccepted c.machine response).stepPush ((b.draws c.answered).clock 0)).1,
          ((bookAccepted c.machine response).stepPush ((b.draws c.answered).clock 0)).2,
          ((flying.putObject (ackOf b c.answered row response)).removeMutation row.mutationId).2,w₁,c.answered+1,_⟩) good₁
        (listed_next listed (Outcome.accepted response (ticks report.totalAttempted).now : Outcome options s row _ _ _))
        (fun x inside => named x (List.mem_cons_of_mem _ inside)) (left_booked sending response) rfl rfl rfl after
        (by rw [machine]; simp [bookAccepted,counted]) ran
      refine ⟨good₂,state,report',d,m',now',fine,reaches_trans turn further,?_,rest⟩
      rw [machine] at pushed
      exact ⟨pushed.cursor,pushed.limit,pushed.always,pushed.counted⟩

end ZkNote.EnginePair
