import ZkNote.StateMachine

namespace ZkNote.StateMachineRuns
open Protocol LocalStorage StateMachine SyncStateMachine

-- What a driver can bring back for a request.
inductive Answer where
  | page (clock : Nat → String) (response : PullChangesResponse)
  | accepted (now : String) (response : PushResponse)
  | conflict (now : String) (conflictRecord : ConflictRecord)
  | transient
  | fatal (error : String)

def isRequest : SyncAction → Bool
  | .fetchPull _ _ | .sendPush _ => true
  | _ => false

def answer (m : SyncStateMachine) : SyncAction → Answer → Option (Except String (SyncStateMachine × List SyncAction))
  | .fetchPull _ _,.page clock response => some (.ok (m.handlePullResponse clock response))
  | .sendPush request,.accepted now response => some (m.handlePushSuccess now request.mutationId response)
  | .sendPush request,.conflict now conflictRecord => some (m.handlePushConflict now request.mutationId conflictRecord)
  | .sendPush request,.transient => some (m.handlePushTransientError request.mutationId)
  | .sendPush request,.fatal error => some (m.handlePushFatalError request.mutationId error)
  | _,_ => none

-- A driver calls `start` once and then answers emitted requests, each once, in
-- any order. `trace` is everything emitted and `out` the requests still open.
inductive Run (allowed : SyncAction → Answer → Prop) (m₀ : SyncStateMachine) :
    SyncStateMachine → List SyncAction → List SyncAction → Prop where
  | started : Run allowed m₀ m₀.start.1 m₀.start.2 (m₀.start.2.filter isRequest)
  | answered (run : Run allowed m₀ m trace (before ++ request :: after)) (fits : allowed request a)
      (done : answer m request a = some (.ok (next,actions))) :
      Run allowed m₀ next (trace ++ actions) (before ++ after ++ actions.filter isRequest)

-- Where a handler leaves the machine once the answer itself is booked.
inductive Turn (mid : SyncStateMachine) : SyncStateMachine → List SyncAction → Prop where
  | again (pulling : mid.phase = .pullingInitial ∨ mid.phase = .pullingFollowup) : Turn mid mid [mid.fetch]
  | send (pushing : mid.phase = .pushing) (onward : mid.mutationIndex ≤ j)
      (found : mid.pendingMutations[j]? = some mutation) (fit : mid.eligible mutation = true)
      (skipped : ∀ i x, mid.mutationIndex ≤ i → i < j → mid.pendingMutations[i]? = some x → mid.eligible x = false) :
      Turn mid {mid with mutationIndex := j,push := summary}
        [.markMutationInFlight mutation.mutationId (mutation.retryCount+1),.sendPush (requestOf mutation)]
  | halted (j : Nat) : Turn mid {mid with mutationIndex := j,phase := .failed} []
  | followup (j : Nat) : Turn mid {mid with mutationIndex := j,phase := .pullingFollowup} [mid.fetch]
  | completed (j : Nat) (now : String) :
      Turn mid {mid with mutationIndex := j,phase := .complete,completed := true} [.updateSyncState mid.currentCursor now]

-- How each answer is booked before that.
inductive Booked (m : SyncStateMachine) : SyncAction → Answer → SyncStateMachine → List SyncAction → Prop where
  | page (pulling : m.phase = .pullingInitial ∧ (stage = .pullingInitial ∨ stage = .pushing) ∨
        m.phase = .pullingFollowup ∧ stage = .pullingFollowup) :
      Booked m (.fetchPull after limit) (.page clock response)
        {m with
          phase := stage
          currentCursor := (storeChanges clock 0 m.currentCursor response.changes).2.1
          initialPull := first
          followupPull := second}
        (storeChanges clock 0 m.currentCursor response.changes).1
  | accepted (stored : StoredEncryptedObject) :
      Booked m (.sendPush request) (.accepted now response)
        {m with mutationIndex := m.mutationIndex+1,push := summary} [.acknowledgeAccepted stored request.mutationId]
  | conflict :
      Booked m (.sendPush request) (.conflict now conflictRecord)
        {m with
          mutationIndex := m.mutationIndex+1
          conflictedObjects := conflictRecord.objectId :: m.conflictedObjects
          push := summary}
        [.recordConflict conflictRecord request.mutationId,.resetMutationToPending request.mutationId]
  | transient :
      Booked m (.sendPush request) .transient {m with mutationIndex := m.mutationIndex+1,phase := .failed,push := summary}
        [.resetMutationToPending request.mutationId]
  | fatal : Booked m (.sendPush request) (.fatal error) {m with phase := .failed} [.markMutationFailed request.mutationId]

variable {m mid next : SyncStateMachine}

theorem finish_turn (m : SyncStateMachine) (now : String) : Turn m (m.finish now).1 (m.finish now).2 := by
  unfold finish
  split
  · exact .followup m.mutationIndex
  · exact .completed m.mutationIndex now

theorem step_push_turn (pushing : m.phase = .pushing) (now : String) : Turn m (m.stepPush now).1 (m.stepPush now).2 := by
  unfold stepPush
  simp only
  generalize place : (m.pendingMutations.drop m.mutationIndex).findIdx m.eligible = skip
  split
  · rename_i mutation found
    have dropped : (m.pendingMutations.drop m.mutationIndex)[skip]? = some mutation := by
      rw [List.getElem?_drop]; exact found
    obtain ⟨bound,value⟩ := List.getElem?_eq_some_iff.mp dropped
    refine .send pushing (Nat.le_add_right _ _) found ?_ ?_
    · rw [← value]
      exact (List.findIdx_eq bound).mp place |>.1
    · intro i x low high present
      obtain ⟨d,rfl⟩ := Nat.exists_eq_add_of_le low
      have inside : (m.pendingMutations.drop m.mutationIndex)[d]? = some x := by
        rw [List.getElem?_drop]; exact present
      obtain ⟨within,same⟩ := List.getElem?_eq_some_iff.mp inside
      rw [← same]
      simpa using ((List.findIdx_eq bound).mp place).2 d (by omega)
  · split
    · exact .halted _
    · unfold finish
      split
      · exact .followup _
      · exact .completed _ now

-- The requests still open, phase by phase.
def Waiting (m : SyncStateMachine) (out : List SyncAction) : Prop :=
  match m.phase with
  | .initial => False
  | .pullingInitial | .pullingFollowup => out = [m.fetch]
  | .pushing => ∃ mutation, m.pendingMutations[m.mutationIndex]? = some mutation ∧ ready mutation = true ∧
      out = [.sendPush (requestOf mutation)]
  | .complete | .failed => out = []

theorem pull_turn (waiting : Waiting m [.fetchPull after limit]) (clock : Nat → String) (response : PullChangesResponse) :
    ∃ mid before tail, (m.handlePullResponse clock response).2 = before ++ tail ∧
      Booked m (.fetchPull after limit) (.page clock response) mid before ∧
      Turn mid (m.handlePullResponse clock response).1 tail := by
  have pulling : m.phase = .pullingInitial ∨ m.phase = .pullingFollowup := by
    unfold Waiting at waiting
    split at waiting <;> simp_all
  unfold handlePullResponse
  rcases pulling with first | later
  · simp only [first,if_true]
    split
    · exact ⟨_,_,_,rfl,.page (.inl ⟨first,.inl rfl⟩),.again (.inl rfl)⟩
    · exact ⟨_,_,_,rfl,.page (.inl ⟨first,.inr rfl⟩),step_push_turn rfl _⟩
  · simp only [later,if_false,reduceCtorEq]
    split
    · exact ⟨_,_,_,rfl,.page (.inr ⟨later,rfl⟩),.again (.inr rfl)⟩
    · exact ⟨_,_,_,rfl,.page (.inr ⟨later,rfl⟩),.completed _ _⟩

theorem push_turn (pushing : m.phase = .pushing)
    (done : answer m (.sendPush request) a = some (.ok (next,actions))) :
    ∃ mid before tail, actions = before ++ tail ∧ Booked m (.sendPush request) a mid before ∧ Turn mid next tail := by
  cases a with
  | page => cases done
  | accepted now response =>
      simp only [answer,handlePushSuccess,Option.some.injEq] at done
      cases found : m.inFlight request.mutationId with
      | error e => rw [found] at done; cases done
      | ok mutation =>
          rw [found] at done
          cases done
          exact ⟨_,_,_,rfl,.accepted _,step_push_turn (by exact pushing) now⟩
  | conflict now conflictRecord =>
      simp only [answer,handlePushConflict,Option.some.injEq] at done
      cases found : m.inFlight request.mutationId with
      | error e => rw [found] at done; cases done
      | ok mutation =>
          rw [found] at done
          cases done
          by_cases stop : m.stopOnConflict = true
          · simp only [if_pos stop]
            exact ⟨_,_,_,rfl,.conflict,finish_turn _ now⟩
          · simp only [if_neg stop]
            exact ⟨_,_,_,rfl,.conflict,step_push_turn (by exact pushing) now⟩
  | transient =>
      simp only [answer,handlePushTransientError,Option.some.injEq] at done
      cases found : m.inFlight request.mutationId with
      | error e => rw [found] at done; cases done
      | ok mutation =>
          rw [found] at done
          cases done
          exact ⟨_,_,_,rfl,.transient,.halted _⟩
  | fatal error =>
      cases done
      exact ⟨_,_,_,rfl,.fatal,.halted _⟩

theorem open_phase (waiting : Waiting m out) (member : request ∈ out) :
    out = [request] ∧ ((m.phase = .pullingInitial ∨ m.phase = .pullingFollowup) ∧ request = m.fetch ∨
      m.phase = .pushing ∧ ∃ mutation, m.pendingMutations[m.mutationIndex]? = some mutation ∧ ready mutation = true ∧
        request = .sendPush (requestOf mutation)) := by
  unfold Waiting at waiting
  cases phase : m.phase with
  | initial => rw [phase] at waiting; cases waiting
  | pullingInitial =>
      simp only [phase] at waiting
      rw [waiting,List.mem_singleton] at member
      exact ⟨by rw [waiting,member],.inl ⟨.inl rfl,member⟩⟩
  | pullingFollowup =>
      simp only [phase] at waiting
      rw [waiting,List.mem_singleton] at member
      exact ⟨by rw [waiting,member],.inl ⟨.inr rfl,member⟩⟩
  | pushing =>
      simp only [phase] at waiting
      obtain ⟨mutation,found,fit,only⟩ := waiting
      rw [only,List.mem_singleton] at member
      exact ⟨by rw [only,member],.inr ⟨rfl,mutation,found,fit,member⟩⟩
  | complete => simp only [phase] at waiting; rw [waiting] at member; cases member
  | failed => simp only [phase] at waiting; rw [waiting] at member; cases member

theorem send_phase (waiting : Waiting m out) (member : .sendPush request ∈ out) :
    m.phase = .pushing ∧ ∃ mutation, m.pendingMutations[m.mutationIndex]? = some mutation ∧ ready mutation = true ∧
      request = requestOf mutation := by
  rcases (open_phase waiting member).2 with ⟨_,same⟩ | ⟨pushing,mutation,found,fit,same⟩
  · cases same
  · exact ⟨pushing,mutation,found,fit,SyncAction.sendPush.inj same⟩

theorem answer_turn (waiting : Waiting m out) (member : request ∈ out)
    (done : answer m request a = some (.ok (next,actions))) :
    ∃ mid before tail, actions = before ++ tail ∧ Booked m request a mid before ∧ Turn mid next tail := by
  obtain ⟨only,pulling | pushing⟩ := open_phase waiting member
  · obtain ⟨_,rfl⟩ := pulling
    cases a with
    | page clock response =>
        rw [only] at waiting
        have same : m.handlePullResponse clock response = (next,actions) := Except.ok.inj (Option.some.inj done)
        have turn := pull_turn waiting clock response
        rw [same] at turn
        exact turn
    | accepted => cases done
    | conflict => cases done
    | transient => cases done
    | fatal => cases done
  · obtain ⟨phase,mutation,_,_,rfl⟩ := pushing
    exact push_turn phase done

theorem store_changes_actions (clock : Nat → String) (i cursor : Nat) (changes : List ObjectChange)
    (inside : x ∈ (storeChanges clock i cursor changes).1) :
    (∃ object, x = .storeObject object) ∨ ∃ reached, x = .advanceCursor reached := by
  induction changes generalizing i cursor with
  | nil => cases inside
  | cons change rest ih =>
      unfold storeChanges at inside
      split at inside
      · exact ih (i+1) cursor inside
      · rcases List.mem_cons.mp inside with rfl | inside
        · exact .inl ⟨_,rfl⟩
        · rcases List.mem_cons.mp inside with rfl | inside
          · exact .inr ⟨_,rfl⟩
          · exact ih (i+1) change.serverSeq inside

theorem booked_requests (booked : Booked m request a mid actions) : actions.filter isRequest = [] := by
  cases booked with
  | page =>
      refine List.filter_eq_nil_iff.mpr ?_
      intro x inside
      rcases store_changes_actions _ _ _ _ inside with ⟨_,rfl⟩ | ⟨_,rfl⟩ <;> simp [isRequest]
  | accepted => rfl
  | conflict => rfl
  | transient => rfl
  | fatal => rfl

theorem turn_waiting (turn : Turn mid next tail) : Waiting next (tail.filter isRequest) := by
  cases turn with
  | again pulling =>
      unfold Waiting
      rcases pulling with same | same <;> simp [same,fetch,isRequest]
  | @send j mutation summary pushing onward found fit skipped =>
      simp only [Waiting,pushing]
      exact ⟨mutation,found,(Bool.and_eq_true_iff.mp fit).1,rfl⟩
  | halted j => rfl
  | followup j => rfl
  | completed j now => rfl

theorem turn_queue (turn : Turn mid next tail) : next.pendingMutations = mid.pendingMutations := by
  cases turn <;> rfl

theorem booked_queue (booked : Booked m request a mid actions) : mid.pendingMutations = m.pendingMutations := by
  cases booked <;> rfl

-- The open request is the only one, so an answered run goes on with those of
-- its last turn.
theorem answered_out (waiting : Waiting m (before ++ request :: after)) (booked : Booked m request a mid first) :
    before ++ after ++ (first ++ tail).filter isRequest = tail.filter isRequest := by
  have only := (open_phase waiting (List.mem_append_right before List.mem_cons_self)).1
  have length := congrArg List.length only
  simp only [List.length_append,List.length_cons,List.length_nil] at length
  have front : before = [] := List.length_eq_zero_iff.mp (by omega)
  have back : after = [] := List.length_eq_zero_iff.mp (by omega)
  simp [front,back,List.filter_append,booked_requests booked]

theorem run_waiting (run : Run allowed (new c q options) m trace out) : m.pendingMutations = q ∧ Waiting m out := by
  induction run with
  | started => exact ⟨rfl,rfl⟩
  | answered run fits done ih =>
      obtain ⟨mid,first,tail,rfl,booked,turn⟩ := answer_turn ih.2 (by simp) done
      refine ⟨(turn_queue turn).trans ((booked_queue booked).trans ih.1),?_⟩
      rw [answered_out ih.2 booked]
      exact turn_waiting turn

def sends (trace : List SyncAction) : List PushRequest :=
  trace.filterMap (fun | .sendPush request => some request | _ => none)

def advances (trace : List SyncAction) : List Nat :=
  trace.filterMap (fun | .advanceCursor cursor => some cursor | _ => none)

def Updates (action : SyncAction) : Prop := ∃ cursor now, action = .updateSyncState cursor now

def StoresAdvance (trace : List SyncAction) : Prop :=
  ∀ before object after, trace = before ++ .storeObject object :: after →
    ∃ rest, after = .advanceCursor object.serverSeq :: rest

def SendsMarked (trace : List SyncAction) : Prop :=
  ∀ before request after, trace = before ++ .sendPush request :: after →
    ∃ earlier retries, before = earlier ++ [.markMutationInFlight request.mutationId retries]

theorem split_append {α : Type} {xs ys before after : List α} {x : α} (same : xs ++ ys = before ++ x :: after) :
    (∃ rest, xs = before ++ x :: rest ∧ after = rest ++ ys) ∨ ∃ front, before = xs ++ front ∧ ys = front ++ x :: after := by
  rcases List.append_eq_append_iff.mp same with ⟨front,left,right⟩ | ⟨rest,left,right⟩
  · exact .inr ⟨front,left,right⟩
  · cases rest with
    | nil => exact .inr ⟨[],by simpa using left.symm,by simpa using right.symm⟩
    | cons y rest =>
        obtain ⟨rfl,rfl⟩ := List.cons.inj right
        exact .inl ⟨rest,left,rfl⟩

theorem stores_advance_append (one : StoresAdvance xs) (two : StoresAdvance ys) : StoresAdvance (xs ++ ys) := by
  intro before object after same
  rcases split_append same with ⟨rest,left,rfl⟩ | ⟨front,rfl,right⟩
  · obtain ⟨more,rfl⟩ := one _ _ _ left
    exact ⟨more ++ ys,rfl⟩
  · exact two _ _ _ right

theorem sends_marked_append (one : SendsMarked xs) (two : SendsMarked ys) : SendsMarked (xs ++ ys) := by
  intro before request after same
  rcases split_append same with ⟨rest,left,rfl⟩ | ⟨front,rfl,right⟩
  · exact one _ _ _ left
  · obtain ⟨earlier,retries,rfl⟩ := two _ _ _ right
    exact ⟨xs ++ earlier,retries,by simp⟩

theorem no_stores (quiet : ∀ object, .storeObject object ∉ trace) : StoresAdvance trace := by
  intro before object after same
  exact absurd (by rw [same]; simp) (quiet object)

theorem no_sends (quiet : sends trace = []) : SendsMarked trace := by
  intro before request after same
  rw [same] at quiet
  simp [sends,List.filterMap_append] at quiet

-- A page in any order: what is stored is followed by its own sequence, and the
-- sequences go up from the cursor it starts at.
theorem store_changes_spec (clock : Nat → String) (changes : List ObjectChange)
    (positive : ∀ change ∈ changes, 1 ≤ change.serverSeq) (i cursor : Nat) :
    StoresAdvance (storeChanges clock i cursor changes).1 ∧
    (cursor :: advances (storeChanges clock i cursor changes).1).Pairwise (· < ·) ∧
    (storeChanges clock i cursor changes).2.1 = ((advances (storeChanges clock i cursor changes).1).getLast?).getD cursor ∧
    sends (storeChanges clock i cursor changes).1 = [] ∧
    ∀ x ∈ (storeChanges clock i cursor changes).1, ¬Updates x := by
  induction changes generalizing i cursor with
  | nil => exact ⟨no_stores (by simp [storeChanges]),by simp [storeChanges,advances],rfl,rfl,by simp [storeChanges]⟩
  | cons change rest ih =>
      have restPositive := fun x inside => positive x (List.mem_cons_of_mem _ inside)
      by_cases skip : change.serverSeq ≤ cursor ∧ 0 < cursor
      · simp only [storeChanges,if_pos skip]
        exact ih restPositive (i+1) cursor
      · have first := positive change List.mem_cons_self
        have above : cursor < change.serverSeq := by omega
        obtain ⟨stores,rising,last,quiet,unsettled⟩ := ih restPositive (i+1) change.serverSeq
        simp only [storeChanges,if_neg skip]
        generalize storeChanges clock (i+1) change.serverSeq rest = page at stores rising last quiet unsettled
        have listed : advances (.storeObject (storedOf change (clock i)) :: .advanceCursor change.serverSeq :: page.1) =
            change.serverSeq :: advances page.1 := rfl
        refine ⟨?_,?_,?_,quiet,?_⟩
        · intro before object after same
          cases before with
          | nil =>
              obtain ⟨head,tail⟩ := List.cons.inj same
              cases head
              exact ⟨page.1,tail.symm⟩
          | cons x before =>
              cases before with
              | nil => cases same
              | cons y before =>
                  simp only [List.cons_append,List.cons.injEq] at same
                  exact stores before object after same.2.2
        · rw [listed]
          refine List.pairwise_cons.mpr ⟨?_,rising⟩
          intro x inside
          rcases List.mem_cons.mp inside with rfl | later
          · exact above
          · exact Nat.lt_trans above ((List.pairwise_cons.mp rising).1 x later)
        · rw [listed,last,List.getLast?_cons]
          rfl
        · intro x inside
          rcases List.mem_cons.mp inside with rfl | inside
          · rintro ⟨_,_,same⟩; cases same
          · rcases List.mem_cons.mp inside with rfl | inside
            · rintro ⟨_,_,same⟩; cases same
            · exact unsettled x inside

-- Pages as the claim about cursors needs them: every sequence is at least one.
def Answer.Sequenced : Answer → Prop
  | .page _ response => ∀ change ∈ response.changes, 1 ≤ change.serverSeq
  | _ => True

-- What the requests sent so far may be, with `bound` entries of the queue used.
def SentBelow (q : List PendingMutation) (m : SyncStateMachine) (bound : Nat) (trace : List SyncAction) : Prop :=
  match m.phase with
  | .pullingInitial => sends trace = []
  | .pushing => (sends trace).Sublist ((q.take bound).map requestOf)
  | _ => (sends trace).Sublist (q.map requestOf)

structure Kept (c : Nat) (q : List PendingMutation) (m : SyncStateMachine) (trace : List SyncAction) : Prop where
  queue : m.pendingMutations = q
  stores : StoresAdvance trace
  rising : (c :: advances trace).Pairwise (· < ·)
  cursor : m.currentCursor = ((advances trace).getLast?).getD c
  marked : SendsMarked trace

-- Between booking an answer and emitting the next request.
structure Midway (c : Nat) (q : List PendingMutation) (m : SyncStateMachine) (trace : List SyncAction) : Prop
    extends Kept c q m trace where
  sent : SentBelow q m m.mutationIndex trace
  unsettled : ∀ x ∈ trace, ¬Updates x

structure Sound (c : Nat) (q : List PendingMutation) (m : SyncStateMachine) (trace : List SyncAction) : Prop
    extends Kept c q m trace where
  sent : SentBelow q m (m.mutationIndex+1) trace
  unsettled : m.phase ≠ .complete → ∀ x ∈ trace, ¬Updates x
  settled : m.phase = .complete →
    ∃ before now, trace = before ++ [.updateSyncState m.currentCursor now] ∧ ∀ x ∈ before, ¬Updates x

theorem sent_weaken (sent : SentBelow q m bound trace) : (sends trace).Sublist (q.map requestOf) := by
  unfold SentBelow at sent
  split at sent
  · rw [sent]; exact List.nil_sublist _
  · exact sent.trans ((List.take_sublist _ _).map _)
  · exact sent

theorem sends_append (xs ys : List SyncAction) : sends (xs ++ ys) = sends xs ++ sends ys := List.filterMap_append
theorem advances_append (xs ys : List SyncAction) : advances (xs ++ ys) = advances xs ++ advances ys := List.filterMap_append

-- Actions that store nothing and move no cursor keep what is said about both.
theorem kept_append (kept : Kept c q m trace) (queue : next.pendingMutations = m.pendingMutations)
    (cursor : next.currentCursor = m.currentCursor) (quiet : ∀ object, .storeObject object ∉ actions)
    (still : advances actions = []) (marked : SendsMarked actions) : Kept c q next (trace ++ actions) := by
  refine ⟨queue.trans kept.queue,stores_advance_append kept.stores (no_stores quiet),?_,?_,
    sends_marked_append kept.marked marked⟩
  · rw [advances_append,still,List.append_nil]; exact kept.rising
  · rw [advances_append,still,List.append_nil,cursor]; exact kept.cursor

theorem rising_append (one : (c :: xs).Pairwise (· < ·)) (two : ((xs.getLast?.getD c) :: ys).Pairwise (· < ·)) :
    (c :: (xs ++ ys)).Pairwise ((· < ·) : Nat → Nat → Prop) := by
  induction xs generalizing c with
  | nil => exact two
  | cons x xs ih =>
      obtain ⟨above,rest⟩ := List.pairwise_cons.mp one
      have later : (x :: (xs ++ ys)).Pairwise (· < ·) := ih rest (by rw [List.getLast?_cons] at two; exact two)
      refine List.pairwise_cons.mpr ⟨?_,later⟩
      intro y inside
      have first := above x List.mem_cons_self
      rcases List.mem_cons.mp inside with rfl | inside
      · exact first
      · exact Nat.lt_trans first ((List.pairwise_cons.mp later).1 y inside)

theorem last_advance (xs ys : List Nat) (c : Nat) : (xs ++ ys).getLast?.getD c = ys.getLast?.getD (xs.getLast?.getD c) := by
  rw [List.getLast?_append]
  cases ys.getLast? <;> rfl

theorem unsettled_append {trace actions : List SyncAction} (one : ∀ x ∈ trace, ¬Updates x) (two : ∀ x ∈ actions, ¬Updates x) :
    ∀ x ∈ trace ++ actions, ¬Updates x := by
  intro x inside
  rcases List.mem_append.mp inside with old | new
  · exact one x old
  · exact two x new

theorem sent_quiet {actions : List SyncAction} (same : next.phase = m.phase) (quiet : sends actions = []) (sent : SentBelow q m bound trace) :
    SentBelow q next bound (trace ++ actions) := by
  unfold SentBelow at sent ⊢
  rw [sends_append,quiet,List.append_nil,same]
  exact sent

theorem booked_sends (booked : Booked m request a mid actions) : sends actions = [] := by
  have none := List.filter_eq_nil_iff.mp (booked_requests booked)
  refine List.filterMap_eq_nil_iff.mpr ?_
  intro x inside
  cases x with
  | sendPush request => exact absurd rfl (none _ inside)
  | _ => rfl

theorem booked_sent (booked : Booked m request a mid actions) (sent : SentBelow q m (m.mutationIndex+1) trace) :
    SentBelow q mid mid.mutationIndex (trace ++ actions) := by
  have quiet := booked_sends booked
  cases booked with
  | @page stage _ _ clock response _ _ pulling =>
      unfold SentBelow at sent ⊢
      rw [sends_append,quiet,List.append_nil]
      rcases pulling with ⟨phase,rfl | rfl⟩ | ⟨phase,rfl⟩
      · simpa [phase] using sent
      · simp only [phase] at sent
        simp only [sent]
        exact List.nil_sublist _
      · simpa [phase] using sent
  | accepted stored => exact sent_quiet (m := m) rfl quiet sent
  | conflict => exact sent_quiet (m := m) rfl quiet sent
  | transient => simpa [SentBelow,sends_append,sends] using sent_weaken sent
  | fatal => simpa [SentBelow,sends_append,sends] using sent_weaken sent

theorem turn_sent (turn : Turn mid next tail) (queue : mid.pendingMutations = q) (sent : SentBelow q mid mid.mutationIndex trace) :
    SentBelow q next (next.mutationIndex+1) (trace ++ tail) := by
  cases turn with
  | again pulling =>
      have more : SentBelow _ _ _ (trace ++ [mid.fetch]) := sent_quiet rfl rfl sent
      unfold SentBelow at more ⊢
      rcases pulling with same | same <;> simpa [same] using more
  | @send j mutation summary pushing onward found fit skipped =>
      have inside : q[j]? = some mutation := queue ▸ found
      simp only [SentBelow,pushing] at sent ⊢
      rw [sends_append,List.take_add_one,inside,List.map_append]
      exact (sent.trans ((List.take_sublist_take_left onward).map _)).append (List.Sublist.refl _)
  | halted j => simpa [SentBelow] using sent_weaken sent
  | followup j => simpa [SentBelow,sends_append,sends,fetch] using sent_weaken sent
  | completed j now => simpa [SentBelow,sends_append,sends] using sent_weaken sent

-- Whatever the driver answers, requests go out in the order of the queue.
theorem run_sent (run : Run allowed (new c q options) m trace out) : SentBelow q m (m.mutationIndex+1) trace := by
  induction run with
  | started => rfl
  | @answered m trace before request after a next actions run fits done sent =>
      obtain ⟨queue,waiting⟩ := run_waiting run
      have member : request ∈ before ++ request :: after := by simp
      obtain ⟨mid,first,tail,rfl,booked,turn⟩ := answer_turn waiting member done
      rw [← List.append_assoc]
      exact turn_sent turn ((booked_queue booked).trans queue) (booked_sent booked sent)

theorem booked_midway (sequenced : a.Sequenced) (sound : Sound c q m trace) (waiting : Waiting m out) (member : request ∈ out)
    (booked : Booked m request a mid actions) : Midway c q mid (trace ++ actions) := by
  have running : m.phase ≠ .complete := by
    intro complete
    rcases (open_phase waiting member).2 with ⟨first | later,_⟩ | ⟨pushing,_⟩
    · rw [complete] at first; cases first
    · rw [complete] at later; cases later
    · rw [complete] at pushing; cases pushing
  have unsettled := sound.unsettled running
  have sent := booked_sent booked sound.sent
  cases booked with
  | @page stage _ _ clock response _ _ pulling =>
      obtain ⟨stores,rising,last,quiet,none⟩ := store_changes_spec clock response.changes sequenced 0 m.currentCursor
      rw [sound.cursor] at rising last
      refine ⟨⟨sound.queue,stores_advance_append sound.stores ?_,?_,?_,sends_marked_append sound.marked (no_sends quiet)⟩,
        sent,unsettled_append unsettled none⟩
      · exact stores
      · rw [advances_append,sound.cursor]
        exact rising_append sound.rising rising
      · rw [advances_append,last_advance]
        simp only
        rw [sound.cursor]
        exact last
  | accepted stored =>
      exact ⟨kept_append sound.toKept rfl rfl (by simp) rfl (no_sends rfl),sent,unsettled_append unsettled (by simp [Updates])⟩
  | conflict =>
      exact ⟨kept_append sound.toKept rfl rfl (by simp) rfl (no_sends rfl),sent,unsettled_append unsettled (by simp [Updates])⟩
  | transient =>
      exact ⟨kept_append sound.toKept rfl rfl (by simp) rfl (no_sends rfl),sent,unsettled_append unsettled (by simp [Updates])⟩
  | fatal =>
      exact ⟨kept_append sound.toKept rfl rfl (by simp) rfl (no_sends rfl),sent,unsettled_append unsettled (by simp [Updates])⟩

theorem turn_sound (midway : Midway c q mid trace) (turn : Turn mid next tail) :
    Sound c q next (trace ++ tail) := by
  have sent := turn_sent turn midway.queue midway.sent
  cases turn with
  | again pulling =>
      have phase : mid.phase ≠ .complete := by rcases pulling with same | same <;> simp [same]
      refine ⟨kept_append midway.toKept rfl rfl (by simp [fetch]) rfl (no_sends rfl),sent,?_,fun done => absurd done phase⟩
      intro _
      exact unsettled_append midway.unsettled (by simp [Updates,fetch])
  | @send j mutation summary pushing onward found fit skipped =>
      refine ⟨kept_append midway.toKept rfl rfl (by simp) rfl ?_,sent,?_,?_⟩
      · intro before request after same
        rcases before with _ | ⟨first,_ | ⟨second,more⟩⟩
        · cases same
        · simp only [List.cons_append,List.nil_append,List.cons.injEq] at same
          obtain ⟨rfl,sent,_⟩ := same
          cases sent
          exact ⟨[],_,rfl⟩
        · simp at same
      · intro _
        exact unsettled_append midway.unsettled (by simp [Updates])
      · intro done
        simp only [pushing] at done
        cases done
  | halted j =>
      refine ⟨kept_append midway.toKept rfl rfl (by simp) rfl (no_sends rfl),sent,?_,?_⟩
      · intro _
        simpa using midway.unsettled
      · intro done
        cases done
  | followup j =>
      refine ⟨kept_append midway.toKept rfl rfl (by simp [fetch]) rfl (no_sends rfl),sent,?_,?_⟩
      · intro _
        exact unsettled_append midway.unsettled (by simp [Updates,fetch])
      · intro done
        cases done
  | completed j now =>
      refine ⟨kept_append midway.toKept rfl rfl (by simp) rfl (no_sends rfl),sent,?_,?_⟩
      · intro running
        exact absurd rfl running
      · intro _
        exact ⟨trace,now,rfl,midway.unsettled⟩

theorem started_sound (c : Nat) (q : List PendingMutation) (options : SyncStateMachineOptions) :
    Sound c q (new c q options).start.1 (new c q options).start.2 := by
  refine ⟨⟨rfl,no_stores (by simp [start,fetch]),List.pairwise_singleton _ _,rfl,no_sends rfl⟩,rfl,?_,?_⟩
  · intro _
    simp [start,fetch,Updates]
  · intro done
    cases done

theorem run_sound (run : Run (fun _ a => a.Sequenced) (new c q options) m trace out) : Sound c q m trace := by
  induction run with
  | started => exact started_sound c q options
  | @answered m trace before request after a next actions run fits done sound =>
      have waiting := (run_waiting run).2
      have member : request ∈ before ++ request :: after := by simp
      obtain ⟨mid,first,tail,rfl,booked,turn⟩ := answer_turn waiting member done
      rw [← List.append_assoc]
      exact turn_sound (booked_midway fits sound waiting member booked) turn

theorem emission_invariants (c : Nat) (q : List PendingMutation) (options : SyncStateMachineOptions)
    (run : Run (fun _ a => a.Sequenced) (new c q options) m trace out) :
    (∀ before object after, trace = before ++ .storeObject object :: after →
      ∃ rest, after = .advanceCursor object.serverSeq :: rest) ∧
    (c :: advances trace).Pairwise (· < ·) ∧
    (∀ before request after, trace = before ++ .sendPush request :: after →
      ∃ earlier retries, before = earlier ++ [.markMutationInFlight request.mutationId retries]) ∧
    (sends trace).Sublist (q.map requestOf) ∧
    (∀ before cursor now after, trace = before ++ .updateSyncState cursor now :: after →
      after = [] ∧ cursor = ((advances trace).getLast?).getD c ∧ ∀ x ∈ before, ¬Updates x) ∧
    (m.phase = .complete ∨ m.phase = .failed → out = []) := by
  have sound := run_sound run
  refine ⟨sound.stores,sound.rising,sound.marked,sent_weaken sound.sent,?_,?_⟩
  · intro before cursor now after same
    have inside : .updateSyncState cursor now ∈ trace := by rw [same]; simp
    by_cases complete : m.phase = .complete
    · obtain ⟨front,last,whole,quiet⟩ := sound.settled complete
      rw [same] at whole
      rcases split_append whole.symm with ⟨rest,left,_⟩ | ⟨middle,rfl,right⟩
      · exact absurd ⟨cursor,now,rfl⟩ (quiet _ (by rw [left]; simp))
      · rcases middle with _ | ⟨x,middle⟩
        · simp only [List.nil_append,List.cons.injEq,SyncAction.updateSyncState.injEq] at right
          obtain ⟨⟨rfl,_⟩,rfl⟩ := right
          exact ⟨rfl,sound.cursor,by simpa using quiet⟩
        · simp at right
    · exact absurd ⟨cursor,now,rfl⟩ (sound.unsettled complete _ inside)
  · intro ended
    have waiting := (run_waiting run).2
    unfold Waiting at waiting
    rcases ended with phase | phase <;> simpa only [phase] using waiting

-- A driver that always answers the oldest open request.
def drive (m : SyncStateMachine) (trace out : List SyncAction) :
    List Answer → Option (SyncStateMachine × List SyncAction × List SyncAction)
  | [] => some (m,trace,out)
  | a :: answers =>
    match out with
    | [] => none
    | request :: later =>
      match answer m request a with
      | some (.ok (next,actions)) => drive next (trace ++ actions) (later ++ actions.filter isRequest) answers
      | _ => none

theorem drive_run (answers : List Answer) (run : Run allowed m₀ m trace out) (fits : ∀ a ∈ answers, ∀ request, allowed request a)
    (driven : drive m trace out answers = some (m',trace',out')) : Run allowed m₀ m' trace' out' := by
  induction answers generalizing m trace out with
  | nil =>
      cases driven
      exact run
  | cons a answers ih =>
      unfold drive at driven
      split at driven
      · cases driven
      · rename_i request later
        split at driven
        · rename_i next actions done
          have step := @Run.answered _ _ _ _ [] _ _ _ _ _ run (fits a List.mem_cons_self request) done
          exact ih step (fun x inside => fits x (List.mem_cons_of_mem _ inside)) driven
        · cases driven

-- A page with a duplicate and one row behind the cursor, then one accepted push.
def mixedPage : PullChangesResponse :=
  ⟨[⟨5,secondNote,1,objectKindNote,false,sealedText secondNote "bbbb"⟩,
    ⟨5,secondNote,1,objectKindNote,false,sealedText secondNote "bbbb"⟩,
    ⟨2,secondNote,1,objectKindNote,false,sealedText secondNote "bbbb"⟩],5,false⟩

def oneEdit : SyncStateMachine := new 3 [queued change1 firstNote 0 .pending "aaaa" "t1"] .default

theorem mixed_run_emissions :
    ∃ m trace, Run (fun _ a => a.Sequenced) oneEdit m trace [.fetchPull 5 50] ∧
      advances trace = [5] ∧ (sends trace).length = 1 ∧ (3 :: advances trace).Pairwise (· < ·) := by
  have run : Run (fun _ a => a.Sequenced) oneEdit _ _ _ :=
    drive_run [.page (fun _ => "t2") mixedPage,.accepted "t2" ⟨firstNote,1,6⟩]
      .started (by simp [Answer.Sequenced,mixedPage]) rfl
  have facts := emission_invariants 3 [queued change1 firstNote 0 .pending "aaaa" "t1"] .default run
  exact ⟨_,_,run,rfl,rfl,facts.2.1⟩

end ZkNote.StateMachineRuns
