import ZkNote.StateMachineRuns

namespace ZkNote.DependencyGating
open Protocol LocalStorage StateMachine SyncStateMachine StateMachineRuns

variable {m mid next : SyncStateMachine}

def Acked (trace : List SyncAction) (mutationId : String) : Prop :=
  ∃ object, .acknowledgeAccepted object mutationId ∈ trace

-- Whenever a mutation is sent, every earlier one of its object in the queue has
-- been acknowledged before.
def Gated (q : List PendingMutation) (trace : List SyncAction) : Prop :=
  ∀ (i j : Nat) (x y : PendingMutation) before request after, i < j → q[i]? = some x → q[j]? = some y →
    x.objectId = y.objectId → trace = before ++ .sendPush request :: after → request.mutationId = y.mutationId →
    Acked before x.mutationId

-- A driver whose conflict records name the object of the mutation in flight.
def Named : SyncAction → Answer → Prop
  | .sendPush request,.conflict _ conflictRecord => conflictRecord.objectId = request.objectId
  | _,_ => True

def NoFailedAhead (q : List PendingMutation) : Prop :=
  ∀ (i j : Nat) (x y : PendingMutation), i < j → q[i]? = some x → q[j]? = some y →
    x.objectId = y.objectId → ready y = true → x.status ≠ .failed

theorem acked_append (acked : Acked trace mutationId) (more : List SyncAction) : Acked (trace ++ more) mutationId := by
  obtain ⟨object,inside⟩ := acked
  exact ⟨object,List.mem_append_left _ inside⟩

theorem gated_append (gated : Gated q trace)
    (new : ∀ (i j : Nat) (x y : PendingMutation) front request after, i < j → q[i]? = some x → q[j]? = some y →
      x.objectId = y.objectId → actions = front ++ .sendPush request :: after → request.mutationId = y.mutationId →
      Acked (trace ++ front) x.mutationId) : Gated q (trace ++ actions) := by
  intro i j x y before request after less first second object same named
  rcases split_append same with ⟨rest,left,_⟩ | ⟨front,rfl,right⟩
  · exact gated i j x y before request rest less first second object left named
  · exact new i j x y front request after less first second object right named

theorem gated_quiet (gated : Gated q trace) (quiet : sends actions = []) : Gated q (trace ++ actions) := by
  apply gated_append gated
  intro i j x y front request after _ _ _ _ same _
  rw [same] at quiet
  simp [sends,List.filterMap_append] at quiet

-- Every entry the index has passed is acknowledged, gated by its object, or
-- one that the loop never looks at.
def Passed (q : List PendingMutation) (m : SyncStateMachine) (trace : List SyncAction) : Prop :=
  ∀ (i : Nat) (x : PendingMutation), i < m.mutationIndex → q[i]? = some x →
    x.status = .failed ∨ x.objectId ∈ m.conflictedObjects ∨ Acked trace x.mutationId

-- Before the push phase the index has not moved; after it nothing is sent.
def Behind (q : List PendingMutation) (m : SyncStateMachine) (trace : List SyncAction) : Prop :=
  match m.phase with
  | .pullingInitial => m.mutationIndex = 0
  | .pushing => Passed q m trace
  | _ => True

-- The index passes the mutation in flight once that is gated or acknowledged.
theorem passed_next {mutation : PendingMutation} (passed : Passed q m trace) (queue : m.pendingMutations = q)
    (found : m.pendingMutations[m.mutationIndex]? = some mutation) (index : mid.mutationIndex = m.mutationIndex+1)
    (gated : ∀ objectId ∈ m.conflictedObjects, objectId ∈ mid.conflictedObjects) (more : List SyncAction)
    (done : mutation.objectId ∈ mid.conflictedObjects ∨ Acked (trace ++ more) mutation.mutationId) : Passed q mid (trace ++ more) := by
  intro i x low present
  rw [index] at low
  rcases Nat.lt_succ_iff_lt_or_eq.mp low with old | rfl
  · rcases passed i x old present with failed | behind | acked
    · exact .inl failed
    · exact .inr (.inl (gated _ behind))
    · exact .inr (.inr (acked_append acked more))
  · rw [queue,present] at found
    cases found
    exact .inr done

theorem booked_behind (waiting : Waiting m out) (member : request ∈ out) (queue : m.pendingMutations = q)
    (named : Named request a) (behind : Behind q m trace) (booked : Booked m request a mid actions) :
    Behind q mid (trace ++ actions) := by
  cases booked with
  | @page stage _ _ clock response _ _ pulling =>
      unfold Behind at behind ⊢
      rcases pulling with ⟨phase,rfl | rfl⟩ | ⟨phase,rfl⟩
      · simpa only [phase] using behind
      · simp only [phase] at behind
        intro i x low _
        simp only [behind] at low
        omega
      · trivial
  | @accepted request now response summary stored =>
      obtain ⟨pushing,mutation,found,_,rfl⟩ := send_phase waiting member
      simp only [Behind,pushing] at behind ⊢
      apply passed_next behind queue found
      · rfl
      · exact fun _ inside => inside
      · exact .inr ⟨stored,by simp [requestOf]⟩
  | @conflict request now conflictRecord summary =>
      obtain ⟨pushing,mutation,found,_,rfl⟩ := send_phase waiting member
      simp only [Behind,pushing] at behind ⊢
      have same : conflictRecord.objectId = mutation.objectId := named
      apply passed_next behind queue found
      · rfl
      · exact fun _ inside => List.mem_cons_of_mem _ inside
      · exact .inl (by simp [same])
  | transient => trivial
  | fatal => trivial

theorem unready_failed (unready : ready x = false) : x.status = .failed := by
  cases status : x.status <;> simp [ready,status] at unready ⊢

theorem ineligible_cases (unfit : m.eligible x = false) : x.status = .failed ∨ x.objectId ∈ m.conflictedObjects := by
  cases fit : ready x with
  | false => exact .inl (unready_failed fit)
  | true => right; simpa [eligible,fit] using unfit

theorem turn_gated (unique : (q.map (·.mutationId)).Nodup) (clear : NoFailedAhead q) (queue : mid.pendingMutations = q)
    (gated : Gated q trace) (behind : Behind q mid trace) (turn : Turn mid next tail) :
    Gated q (trace ++ tail) ∧ Behind q next (trace ++ tail) := by
  cases turn with
  | again pulling =>
      refine ⟨gated_quiet gated rfl,?_⟩
      unfold Behind at behind ⊢
      rcases pulling with phase | phase
      · simpa only [phase] using behind
      · simp only [phase]
  | @send j mutation summary pushing onward found fit skipped =>
      have present : q[j]? = some mutation := queue ▸ found
      simp only [Behind,pushing] at behind
      have passed : ∀ (i : Nat) x, i < j → q[i]? = some x →
          x.status = .failed ∨ x.objectId ∈ mid.conflictedObjects ∨ Acked trace x.mutationId := by
        intro i x low inside
        by_cases old : i < mid.mutationIndex
        · exact behind i x old inside
        · rcases ineligible_cases (skipped i x (by omega) low (queue ▸ inside)) with failed | gate
          · exact .inl failed
          · exact .inr (.inl gate)
      have able := Bool.and_eq_true_iff.mp fit
      constructor
      · apply gated_append gated
        intro i k x y front request after less first second object same name
        rcases front with _ | ⟨mark,_ | ⟨z,front⟩⟩
        · cases same
        · simp only [List.cons_append,List.nil_append,List.cons.injEq] at same
          obtain ⟨rfl,sent,_⟩ := same
          cases sent
          -- ids are unique, so the entry sent is the one at `j`
          have place : k = j := by
            obtain ⟨boundK,_⟩ := List.getElem?_eq_some_iff.mp second
            have named : (q.map (·.mutationId))[k]? = (q.map (·.mutationId))[j]? := by
              simp only [List.getElem?_map,second,present]
              exact congrArg some name.symm
            exact (List.getElem?_inj (by simpa using boundK) unique).mp named
          subst place
          rw [second] at present
          cases present
          rcases passed i x less first with failed | gate | acked
          · exact absurd failed (clear i k x mutation less first second object able.1)
          · rw [object] at gate
            simp [gate] at able
          · exact acked_append acked _
        · simp at same
      · simp only [Behind,pushing]
        intro i x low inside
        rcases passed i x low inside with failed | gate | acked
        · exact .inl failed
        · exact .inr (.inl gate)
        · exact .inr (.inr (acked_append acked _))
  | halted j => exact ⟨by simpa using gated,trivial⟩
  | followup j => exact ⟨gated_quiet gated rfl,trivial⟩
  | completed j now => exact ⟨gated_quiet gated rfl,trivial⟩

theorem run_gated (unique : (q.map (·.mutationId)).Nodup) (clear : NoFailedAhead q)
    (run : Run Named (new c q options) m trace out) : Gated q trace ∧ Behind q m trace := by
  induction run with
  | started =>
      refine ⟨?_,rfl⟩
      intro i j x y before request after _ _ _ _ same _
      have inside : .sendPush request ∈ (new c q options).start.2 := by rw [same]; simp
      simp [start,fetch] at inside
  | @answered m trace before request after a next actions run fits done ih =>
      obtain ⟨queue,waiting⟩ := run_waiting run
      have member : request ∈ before ++ request :: after := by simp
      obtain ⟨mid,first,tail,rfl,booked,turn⟩ := answer_turn waiting member done
      rw [← List.append_assoc]
      exact turn_gated unique clear ((booked_queue booked).trans queue) (gated_quiet ih.1 (booked_sends booked))
        (booked_behind waiting member queue fits ih.2 booked) turn

-- Only ready entries are ever acknowledged.
theorem run_acked (run : Run allowed (new c q options) m trace out) (acked : Acked trace mutationId) :
    ∃ x ∈ q, ready x = true ∧ x.mutationId = mutationId := by
  induction run with
  | started =>
      obtain ⟨object,inside⟩ := acked
      simp [start,fetch] at inside
  | @answered m trace before request after a next actions run fits done ih =>
      obtain ⟨queue,waiting⟩ := run_waiting run
      have member : request ∈ before ++ request :: after := by simp
      obtain ⟨mid,first,tail,rfl,booked,turn⟩ := answer_turn waiting member done
      obtain ⟨object,inside⟩ := acked
      rcases List.mem_append.mp inside with old | new
      · exact ih ⟨object,old⟩
      · rcases List.mem_append.mp new with booking | emitted
        · cases booked with
          | page => rcases store_changes_actions _ _ _ _ booking with ⟨_,same⟩ | ⟨_,same⟩ <;> cases same
          | @accepted request now response summary stored =>
              obtain ⟨_,mutation,found,fit,rfl⟩ := send_phase waiting member
              simp only [List.mem_singleton,SyncAction.acknowledgeAccepted.injEq] at booking
              exact ⟨mutation,List.mem_of_getElem? (queue ▸ found),fit,booking.2.symm⟩
          | conflict => simp at booking
          | transient => simp at booking
          | fatal => simp at booking
        · cases turn <;> simp [fetch] at emitted

theorem step_push_reaches (found : m.pendingMutations[j]? = some y) (fit : m.eligible y = true) (low : m.mutationIndex ≤ j)
    (now : String) :
    ∃ k mutation summary, m.mutationIndex ≤ k ∧ k ≤ j ∧ m.pendingMutations[k]? = some mutation ∧
      m.stepPush now = ({m with mutationIndex := k,push := summary},
        [.markMutationInFlight mutation.mutationId (mutation.retryCount+1),.sendPush (requestOf mutation)]) := by
  obtain ⟨d,rfl⟩ := Nat.exists_eq_add_of_le low
  have dropped : (m.pendingMutations.drop m.mutationIndex)[d]? = some y := by rw [List.getElem?_drop]; exact found
  obtain ⟨bound,value⟩ := List.getElem?_eq_some_iff.mp dropped
  have near : (m.pendingMutations.drop m.mutationIndex).findIdx m.eligible ≤ d := by
    apply Nat.le_of_not_lt
    intro far
    have unfit := List.not_of_lt_findIdx far
    rw [value] at unfit
    simp [fit] at unfit
  have inside : m.mutationIndex + (m.pendingMutations.drop m.mutationIndex).findIdx m.eligible < m.pendingMutations.length := by
    simp only [List.length_drop] at bound
    omega
  refine ⟨_,m.pendingMutations.get ⟨_,inside⟩,{m.push with totalAttempted := m.push.totalAttempted+1},Nat.le_add_right _ _,Nat.add_le_add_left near _,?_,?_⟩
  · exact List.getElem?_eq_getElem inside
  · simp only [stepPush,List.getElem?_eq_getElem inside]
    rfl

-- While every push is accepted nothing is gated, so each ready entry gets sent.
theorem accepted_reaches (m₀ : SyncStateMachine) (fit : ready y = true) (target : q[j]? = some y) (n : Nat) :
    ∀ (m : SyncStateMachine) (x : PendingMutation) (trace : List SyncAction), j - m.mutationIndex ≤ n → m.mutationIndex ≤ j →
      m.phase = .pushing → m.conflictedObjects = [] → m.pendingMutations = q → q[m.mutationIndex]? = some x →
      Run Named m₀ m (trace ++ [.sendPush (requestOf x)]) [.sendPush (requestOf x)] →
      ∃ m' trace', Run Named m₀ m' (trace' ++ [.sendPush (requestOf y)]) [.sendPush (requestOf y)] := by
  induction n with
  | zero =>
      intro m x trace left low _ _ _ found run
      have place : m.mutationIndex = j := by omega
      rw [place,target] at found
      cases found
      exact ⟨m,trace,run⟩
  | succ n ih =>
      intro m x trace left low pushing free queue found run
      by_cases place : m.mutationIndex = j
      · rw [place,target] at found
        cases found
        exact ⟨m,trace,run⟩
      · let mid : SyncStateMachine := {m with
          push := {m.push with accepted := m.push.accepted ++ [⟨x.objectId,0,0⟩]}
          mutationIndex := m.mutationIndex+1}
        have able : mid.eligible y = true := by simp [eligible,mid,free,fit]
        obtain ⟨k,z,summary,up,down,next,stepped⟩ := step_push_reaches (m := mid) (j := j) (by rw [← target,← queue]) able
          (by simp only [mid]; omega) ""
        let ack : SyncAction := .acknowledgeAccepted
          ⟨x.objectId,x.objectKind,0,0,decide (x.mutationType = .delete),x.envelope,""⟩ (requestOf x).mutationId
        have held : m.inFlight (requestOf x).mutationId = .ok x := by simp [inFlight,queue,found,requestOf]
        have done : answer m (.sendPush (requestOf x)) (.accepted "" ⟨x.objectId,0,0⟩) =
            some (.ok ((mid.stepPush "").1,ack :: (mid.stepPush "").2)) := by
          simp only [answer,handlePushSuccess,held]
          rfl
        rw [stepped] at done
        have further := @Run.answered _ _ _ _ [] _ [] _ _ _ run (by trivial) done
        have up : m.mutationIndex + 1 ≤ k := up
        refine ih {mid with mutationIndex := k,push := summary} z
          (trace ++ [.sendPush (requestOf x),ack,.markMutationInFlight z.mutationId (z.retryCount+1)])
          (by simp only; omega) (by simpa using down) pushing free queue (queue ▸ next) ?_
        simpa [isRequest,ack,List.filter_singleton] using further

theorem failed_ahead_breaks {i j : Nat} {x y : PendingMutation} (unique : (q.map (·.mutationId)).Nodup) (less : i < j) (first : q[i]? = some x)
    (second : q[j]? = some y) (object : x.objectId = y.objectId) (fit : ready y = true) (failed : x.status = .failed)
    (c : Nat) (options : SyncStateMachineOptions) :
    ∃ m trace out, Run Named (new c q options) m trace out ∧ ¬Gated q trace := by
  let mid : SyncStateMachine := {(new c q options).start.1 with
    phase := .pushing
    initialPull := countPage (.at c) 0 0 c}
  obtain ⟨k,z,summary,_,down,next,stepped⟩ := step_push_reaches (m := mid) (j := j) second
    (by simp [eligible,mid,start,new,fit]) (Nat.zero_le _) ""
  have done : answer (new c q options).start.1 (new c q options).fetch (.page (fun _ => "") ⟨[],c,false⟩) =
      some (.ok (mid.stepPush "")) := rfl
  rw [stepped] at done
  have run := @Run.answered Named _ _ _ [] _ [] _ _ _ .started (by trivial) done
  obtain ⟨m',trace',reached⟩ := accepted_reaches (new c q options) fit second j
    {mid with mutationIndex := k,push := summary} z
    [.resetInFlightMutations,(new c q options).fetch,.markMutationInFlight z.mutationId (z.retryCount+1)]
    (Nat.sub_le _ _) down rfl rfl rfl next (by simpa [isRequest,start,fetch,List.filter_singleton] using run)
  refine ⟨_,_,_,reached,?_⟩
  intro gated
  have acked := gated i j x y trace' (requestOf y) [] less first second object rfl rfl
  obtain ⟨z,inside,able,same⟩ := run_acked reached (acked_append acked _)
  have equal : z = x := List.inj_on_of_nodup_map unique inside (List.mem_of_getElem? first) same
  simp [equal,ready,failed] at able

theorem gating_iff (c : Nat) (q : List PendingMutation) (options : SyncStateMachineOptions)
    (unique : (q.map (·.mutationId)).Nodup) :
    (∀ m trace out, Run Named (new c q options) m trace out → Gated q trace) ↔ NoFailedAhead q := by
  constructor
  · intro gated i j x y less first second object fit failed
    obtain ⟨m,trace,out,run,broken⟩ := failed_ahead_breaks unique less first second object fit failed c options
    exact broken (gated m trace out run)
  · intro clear m trace out run
    exact (run_gated unique clear run).1

def twoEdits : List PendingMutation :=
  [queued change1 firstNote 1 .pending "aaaa" "t1",queued change2 firstNote 2 .pending "bbbb" "t2"]

theorem two_edits_gated :
    NoFailedAhead twoEdits ∧ ∀ m trace out, Run Named (new 0 twoEdits .default) m trace out → Gated twoEdits trace := by
  have clear : NoFailedAhead twoEdits := by
    intro i j x y _ first _ _ _ failed
    have pending : ∀ z ∈ twoEdits, z.status = .pending := by decide
    rw [pending x (List.mem_of_getElem? first)] at failed
    cases failed
  exact ⟨clear,(gating_iff 0 twoEdits .default (by decide)).mpr clear⟩

def failedAhead : List PendingMutation :=
  [queued change1 firstNote 1 .failed "aaaa" "t1",queued change2 firstNote 2 .pending "bbbb" "t2"]

-- A record of the same conflict that names another object.
def strayRecord : ConflictRecord :=
  { conflictId := change3,objectId := secondNote,objectKind := objectKindNote,baseRevision := 1,remoteRevision := 2,
    baseEnvelope := none,localEnvelope := sealedText firstNote "aaaa",remoteEnvelope := sealedText firstNote "cccc",
    candidateEnvelope := none,resolved := false,remoteIsDeleted := false,localIsDeleted := false,createdAt := "t3",
    resolvedAt := none }

theorem gating_broken :
    (∃ m trace out, Run (fun _ _ => True) (new 0 failedAhead .default) m trace out ∧ ¬Gated failedAhead trace) ∧
    (∃ m trace out, Run (fun _ _ => True) (new 0 twoEdits .default) m trace out ∧ ¬Gated twoEdits trace) := by
  constructor
  · have run : Run (fun _ _ => True) (new 0 failedAhead .default) _ _ _ :=
      drive_run [.page (fun _ => "t3") ⟨[],0,false⟩] .started (by simp) rfl
    refine ⟨_,_,_,run,?_⟩
    intro gated
    obtain ⟨object,inside⟩ := gated 0 1 _ _ [.resetInFlightMutations,.fetchPull 0 50,.markMutationInFlight change2 1]
      (requestOf (queued change2 firstNote 2 .pending "bbbb" "t2")) [] (by decide) rfl rfl rfl rfl rfl
    simp at inside
  · have run : Run (fun _ _ => True) (new 0 twoEdits .default) _ _ _ :=
      drive_run [.page (fun _ => "t3") ⟨[],0,false⟩,.conflict "t3" strayRecord] .started (by simp) rfl
    refine ⟨_,_,_,run,?_⟩
    intro gated
    obtain ⟨object,inside⟩ := gated 0 1 _ _
      [.resetInFlightMutations,.fetchPull 0 50,.markMutationInFlight change1 1,
        .sendPush (requestOf (queued change1 firstNote 1 .pending "aaaa" "t1")),.recordConflict strayRecord change1,
        .resetMutationToPending change1,.markMutationInFlight change2 1]
      (requestOf (queued change2 firstNote 2 .pending "bbbb" "t2")) [] (by decide) rfl rfl rfl rfl rfl
    simp at inside

end ZkNote.DependencyGating
