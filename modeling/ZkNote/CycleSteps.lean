import ZkNote.Orchestrator
import ZkNote.PushSteps

namespace ZkNote.CycleSteps
open Protocol Adapter KeyedTable LocalStorage MutationQueue Conflict PullChanges PushChanges PushSteps Orchestrator

variable {World Key Note : Type} {s t : Storage} {row : PendingMutation}

def refresh (row : PendingMutation) : PendingMutation :=
  if row.status = .inFlight then marked row .pending row.retryCount else row

theorem refresh_request (row : PendingMutation) : requestOf (refresh row) = requestOf row := by
  unfold refresh
  split <;> rfl

theorem restatus_rows (found : s.getMutation row.mutationId = some row) (status : MutationStatus) (retries : UInt32) :
    (restatus s row status retries).mutations.rows =
      s.mutations.rows.map (fun x => if x.mutationId = row.mutationId then marked row status retries else x) := by
  have present : row.mutationId ∈ s.mutations.rows.map (·.mutationId) := List.mem_map_of_mem (find_mem found)
  exact if_pos present

theorem reset_all_frame (list : List PendingMutation) (listed : Listed list s) (count : Nat) :
    (resetAll list s count).2 = {s with mutations := (resetAll list s count).2.mutations} ∧
    (resetAll list s count).2.mutations.rows =
      s.mutations.rows.map (fun x => if x.mutationId ∈ list.map (·.mutationId) then refresh x else x) := by
  induction list generalizing s count with
  | nil => exact ⟨rfl,by simp [resetAll]⟩
  | cons row rest ih =>
      have found := listed.present row List.mem_cons_self
      have distinct := listed.distinct
      simp only [List.map_cons,List.nodup_cons] at distinct
      have only : ∀ x ∈ s.mutations.rows, x.mutationId = row.mutationId → x = row := by
        intro x inside same
        exact Option.some.inj ((mem_find inside same).symm.trans found)
      by_cases flying : row.status = .inFlight
      · have updated : s.updateMutationStatus row.mutationId .pending row.retryCount =
            .ok (restatus s row .pending row.retryCount) := by
          have held : s.mutations.find row.mutationId = some row := found
          simp [Storage.updateMutationStatus,held,restatus,marked]
        have restListed : Listed rest (restatus s row .pending row.retryCount) := by
          refine ⟨distinct.2,?_⟩
          intro m inside
          have other : m.mutationId ≠ row.mutationId := fun same => distinct.1 (same ▸ List.mem_map_of_mem inside)
          exact (restatus_other other _ _).trans (listed.present m (List.mem_cons_of_mem _ inside))
        obtain ⟨same,rows⟩ := ih restListed (count+1)
        simp only [resetAll,if_pos flying,updated]
        refine ⟨?_,?_⟩
        · rw [same]; rfl
        · rw [rows,restatus_rows found,List.map_map]
          apply List.map_congr_left
          intro x inside
          by_cases own : x.mutationId = row.mutationId
          · have is := only x inside own
            subst is
            simp [marked,refresh,flying,distinct.1]
          · simp [own]
      · obtain ⟨same,rows⟩ := ih (listed_tail listed) count
        simp only [resetAll,if_neg flying]
        refine ⟨same,?_⟩
        rw [rows]
        apply List.map_congr_left
        intro x inside
        by_cases own : x.mutationId = row.mutationId
        · have is := only x inside own
          subst is
          simp [refresh,flying]
        · simp [own]

theorem reset_in_flight_rows (s : Storage) : (resetInFlight s).2.mutations.rows = s.mutations.rows.map refresh := by
  rw [resetInFlight,(reset_all_frame _ (listed_start s) 0).2]
  apply List.map_congr_left
  intro x inside
  rw [if_pos (List.mem_map_of_mem ((mem_pending s x).mpr inside))]

theorem reset_in_flight_frame (s : Storage) :
    (resetInFlight s).2 = {s with mutations := (resetInFlight s).2.mutations} :=
  (reset_all_frame _ (listed_start s) 0).1

theorem reset_requests (s : Storage) : requests (resetInFlight s).2 = requests s := by
  simp only [requests,reset_in_flight_rows,List.map_map]
  apply List.map_congr_left
  intro x _
  exact refresh_request x

-- A cycle is a reset, a pull, and if that succeeded a push and perhaps one more pull.
inductive Phases (adapter : SyncServerAdapter World) (codec : NoteCodec Key Note) (vaultKey : Option Key)
    (options : SyncCycleOptions Key) (draws : Draws) (w : World) (s : Storage) :
    World → Storage → Except SyncCycleError (SyncCycleReport Note) → Prop where
  | unpulled
      (pulled : pullRemoteChanges adapter codec vaultKey options.pullOptions draws.clock draws.fuel w (resetInFlight s).2 =
        some (w',s',.error e)) : Phases adapter codec vaultKey options draws w s w' s' (.error (.pull e))
  | unpushed
      (pulled : pullRemoteChanges adapter codec vaultKey options.pullOptions draws.clock draws.fuel w (resetInFlight s).2 =
        some (w₁,s₁,.ok first))
      (pushed : pushPendingChanges adapter codec (pushKey options vaultKey) draws.ticks w₁ s₁ = (w',s',.error e)) :
      Phases adapter codec vaultKey options draws w s w' s' (.error (.push e))
  | ended
      (pulled : pullRemoteChanges adapter codec vaultKey options.pullOptions draws.clock draws.fuel w (resetInFlight s).2 =
        some (w₁,s₁,.ok first))
      (pushed : pushPendingChanges adapter codec (pushKey options vaultKey) draws.ticks w₁ s₁ = (w',s',.ok report)) :
      Phases adapter codec vaultKey options draws w s w' s'
        (.ok (cycleReport first report none (currentCursor (resetInFlight s).2) s'))
  | unfollowed
      (pulled : pullRemoteChanges adapter codec vaultKey options.pullOptions draws.clock draws.fuel w (resetInFlight s).2 =
        some (w₁,s₁,.ok first))
      (pushed : pushPendingChanges adapter codec (pushKey options vaultKey) draws.ticks w₁ s₁ = (w₂,s₂,.ok report))
      (again : pullRemoteChanges adapter codec vaultKey options.pullOptions draws.followupClock draws.fuel w₂ s₂ =
        some (w',s',.error e)) : Phases adapter codec vaultKey options draws w s w' s' (.error (.pull e))
  | followed
      (pulled : pullRemoteChanges adapter codec vaultKey options.pullOptions draws.clock draws.fuel w (resetInFlight s).2 =
        some (w₁,s₁,.ok first))
      (pushed : pushPendingChanges adapter codec (pushKey options vaultKey) draws.ticks w₁ s₁ = (w₂,s₂,.ok report))
      (again : pullRemoteChanges adapter codec vaultKey options.pullOptions draws.followupClock draws.fuel w₂ s₂ =
        some (w',s',.ok followup)) : Phases adapter codec vaultKey options draws w s w' s'
          (.ok (cycleReport first report (some followup) (currentCursor (resetInFlight s).2) s'))

theorem cycle_phases {adapter : SyncServerAdapter World} {codec : NoteCodec Key Note} {w : World}
    (ran : runSyncCycle adapter codec vaultKey options draws w s = some (w',t,result)) :
    Phases adapter codec vaultKey options draws w s w' t result := by
  unfold runSyncCycle at ran
  simp only at ran
  split at ran
  · cases ran
  · rename_i pulled
    cases ran
    exact .unpulled pulled
  · rename_i pulled
    split at ran
    · rename_i pushed
      cases ran
      exact .unpushed pulled pushed
    · rename_i pushed
      split at ran
      · split at ran
        · cases ran
        · rename_i again
          cases ran
          exact .unfollowed pulled pushed again
        · rename_i again
          cases ran
          exact .followed pulled pushed again
      · cases ran
        exact .ended pulled pushed

-- The arguments of one cycle.
structure CycleCall (Key : Type) where
  vaultKey : Option Key
  options : SyncCycleOptions Key
  draws : Draws

end ZkNote.CycleSteps
