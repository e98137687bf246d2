import ZkNote.PullProgress
import ZkNote.RisingRecords

namespace ZkNote.PageChanges
open Protocol Adapter LocalStorage PullChanges StateMachine PullProgress RisingRecords
open SyncStateMachine (storeChanges handlePullResponse stepPush finish fetch)

inductive CursorError where
  | nonMonotonicSequence (current incoming : Nat)
  deriving DecidableEq, Repr

-- `apply_change` returns the cursor it leaves. What was stored before an error
-- stays stored.
def applyChanges (clock : Nat → String) : Nat → Storage → Nat → List ObjectChange → Storage × Except CursorError Nat
  | _,s,lastSeq,[] => (s,.ok lastSeq)
  | i,s,lastSeq,change :: rest =>
    if change.serverSeq ≤ lastSeq ∧ 0 < lastSeq then
      if change.serverSeq < lastSeq then (s,.error (.nonMonotonicSequence lastSeq change.serverSeq))
      else applyChanges clock i s lastSeq rest
    else
      let s := applyChange s change (clock i)
      applyChanges clock (i+1) s (currentCursor s) rest

def applyChangesSequential (clock : Nat → String) (s : Storage) (changes : List ObjectChange) :
    Storage × Except CursorError Nat :=
  applyChanges clock 0 s (currentCursor s) changes

-- The pull loop on a server with this one page.
def pullPage (clock : Nat → String) (s : Storage) (changes : List ObjectChange) :
    Option (Storage × Except SyncNetworkError Unit) :=
  (pullLoop (serving (fun _ => ⟨changes,0,false⟩) none) .default clock 1 [] (startPull s)).map
    (fun (_,p,ended) => (p.storage,ended))

-- What a driver does in local storage for the actions of a page.
def carryOut (s : Storage) : SyncAction → Storage
  | .storeObject object => s.putObject object
  | .advanceCursor cursor => s.setSyncCursor cursor
  | .updateSyncState cursor lastSyncAt => s.setSyncState {s.syncState with syncCursor := cursor,lastSyncAt := some lastSyncAt}
  | _ => s

def machinePage (m : SyncStateMachine) (clock : Nat → String) (s : Storage) (response : PullChangesResponse) : Storage :=
  (m.handlePullResponse clock response).2.foldl carryOut s

def Holds (s : Storage) (change : ObjectChange) : Prop := ∃ now, s.getObject change.objectId = some (storedOf change now)

-- The change itself is there, or a later one of the same object from the list.
def Kept (changes : List ObjectChange) (s : Storage) (change : ObjectChange) : Prop :=
  ∃ held ∈ changes, held.objectId = change.objectId ∧ (held = change ∨ change.serverSeq < held.serverSeq) ∧ Holds s held

structure NothingSkipped (cursor : Nat) (changes : List ObjectChange) : Prop where
  sequential : ∀ clock s, currentCursor s = cursor →
    (∃ e, (applyChangesSequential clock s changes).2 = .error e) ∨
    ∀ x ∈ changes, cursor < x.serverSeq → Kept changes (applyChangesSequential clock s changes).1 x
  loop : ∀ clock s, currentCursor s = cursor → ∃ t ended, pullPage clock s changes = some (t,ended) ∧
    ((∃ e, ended = .error e) ∨ ∀ x ∈ changes, cursor < x.serverSeq → Kept changes t x)
  machine : ∀ m clock s response, m.currentCursor = cursor → currentCursor s = cursor → response.changes = changes →
    ∀ x ∈ changes, cursor < x.serverSeq → Kept changes (machinePage m clock s response) x
  agree : ∀ m clock s t ended response, m.currentCursor = cursor → currentCursor s = cursor → response.changes = changes →
    pullPage clock s changes = some (t,ended) → ∀ x ∈ changes,
      (Holds (applyChangesSequential clock s changes).1 x ↔ Holds t x) ∧
      (Holds t x ↔ Holds (machinePage m clock s response) x)

-- Every change above the cursor rises above the cursor and all before it, or
-- makes way for a change of its object that does.
def Complete (cursor : Nat) (changes : List ObjectChange) : Prop :=
  ∀ x ∈ changes, cursor < x.serverSeq → ∃ y, Rises ObjectChange.serverSeq cursor changes y ∧ y.objectId = x.objectId ∧
    (y = x ∨ x.serverSeq < y.serverSeq)

-- Changes put into a store one after the other.
inductive Written : Storage → List ObjectChange → Storage → Prop where
  | done : Written s [] s
  | stored (change : ObjectChange) (now : String)
      (rest : Written ((s.putObject (storedOf change now)).setSyncCursor change.serverSeq) changes t) :
      Written s (change :: changes) t

def lastOf (objectId : String) (changes : List ObjectChange) : Option ObjectChange :=
  (changes.filter (fun x => x.objectId = objectId)).getLast?

theorem last_of_cons (objectId : String) (x : ObjectChange) (rest : List ObjectChange) :
    lastOf objectId (x :: rest) =
      if x.objectId = objectId then some ((lastOf objectId rest).getD x) else lastOf objectId rest := by
  unfold lastOf
  by_cases same : x.objectId = objectId
  · rw [List.filter_cons_of_pos (by simpa using same),if_pos same,List.getLast?_cons]
  · rw [List.filter_cons_of_neg (by simpa using same),if_neg same]

theorem stored_of_inj (same : storedOf x now = storedOf y later) : x = y := by
  cases x; cases y
  simp only [storedOf,StoredEncryptedObject.mk.injEq] at same
  simp [same]

theorem holds_put (s : Storage) (change x : ObjectChange) (now : String) (cursor : Nat) :
    Holds ((s.putObject (storedOf change now)).setSyncCursor cursor) x ↔
      if change.objectId = x.objectId then change = x else Holds s x := by
  have found : ((s.putObject (storedOf change now)).setSyncCursor cursor).getObject x.objectId =
      if change.objectId = x.objectId then some (storedOf change now) else s.getObject x.objectId :=
    KeyedTable.find_upsert ..
  unfold Holds
  rw [found]
  split
  · constructor
    · rintro ⟨later,same⟩
      exact stored_of_inj (Option.some.inj same)
    · rintro rfl
      exact ⟨now,rfl⟩
  · rfl

-- A store holds the last change written for an object, or what it held before.
theorem written_holds (written : Written s changes t) (x : ObjectChange) :
    Holds t x ↔ match lastOf x.objectId changes with
      | some y => y = x
      | none => Holds s x := by
  induction written with
  | done => rfl
  | stored change now rest ih =>
      rw [ih,last_of_cons]
      by_cases same : change.objectId = x.objectId
      · rw [if_pos same]
        cases lastOf x.objectId _ with
        | none => simp [holds_put,same]
        | some y => rfl
      · rw [if_neg same]
        cases lastOf x.objectId _ with
        | none => simp [holds_put,same]
        | some y => rfl

theorem last_of_mem (last : lastOf objectId changes = some y) : y ∈ changes ∧ y.objectId = objectId := by
  have inside := List.mem_of_getLast? last
  simpa using List.mem_filter.mp inside

-- Among rising changes the last one of an object is its highest.
theorem last_of_highest (sorted : changes.Pairwise (fun x y => x.serverSeq < y.serverSeq)) (inside : x ∈ changes) :
    ∃ y, lastOf x.objectId changes = some y ∧ (y = x ∨ x.serverSeq < y.serverSeq) := by
  induction changes with
  | nil => cases inside
  | cons z rest ih =>
      obtain ⟨first,later⟩ := List.pairwise_cons.mp sorted
      rw [last_of_cons]
      rcases List.mem_cons.mp inside with rfl | member
      · rw [if_pos rfl]
        cases last : lastOf x.objectId rest with
        | none => exact ⟨x,rfl,.inl rfl⟩
        | some y => exact ⟨y,rfl,.inr (first y (last_of_mem last).1)⟩
      · obtain ⟨y,last,high⟩ := ih later member
        rw [last]
        split
        · exact ⟨y,rfl,high⟩
        · exact ⟨y,rfl,high⟩

theorem apply_fresh (fresh : currentCursor s < change.serverSeq) (now : String) :
    applyChange s change now = (s.putObject (storedOf change now)).setSyncCursor change.serverSeq :=
  if_neg (Nat.not_le.mpr fresh)

theorem current_put (s : Storage) (object : StoredEncryptedObject) (cursor : Nat) :
    currentCursor ((s.putObject object).setSyncCursor cursor) = cursor := rfl

-- The sequential writer stores what rises until something falls, and only then
-- reports an error.
theorem sequential_written (clock : Nat → String) (i : Nat) (s : Storage) (changes : List ObjectChange)
    (positive : ∀ x ∈ changes, 0 < x.serverSeq) :
    Written s (calm ObjectChange.serverSeq (currentCursor s) changes) (applyChanges clock i s (currentCursor s) changes).1 ∧
    ((∃ e, (applyChanges clock i s (currentCursor s) changes).2 = .error e) ∨
      calm ObjectChange.serverSeq (currentCursor s) changes = rising ObjectChange.serverSeq (currentCursor s) changes) := by
  induction changes generalizing i s with
  | nil => exact ⟨.done,.inr rfl⟩
  | cons change rest ih =>
      have later := fun x inside => positive x (List.mem_cons_of_mem _ inside)
      have first := positive change List.mem_cons_self
      rw [applyChanges,calm,rising]
      by_cases above : currentCursor s < change.serverSeq
      · have taken : ¬(change.serverSeq ≤ currentCursor s ∧ 0 < currentCursor s) := by omega
        rw [if_neg taken,if_pos above,if_pos above]
        simp only [apply_fresh above]
        obtain ⟨written,ended⟩ := ih (i+1) ((s.putObject (storedOf change (clock i))).setSyncCursor change.serverSeq) later
        rw [current_put] at written ended ⊢
        refine ⟨.stored change _ written,?_⟩
        rcases ended with failed | same
        · exact .inl failed
        · exact .inr (by rw [same])
      · have skipped : change.serverSeq ≤ currentCursor s ∧ 0 < currentCursor s := by omega
        rw [if_pos skipped,if_neg above,if_neg above]
        split
        · exact ⟨.done,.inl ⟨_,rfl⟩⟩
        · exact ih i s later

theorem taken_written (clock : Nat → String) (p : Progress) (changes : List ObjectChange)
    (agree : p.currentSeq = currentCursor p.storage) (positive : ∀ x ∈ changes, 0 < x.serverSeq) :
    Written p.storage (rising ObjectChange.serverSeq p.currentSeq changes) (takePage clock p changes).storage := by
  induction changes generalizing p with
  | nil => exact .done
  | cons change rest ih =>
      have later := fun x inside => positive x (List.mem_cons_of_mem _ inside)
      have first := positive change List.mem_cons_self
      rw [takePage,List.foldl_cons,← takePage,rising,takeChange]
      by_cases above : p.currentSeq < change.serverSeq
      · have taken : ¬(change.serverSeq ≤ p.currentSeq ∧ 0 < p.currentSeq) := by omega
        rw [if_neg taken,if_pos above,apply_fresh (by omega)]
        exact .stored change _ (ih {p with
          storage := (p.storage.putObject (storedOf change (clock p.applied.length))).setSyncCursor change.serverSeq
          currentSeq := change.serverSeq
          applied := p.applied ++ [change]} rfl later)
      · have skipped : change.serverSeq ≤ p.currentSeq ∧ 0 < p.currentSeq := by omega
        rw [if_pos skipped,if_neg above]
        exact ih p agree later

theorem pull_page_written (clock : Nat → String) (s : Storage) (changes : List ObjectChange)
    (positive : ∀ x ∈ changes, 0 < x.serverSeq) :
    ∃ t, pullPage clock s changes = some (t,.ok ()) ∧ Written s (rising ObjectChange.serverSeq (currentCursor s) changes) t := by
  by_cases empty : changes = []
  · subst empty
    exact ⟨s,rfl,.done⟩
  · refine ⟨(takePage clock {startPull s with pagesFetched := 1} changes).storage,?_,?_⟩
    · simp [pullPage,pullLoop,serving,PullOptions.default,empty,startPull]
    · exact taken_written clock {startPull s with pagesFetched := 1} changes rfl positive

theorem stores_written (clock : Nat → String) (i : Nat) (s : Storage) (cursor : Nat) (changes : List ObjectChange)
    (positive : ∀ x ∈ changes, 0 < x.serverSeq) :
    Written s (rising ObjectChange.serverSeq cursor changes) ((storeChanges clock i cursor changes).1.foldl carryOut s) := by
  induction changes generalizing i s cursor with
  | nil => exact .done
  | cons change rest ih =>
      have later := fun x inside => positive x (List.mem_cons_of_mem _ inside)
      have first := positive change List.mem_cons_self
      rw [storeChanges,rising]
      by_cases above : cursor < change.serverSeq
      · have taken : ¬(change.serverSeq ≤ cursor ∧ 0 < cursor) := by omega
        rw [if_neg taken,if_pos above]
        exact .stored change _ (ih (i+1) _ change.serverSeq later)
      · have skipped : change.serverSeq ≤ cursor ∧ 0 < cursor := by omega
        rw [if_pos skipped,if_neg above]
        exact ih (i+1) s cursor later

-- The rest of a page's actions leaves the objects alone.
def Quiet (action : SyncAction) : Prop := ∀ s, (carryOut s action).objects = s.objects

theorem quiet_actions {actions : List SyncAction} (quiet : ∀ action ∈ actions, Quiet action) (s : Storage) :
    (actions.foldl carryOut s).objects = s.objects := by
  induction actions generalizing s with
  | nil => rfl
  | cons action rest ih =>
      rw [List.foldl_cons,ih (fun x inside => quiet x (List.mem_cons_of_mem _ inside))]
      exact quiet action List.mem_cons_self s

theorem finish_quiet (m : SyncStateMachine) (now : String) : ∀ action ∈ (m.finish now).2, Quiet action := by
  unfold finish
  split <;> simp [Quiet,carryOut,fetch,Storage.setSyncState]

theorem step_push_quiet (m : SyncStateMachine) (now : String) : ∀ action ∈ (m.stepPush now).2, Quiet action := by
  unfold stepPush
  simp only
  split
  · simp [Quiet,carryOut]
  · split
    · simp
    · exact finish_quiet _ now

theorem page_actions (m : SyncStateMachine) (clock : Nat → String) (response : PullChangesResponse) :
    ∃ rest, (m.handlePullResponse clock response).2 = (storeChanges clock 0 m.currentCursor response.changes).1 ++ rest ∧
      ∀ action ∈ rest, Quiet action := by
  unfold handlePullResponse
  simp only
  split
  · exact ⟨_,rfl,by simp [Quiet,carryOut,fetch]⟩
  · split
    · exact ⟨_,rfl,step_push_quiet _ _⟩
    · exact ⟨_,rfl,by simp [Quiet,carryOut,Storage.setSyncState]⟩

theorem holds_objects (same : t.objects = s.objects) (x : ObjectChange) : Holds t x ↔ Holds s x := by
  simp [Holds,Storage.getObject,same]

theorem machine_page_holds (m : SyncStateMachine) (clock : Nat → String) (s : Storage) (response : PullChangesResponse)
    (positive : ∀ x ∈ response.changes, 0 < x.serverSeq) :
    ∃ t, Written s (rising ObjectChange.serverSeq m.currentCursor response.changes) t ∧
      ∀ x, Holds (machinePage m clock s response) x ↔ Holds t x := by
  obtain ⟨rest,same,quiet⟩ := page_actions m clock response
  refine ⟨_,stores_written clock 0 s m.currentCursor response.changes positive,?_⟩
  intro x
  rw [machinePage,same,List.foldl_append]
  exact holds_objects (quiet_actions quiet _) x

-- With complete changes, storing what rises keeps them all.
theorem complete_kept (complete : Complete cursor changes) (written : Written s (rising ObjectChange.serverSeq cursor changes) t)
    (inside : x ∈ changes) (above : cursor < x.serverSeq) : Kept changes t x := by
  obtain ⟨y,rises,object,high⟩ := complete x inside above
  obtain ⟨z,last,higher⟩ := last_of_highest (rising_sorted cursor changes).1 ((mem_rising cursor changes y).mpr rises)
  obtain ⟨member,same⟩ := last_of_mem last
  obtain ⟨before,after,split,_⟩ := (mem_rising cursor changes z).mp member
  refine ⟨z,by rw [split]; simp,same.trans object,?_,?_⟩
  · rcases higher with rfl | more
    · exact high
    · right
      rcases high with rfl | less
      · exact more
      · exact Nat.lt_trans less more
  · rw [written_holds written,same,last]

-- In a store that held nothing, a change is held only when it was stored.
theorem held_rises (empty : ∀ x, ¬Holds s x) (written : Written s stored t) (held : Holds t x) : x ∈ stored := by
  rw [written_holds written] at held
  cases last : lastOf x.objectId stored with
  | none => rw [last] at held; exact absurd held (empty x)
  | some y =>
      rw [last] at held
      cases held
      exact (last_of_mem last).1

def emptyAt (cursor : Nat) : Storage := Storage.new.setSyncCursor cursor

theorem empty_holds (cursor : Nat) (x : ObjectChange) : ¬Holds (emptyAt cursor) x := by
  rintro ⟨now,found⟩
  cases found

-- The three ways to take a page lose nothing and agree exactly when the list
-- itself loses nothing to the filter and nothing rises after a fall.
theorem nothing_skipped_iff (cursor : Nat) (changes : List ObjectChange) (positive : ∀ x ∈ changes, 0 < x.serverSeq) :
    NothingSkipped cursor changes ↔ Complete cursor changes ∧ Settles ObjectChange.serverSeq cursor changes := by
  constructor
  · intro whole
    obtain ⟨t,taken,written⟩ := pull_page_written (fun _ => "") (emptyAt cursor) changes positive
    rw [show currentCursor (emptyAt cursor) = cursor from rfl] at written
    constructor
    · intro x inside above
      obtain ⟨t',ended,again,failed | kept⟩ := whole.loop (fun _ => "") (emptyAt cursor) rfl
      · obtain ⟨e,rfl⟩ := failed
        rw [taken] at again
        cases again
      · rw [taken] at again
        cases again
        obtain ⟨y,_,object,high,held⟩ := kept x inside above
        exact ⟨y,(mem_rising cursor changes y).mp (held_rises (empty_holds cursor) written held),object,high⟩
    · rw [← calm_all_iff]
      obtain ⟨early,ended⟩ := sequential_written (fun _ => "") 0 (emptyAt cursor) changes positive
      obtain ⟨rest,same⟩ := @calm_rises _ ObjectChange.serverSeq cursor changes
      rcases List.eq_nil_or_concat rest with rfl | ⟨front,y,rfl⟩
      · simpa using same
      · -- The last change to rise is in the pull's store and in no other.
        exfalso
        have split : rising ObjectChange.serverSeq cursor changes = calm ObjectChange.serverSeq cursor changes ++ front ++ [y] := by
          rw [← same,List.concat_eq_append,List.append_assoc]
        have sorted := (@rising_sorted _ ObjectChange.serverSeq cursor changes).1
        rw [split] at sorted
        have last : lastOf y.objectId (rising ObjectChange.serverSeq cursor changes) = some y := by simp [split,lastOf]
        have member : y ∈ rising ObjectChange.serverSeq cursor changes := by simp [split]
        obtain ⟨before,after,place,_⟩ := (mem_rising cursor changes y).mp member
        have held : Holds t y := by rw [written_holds written,last]
        have agreed := (whole.agree (machineAt cursor) (fun _ => "") (emptyAt cursor) t (.ok ()) ⟨changes,0,false⟩ rfl rfl rfl
          taken y (by rw [place]; simp)).1.mpr held
        have inside := held_rises (empty_holds cursor) early agreed
        have less := (List.pairwise_append.mp sorted).2.2 y (List.mem_append_left _ inside) y List.mem_cons_self
        exact absurd less (Nat.lt_irrefl _)
  · rintro ⟨complete,settles⟩
    have same := (@calm_all_iff _ ObjectChange.serverSeq cursor changes).mpr settles
    refine ⟨?_,?_,?_,?_⟩
    · rintro clock s rfl
      obtain ⟨written,_⟩ := sequential_written clock 0 s changes positive
      rw [same] at written
      exact .inr (fun x inside above => complete_kept complete written inside above)
    · rintro clock s rfl
      obtain ⟨t,taken,written⟩ := pull_page_written clock s changes positive
      exact ⟨t,_,taken,.inr (fun x inside above => complete_kept complete written inside above)⟩
    · rintro m clock s response level rfl rfl x inside above
      obtain ⟨t,written,alike⟩ := machine_page_holds m clock s response positive
      rw [level] at written
      obtain ⟨y,member,object,high,held⟩ := complete_kept complete written inside above
      exact ⟨y,member,object,high,(alike y).mpr held⟩
    · rintro m clock s t ended response level rfl rfl taken x inside
      obtain ⟨first,_⟩ := sequential_written clock 0 s response.changes positive
      obtain ⟨t',again,second⟩ := pull_page_written clock s response.changes positive
      obtain ⟨t'',third,alike⟩ := machine_page_holds m clock s response positive
      rw [taken] at again
      cases again
      rw [same] at first
      rw [level] at third
      constructor
      · rw [written_holds second,← written_holds first]
        rfl
      · rw [alike,written_holds second,← written_holds third]

def repeated : List ObjectChange := [rowAt 6,rowAt 6,rowAt 7]

theorem repeated_kept : NothingSkipped 5 repeated := by
  refine (nothing_skipped_iff 5 repeated (by decide)).mpr ⟨?_,?_⟩
  · intro x inside above
    refine ⟨rowAt 7,(mem_rising ..).mp (by decide),?_⟩
    simp only [repeated,List.mem_cons,List.not_mem_nil,or_false] at inside
    rcases inside with rfl | rfl | rfl <;> decide
  · rw [← calm_all_iff]
    decide

-- Two objects, the second with the lower sequence: the pulls pass over it.
def crossed : List ObjectChange := [rowAt 5,{rowAt 3 with objectId := "b"}]

theorem crossed_loses : ¬NothingSkipped 0 crossed := by
  intro whole
  obtain ⟨held,member,object,_,now,found⟩ :=
    whole.machine (machineAt 0) (fun _ => "") (emptyAt 0) ⟨crossed,5,false⟩ rfl rfl rfl {rowAt 3 with objectId := "b"}
      (by simp [crossed]) (by decide)
  rw [object] at found
  have nothing : (machinePage (machineAt 0) (fun _ => "") (emptyAt 0) ⟨crossed,5,false⟩).getObject "b" = none := by decide
  rw [nothing] at found
  cases found

end ZkNote.PageChanges
