import ZkNote.Paging
import ZkNote.PullChanges
import ZkNote.StateMachine

namespace ZkNote.PullProgress
open Protocol Adapter LocalStorage PullChanges StateMachine SyncStateMachine Paging

def sequences (page : PullChangesResponse) : List Nat := page.changes.map (·.serverSeq)

-- A server that answers the k-th request with the k-th page, whatever is asked,
-- and may be lost from some request on. The world is the cursors asked after.
def serving (pages : Nat → PullChangesResponse) (drops : Option Nat) : SyncServerAdapter (List Nat) where
  pushMutation _ asked := (.error (.connectionFailed "connection lost"),asked)
  pullChanges after _ asked :=
    (if drops = some asked.length then .error (.connectionFailed "connection lost") else .ok (pages asked.length),
      asked ++ [after])

variable {Key Note : Type}

def nativeAsks (codec : NoteCodec Key Note) (vaultKey : Option Key) (pageLimit : Option Nat) (clock : Nat → String)
    (s : Storage) (pages : Nat → PullChangesResponse) (drops : Option Nat) (fuel : Nat) : Option (List Nat) :=
  (pullRemoteChanges (serving pages drops) codec vaultKey ⟨pageLimit,none⟩ clock fuel [] s).map (·.1)

-- The page request among the actions a response leaves.
def requested (actions : List SyncAction) : Option Nat :=
  actions.findSome? (fun | .fetchPull after _ => some after | _ => none)

-- A driver of one pull: it brings the machine a page for each request, as long
-- as the machine stays in the phase it pulls in.
def drivePull (clock : Nat → Nat → String) (pages : Nat → PullChangesResponse) (drops : Option Nat) :
    Nat → List Nat → SyncStateMachine → Nat → Option (List Nat)
  | 0,_,_,_ => none
  | fuel+1,asked,m,after =>
    if drops = some asked.length then some (asked ++ [after])
    else
      let (next,actions) := m.handlePullResponse (clock asked.length) (pages asked.length)
      if next.phase = m.phase then
        match requested actions with
        | some further => drivePull clock pages drops fuel (asked ++ [after]) next further
        | none => some (asked ++ [after])
      else some (asked ++ [after])

def machineAsks (m : SyncStateMachine) (clock : Nat → Nat → String) (pages : Nat → PullChangesResponse)
    (drops : Option Nat) (fuel : Nat) : Option (List Nat) :=
  (requested [m.fetch]).bind (drivePull clock pages drops fuel [] m)

-- When each of them asks for another page.
def nativeGoesOn (page : PullChangesResponse) : Bool := !page.changes.isEmpty && page.hasMore
def machineGoesOn (page : PullChangesResponse) : Bool := page.hasMore

theorem skip_is_max (cursor seq : Nat) : (if seq ≤ cursor ∧ 0 < cursor then cursor else seq) = max cursor seq := by
  split <;> omega

theorem take_page_highest (clock : Nat → String) (changes : List ObjectChange) (p : Progress) :
    (takePage clock p changes).currentSeq = (changes.map (·.serverSeq)).foldl max p.currentSeq := by
  induction changes generalizing p with
  | nil => rfl
  | cons change rest ih =>
      have one : (takeChange clock p change).currentSeq = max p.currentSeq change.serverSeq := by
        rw [← skip_is_max,takeChange]
        split <;> rfl
      rw [takePage,List.foldl_cons,← takePage,ih,one]
      rfl

theorem store_changes_highest (clock : Nat → String) (i cursor : Nat) (changes : List ObjectChange) :
    (storeChanges clock i cursor changes).2.1 = (changes.map (·.serverSeq)).foldl max cursor := by
  induction changes generalizing i cursor with
  | nil => rfl
  | cons change rest ih =>
      have one := skip_is_max cursor change.serverSeq
      unfold storeChanges
      simp only [List.map_cons,List.foldl_cons]
      split
      · rename_i skipped
        rw [if_pos skipped] at one
        rw [ih,← one]
      · rename_i taken
        rw [if_neg taken] at one
        rw [← one]
        exact ih (i+1) change.serverSeq

theorem pull_loop_asks (pages : Nat → PullChangesResponse) (drops : Option Nat) (pageLimit : Option Nat)
    (clock : Nat → String) (fuel : Nat) (asked : List Nat) (p : Progress) :
    (pullLoop (serving pages drops) ⟨pageLimit,none⟩ clock fuel asked p).map (·.1) =
      ask sequences nativeGoesOn pages drops fuel asked p.currentSeq := by
  induction fuel generalizing asked p with
  | zero => rfl
  | succ fuel ih =>
      simp only [pullLoop,ask,Option.any_none,Bool.false_eq_true,if_false,serving]
      by_cases lost : drops = some asked.length
      · simp only [if_pos lost,Option.map_some]
      · simp only [if_neg lost]
        by_cases empty : (pages asked.length).changes = []
        · simp [empty,nativeGoesOn]
        · by_cases more : (pages asked.length).hasMore = true
          · have on : nativeGoesOn (pages asked.length) = true := by simp [nativeGoesOn,empty,more]
            simp only [if_neg empty,if_pos more,if_pos on]
            exact (ih _ _).trans (congrArg _ (take_page_highest _ _ _))
          · have off : nativeGoesOn (pages asked.length) = false := by simp [nativeGoesOn,more]
            simp [if_neg empty,if_neg more,off]

theorem native_asks (codec : NoteCodec Key Note) (vaultKey : Option Key) (pageLimit : Option Nat) (clock : Nat → String)
    (s : Storage) (pages : Nat → PullChangesResponse) (drops : Option Nat) (fuel : Nat) :
    nativeAsks codec vaultKey pageLimit clock s pages drops fuel =
      ask sequences nativeGoesOn pages drops fuel [] (currentCursor s) := by
  have looped := pull_loop_asks pages drops pageLimit clock fuel [] (startPull s)
  rw [nativeAsks,pullRemoteChanges,← show (startPull s).currentSeq = currentCursor s from rfl,← looped]
  split
  · rename_i failed
    rw [failed]
    rfl
  · rename_i ended
    rw [ended]
    rfl
  · rename_i ended
    rw [ended]
    split <;> rfl

-- Storing a page asks for nothing.
theorem stores_request_nothing (clock : Nat → String) (i cursor : Nat) (changes : List ObjectChange)
    (rest : List SyncAction) : requested ((storeChanges clock i cursor changes).1 ++ rest) = requested rest := by
  induction changes generalizing i cursor with
  | nil => rfl
  | cons change later ih =>
      unfold storeChanges
      split
      · exact ih (i+1) cursor
      · exact ih (i+1) change.serverSeq

def Pulling (m : SyncStateMachine) : Prop := m.phase = .pullingInitial ∨ m.phase = .pullingFollowup

theorem step_push_leaves (m : SyncStateMachine) (now : String) (pushing : m.phase = .pushing) :
    (m.stepPush now).1.phase ≠ .pullingInitial := by
  unfold stepPush
  simp only
  split
  · simp [pushing]
  · split
    · simp
    · unfold finish
      split <;> simp

-- A page that lets the pull go on is answered by a request above the highest
-- sequence seen, in the same phase; any other page ends the phase.
theorem page_onward (pulling : Pulling m) (clock : Nat → String) (page : PullChangesResponse) (more : page.hasMore = true) :
    (m.handlePullResponse clock page).1.phase = m.phase ∧
    (m.handlePullResponse clock page).1.currentCursor = highest sequences m.currentCursor page ∧
    requested (m.handlePullResponse clock page).2 = some (highest sequences m.currentCursor page) := by
  have cursor := store_changes_highest clock 0 m.currentCursor page.changes
  rcases pulling with first | later
  · simp only [handlePullResponse,first,more,if_true]
    refine ⟨trivial,cursor,?_⟩
    rw [stores_request_nothing]
    exact congrArg some cursor
  · simp only [handlePullResponse,later,more,if_true,if_false,reduceCtorEq]
    refine ⟨trivial,cursor,?_⟩
    rw [stores_request_nothing]
    exact congrArg some cursor

theorem page_last (pulling : Pulling m) (clock : Nat → String) (page : PullChangesResponse) (last : page.hasMore = false) :
    (m.handlePullResponse clock page).1.phase ≠ m.phase := by
  rcases pulling with first | later
  · simp only [handlePullResponse,first,last,Bool.false_eq_true,if_false,if_true]
    exact step_push_leaves _ _ rfl
  · simp [handlePullResponse,later,last]

theorem drive_asks (pulling : Pulling m) (clock : Nat → Nat → String) (pages : Nat → PullChangesResponse)
    (drops : Option Nat) (fuel : Nat) (asked : List Nat) :
    drivePull clock pages drops fuel asked m m.currentCursor =
      ask sequences machineGoesOn pages drops fuel asked m.currentCursor := by
  induction fuel generalizing asked m with
  | zero => rfl
  | succ fuel ih =>
      simp only [drivePull,ask]
      by_cases lost : drops = some asked.length
      · simp only [if_pos lost]
      · simp only [if_neg lost]
        cases more : machineGoesOn (pages asked.length) with
        | true =>
            obtain ⟨same,cursor,next⟩ := page_onward pulling (clock asked.length) _ more
            have still : Pulling (m.handlePullResponse (clock asked.length) (pages asked.length)).1 := by
              rw [Pulling,same]; exact pulling
            rw [if_pos same,if_pos rfl,next,← cursor]
            exact ih still _
        | false =>
            rw [if_neg (page_last pulling (clock asked.length) _ more),if_neg Bool.false_ne_true]

theorem machine_asks (pulling : Pulling m) (clock : Nat → Nat → String) (pages : Nat → PullChangesResponse)
    (drops : Option Nat) (fuel : Nat) :
    machineAsks m clock pages drops fuel = ask sequences machineGoesOn pages drops fuel [] m.currentCursor :=
  drive_asks pulling clock pages drops fuel []

-- Both pulls advance exactly as far as the server lets them: with one page that
-- promises more and brings nothing new, the same request is made again.
theorem pull_progress_iff (codec : NoteCodec Key Note) (vaultKey : Option Key) (pageLimit : Option Nat)
    (clock : Nat → String) (s : Storage) (m : SyncStateMachine) (pulling : Pulling m) (clocks : Nat → Nat → String)
    (pages : Nat → PullChangesResponse) :
    (Progresses sequences pages (currentCursor s) (nativeAsks codec vaultKey pageLimit clock s pages) ↔
      Fresh sequences nativeGoesOn pages (currentCursor s)) ∧
    (Progresses sequences pages m.currentCursor (machineAsks m clocks pages) ↔
      Fresh sequences machineGoesOn pages m.currentCursor) := by
  constructor
  · rw [← progresses_iff]
    exact iff_of_eq (congrArg _ (funext fun drops => funext fun fuel => native_asks ..))
  · rw [← progresses_iff]
    exact iff_of_eq (congrArg _ (funext fun drops => funext fun fuel => machine_asks pulling ..))

def rowAt (seq : Nat) : ObjectChange :=
  ⟨seq,"a",1,objectKindNote,false,⟨envelopeVersionV1,"a",objectKindNote,⟨"",""⟩,⟨"",""⟩⟩⟩

def storageAt (cursor : Nat) : Storage := Storage.new.setSyncCursor cursor

def machineAt (cursor : Nat) : SyncStateMachine := (new cursor [] .default).start.1

def twoPages : Nat → PullChangesResponse
  | 0 => ⟨[rowAt 6],6,true⟩
  | _ => ⟨[],6,false⟩

theorem two_pages_pulled :
    Progresses sequences twoPages 5 (nativeAsks .standIn none none (fun _ => "") (storageAt 5) twoPages) ∧
    Progresses sequences twoPages 5 (machineAsks (machineAt 5) (fun _ _ => "") twoPages) := by
  have told := pull_progress_iff .standIn none none (fun _ => "") (storageAt 5) (machineAt 5) (.inl rfl) (fun _ _ => "") twoPages
  refine ⟨told.1.mpr ?_,told.2.mpr ?_⟩
  all_goals
    rintro (_ | k) going
    · exact ⟨6,by decide,by decide,by simp⟩
    · exact absurd (going 1 (by omega)) (by decide)

-- A server whose one row stays below the cursor but who keeps promising more.
def stalePage : PullChangesResponse := ⟨[rowAt 5],5,true⟩

theorem stale_page_repeats :
    ¬ Progresses sequences (fun _ => stalePage) 5
      (nativeAsks .standIn none none (fun _ => "") (storageAt 5) (fun _ => stalePage)) ∧
    ¬ Progresses sequences (fun _ => stalePage) 5 (machineAsks (machineAt 5) (fun _ _ => "") (fun _ => stalePage)) := by
  constructor
  · intro progress
    have sorted := progress.rises 1 2 [5,5] (by rw [native_asks]; decide)
    simp at sorted
  · intro progress
    have sorted := progress.rises 1 2 [5,5] (by rw [machine_asks (.inl rfl)]; decide)
    simp at sorted

end ZkNote.PullProgress
