import ZkNote.Adapter
import ZkNote.LocalStorage
import ZkNote.NoteCodec

namespace ZkNote.PullChanges
open Protocol Adapter LocalStorage

structure PullOptions where
  pageLimit : Option Nat
  maxPages : Option Nat
  deriving DecidableEq, Repr

def PullOptions.default : PullOptions := ⟨some 50,none⟩

def currentCursor (s : Storage) : Nat := s.syncState.syncCursor

-- The object is durable before the cursor moves.
def applyChange (s : Storage) (change : ObjectChange) (now : String) : Storage :=
  if change.serverSeq ≤ currentCursor s then s
  else (s.putObject (storedOf change now)).setSyncCursor change.serverSeq

def recordSyncSuccess (s : Storage) (now : String) : Storage :=
  s.setSyncState {s.syncState with lastSyncAt := some now}

structure DecryptedPullItem (Note : Type) where
  objectId : String
  revision : Nat
  serverSeq : Nat
  isDeleted : Bool
  note : Option Note

structure PullReport (Note : Type) where
  pagesFetched : Nat
  totalChanges : Nat
  appliedChanges : Nat
  initialCursor : Nat
  finalCursor : Nat
  wasUnlocked : Bool
  decryptedItems : List (DecryptedPullItem Note)

inductive PullError where
  | network (error : SyncNetworkError)
  | core (message : String)
  deriving DecidableEq, Repr

-- The loop's variables: `current_seq`, `pages_fetched` and the applied changes,
-- with the storage they are written to.
structure Progress where
  storage : Storage
  currentSeq : Nat
  pagesFetched : Nat
  applied : List ObjectChange

def takeChange (clock : Nat → String) (p : Progress) (change : ObjectChange) : Progress :=
  if change.serverSeq ≤ p.currentSeq ∧ 0 < p.currentSeq then p
  else {p with
    storage := applyChange p.storage change (clock p.applied.length)
    currentSeq := change.serverSeq
    applied := p.applied ++ [change]}

def takePage (clock : Nat → String) (p : Progress) (changes : List ObjectChange) : Progress :=
  changes.foldl (takeChange clock) p

variable {World Key Note : Type}

-- `fuel` bounds the pages; `none` says that many were not enough. Everything
-- stored before a failing request stays stored.
def pullLoop (adapter : SyncServerAdapter World) (options : PullOptions) (clock : Nat → String) :
    Nat → World → Progress → Option (World × Progress × Except SyncNetworkError Unit)
  | 0,_,_ => none
  | fuel+1,w,p =>
    if options.maxPages.any (fun most => decide (most ≤ p.pagesFetched)) then some (w,p,.ok ())
    else match adapter.pullChanges p.currentSeq options.pageLimit w with
      | (.error e,w) => some (w,p,.error e)
      | (.ok resp,w) =>
        let p := {p with pagesFetched := p.pagesFetched+1}
        if resp.changes = [] then some (w,p,.ok ())
        else
          let p := takePage clock p resp.changes
          if resp.hasMore then pullLoop adapter options clock fuel w p else some (w,p,.ok ())

-- One item for each applied change; the first envelope that does not open ends
-- the pull with an error, after everything has been stored.
def decryptItems (codec : NoteCodec Key Note) (key : Key) :
    List ObjectChange → Except PullError (List (DecryptedPullItem Note))
  | [] => .ok []
  | change :: rest =>
    if change.isDeleted then do
      let items ← decryptItems codec key rest
      return ⟨change.objectId,change.revision,change.serverSeq,true,none⟩ :: items
    else match codec.decrypt change.envelope key with
      | .error e => .error (.core e)
      | .ok note => do
        let items ← decryptItems codec key rest
        return ⟨change.objectId,change.revision,change.serverSeq,false,some note⟩ :: items

theorem decrypt_items_error {codec : NoteCodec Key Note} {key : Key} {changes : List ObjectChange} {e : SyncNetworkError} :
    decryptItems codec key changes ≠ .error (.network e) := by
  induction changes with
  | nil => simp [decryptItems]
  | cons change rest ih =>
      unfold decryptItems
      split
      · cases decrypted : decryptItems codec key rest with
        | ok items => simp [bind,Except.bind,pure,Except.pure]
        | error failure => simpa [bind,Except.bind,decrypted] using ih
      · split
        · simp
        · cases decrypted : decryptItems codec key rest with
          | ok items => simp [bind,Except.bind,pure,Except.pure]
          | error failure => simpa [bind,Except.bind,decrypted] using ih

def pullReport (p : Progress) (initialCursor : Nat) (wasUnlocked : Bool) (items : List (DecryptedPullItem Note)) :
    PullReport Note :=
  ⟨p.pagesFetched,p.applied.length,p.applied.length,initialCursor,p.currentSeq,wasUnlocked,items⟩

def startPull (s : Storage) : Progress := ⟨s,currentCursor s,0,[]⟩

def pullRemoteChanges (adapter : SyncServerAdapter World) (codec : NoteCodec Key Note) (vaultKey : Option Key)
    (options : PullOptions) (clock : Nat → String) (fuel : Nat) (w : World) (s : Storage) :
    Option (World × Storage × Except PullError (PullReport Note)) :=
  match pullLoop adapter options clock fuel w (startPull s) with
  | none => none
  | some (w,p,.error e) => some (w,p.storage,.error (.network e))
  | some (w,p,.ok ()) =>
    let stored := recordSyncSuccess p.storage (clock p.applied.length)
    match vaultKey with
    | none => some (w,stored,.ok (pullReport p (currentCursor s) false []))
    | some key =>
      some (w,stored,(decryptItems codec key p.applied).map (pullReport p (currentCursor s) true))

-- A pull writes objects and the cursor, nothing else.
structure PullFrame (s t : Storage) : Prop where
  mutations : t.mutations = s.mutations
  baseVersions : t.baseVersions = s.baseVersions
  conflicts : t.conflicts = s.conflicts

theorem frame_trans {r s t : Storage} (one : PullFrame r s) (two : PullFrame s t) : PullFrame r t :=
  ⟨two.mutations.trans one.mutations,two.baseVersions.trans one.baseVersions,two.conflicts.trans one.conflicts⟩

theorem take_page_stores {Inv : Storage → Prop} {Fine : ObjectChange → Prop} (clock : Nat → String)
    (store : ∀ s change now, Inv s → Fine change → currentCursor s < change.serverSeq →
      Inv ((s.putObject (storedOf change now)).setSyncCursor change.serverSeq))
    (changes : List ObjectChange) (fine : ∀ change ∈ changes, Fine change) {p : Progress} (start : Inv p.storage) :
    Inv (takePage clock p changes).storage := by
  induction changes generalizing p with
  | nil => exact start
  | cons change rest ih =>
      refine ih (fun later inside => fine later (List.mem_cons_of_mem _ inside)) (p := takeChange clock p change) ?_
      unfold takeChange
      split
      · exact start
      · simp only [applyChange]
        split
        · exact start
        · rename_i fresh
          apply store _ _ _ start (fine change List.mem_cons_self)
          exact Nat.lt_of_not_le fresh

-- The loop, once: what every request keeps, and the storing of every served
-- change above the cursor, holds at its end.
theorem pull_loop_rule {adapter : SyncServerAdapter World} (Inv : World → Storage → Prop) (Fine : ObjectChange → Prop)
    (served : ∀ after limit w s, Inv w s → Inv (adapter.pullChanges after limit w).2 s ∧
      ∀ page, (adapter.pullChanges after limit w).1 = .ok page → ∀ change ∈ page.changes, Fine change)
    (store : ∀ w s change now, Inv w s → Fine change → currentCursor s < change.serverSeq →
      Inv w ((s.putObject (storedOf change now)).setSyncCursor change.serverSeq))
    (fuel : Nat) {p q : Progress} {w : World} (start : Inv w p.storage)
    (ran : pullLoop adapter options clock fuel w p = some (w',q,ended)) : Inv w' q.storage := by
  induction fuel generalizing w p with
  | zero => cases ran
  | succ fuel ih =>
      obtain ⟨next,fine⟩ := served p.currentSeq options.pageLimit w p.storage start
      rw [pullLoop] at ran
      split at ran
      · cases ran
        exact start
      · split at ran
        · rename_i answer
          rw [answer] at next
          cases ran
          exact next
        · rename_i page w₁ answer
          rw [answer] at next fine
          have stored := take_page_stores clock (store w₁) page.changes (fine page rfl)
            (p := {p with pagesFetched := p.pagesFetched+1}) next
          simp only at ran
          split at ran
          · cases ran
            exact next
          · split at ran
            · exact ih stored ran
            · cases ran
              exact stored

theorem pull_loop_frame {adapter : SyncServerAdapter World} (fuel : Nat) {p q : Progress} {w : World}
    (ran : pullLoop adapter options clock fuel w p = some (w',q,ended)) : PullFrame p.storage q.storage := by
  refine pull_loop_rule (fun _ s => PullFrame p.storage s) (fun _ => True) ?_ ?_ fuel ⟨rfl,rfl,rfl⟩ ran
  · intro after limit w s kept
    exact ⟨kept,fun _ _ _ _ => trivial⟩
  · intro w s change now kept _ _
    exact frame_trans kept ⟨rfl,rfl,rfl⟩

-- A pull is its loop and the time stamp of a success.
theorem pull_ran {s t : Storage} {adapter : SyncServerAdapter World} {codec : NoteCodec Key Note} {w : World}
    (ran : pullRemoteChanges adapter codec vaultKey options clock fuel w s = some (w',t,result)) :
    ∃ p ended, pullLoop adapter options clock fuel w (startPull s) = some (w',p,ended) ∧
      t.objects = p.storage.objects ∧ currentCursor t = currentCursor p.storage ∧ PullFrame p.storage t := by
  unfold pullRemoteChanges at ran
  split at ran
  · cases ran
  · rename_i looped
    cases ran
    exact ⟨_,_,looped,rfl,rfl,rfl,rfl,rfl⟩
  · rename_i looped
    split at ran <;> cases ran <;> exact ⟨_,_,looped,rfl,rfl,rfl,rfl,rfl⟩

-- A pull that met no network error is a loop that ended, with its time stamp.
theorem pull_unbroken {s t : Storage} {adapter : SyncServerAdapter World} {codec : NoteCodec Key Note} {w : World}
    (ran : pullRemoteChanges adapter codec vaultKey options clock fuel w s = some (w',t,result))
    (whole : ∀ e, result ≠ .error (.network e)) :
    ∃ p, pullLoop adapter options clock fuel w (startPull s) = some (w',p,.ok ()) ∧
      t = recordSyncSuccess p.storage (clock p.applied.length) := by
  unfold pullRemoteChanges at ran
  split at ran
  · cases ran
  · cases ran
    exact absurd rfl (whole _)
  · rename_i looped
    split at ran <;> cases ran <;> exact ⟨_,looped,rfl⟩

theorem looped_returns {s : Storage} {adapter : SyncServerAdapter World} {w : World} (codec : NoteCodec Key Note) (vaultKey : Option Key)
    (looped : pullLoop adapter options clock fuel w (startPull s) = some (w',p,.ok ())) :
    ∃ t result, pullRemoteChanges adapter codec vaultKey options clock fuel w s = some (w',t,result) ∧
      ∀ e, result ≠ .error (.network e) := by
  refine ⟨recordSyncSuccess p.storage (clock p.applied.length),?_⟩
  simp only [pullRemoteChanges,looped]
  cases vaultKey with
  | none => exact ⟨_,rfl,by simp⟩
  | some key =>
      refine ⟨_,rfl,?_⟩
      intro e failed
      cases decrypted : decryptItems codec key p.applied with
      | ok items => rw [decrypted] at failed; cases failed
      | error other =>
          rw [decrypted] at failed
          cases failed
          exact decrypt_items_error decrypted

theorem pull_frame {s t : Storage} {adapter : SyncServerAdapter World} {codec : NoteCodec Key Note} {w : World}
    (ran : pullRemoteChanges adapter codec vaultKey options clock fuel w s = some (w',t,result)) : PullFrame s t := by
  obtain ⟨p,ended,looped,_,_,frame⟩ := pull_ran ran
  exact frame_trans (pull_loop_frame fuel looped) frame

-- What no request of a pull can change holds after it.
theorem pull_world {s t : Storage} {adapter : SyncServerAdapter World} {codec : NoteCodec Key Note} {w : World}
    (Kept : World → Prop) (step : ∀ after limit w, Kept w → Kept (adapter.pullChanges after limit w).2) (start : Kept w)
    (ran : pullRemoteChanges adapter codec vaultKey options clock fuel w s = some (w',t,result)) : Kept w' := by
  obtain ⟨p,ended,looped,_⟩ := pull_ran ran
  refine pull_loop_rule (fun w _ => Kept w) (fun _ => True) ?_ ?_ fuel start looped
  · intro after limit w s kept
    exact ⟨step after limit w kept,fun _ _ _ _ => trivial⟩
  · intro w s change now kept _ _
    exact kept

end ZkNote.PullChanges
