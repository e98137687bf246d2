import ZkNote.PullComplete
import ZkNote.Runs

namespace ZkNote.CrashSafePull
open Protocol Adapter KeyedTable ServerStore ServerHistory ServerPages ServerRoutes SyncLink LocalStorage PullChanges PullRules PullComplete
open Runs

variable {crates : Crates} {account : String} {clock : Nat → String} {World Key Note : Type} {l l' : Link} {s s₀ t : Storage}
  {db : ServerDb} {r : EncryptedObjectRow}

-- Storage whose writes may fail. `writes` says what becomes of each coming one:
-- `none` lets it through, an error returns with nothing written. A process that
-- stops leaves what a failure of its next write leaves. After the list every
-- write goes through.
structure Disk where
  storage : Storage
  writes : List (Option StorageError)

def Disk.write (d : Disk) (change : Storage → Storage) : Except StorageError Unit × Disk :=
  match d.writes with
  | [] => (.ok (),⟨change d.storage,[]⟩)
  | none :: rest => (.ok (),⟨change d.storage,rest⟩)
  | some e :: rest => (.error e,⟨d.storage,rest⟩)

def Disk.putObject (d : Disk) (object : StoredEncryptedObject) : Except StorageError Unit × Disk :=
  d.write (·.putObject object)

def Disk.setSyncCursor (d : Disk) (cursor : Nat) : Except StorageError Unit × Disk :=
  d.write (·.setSyncCursor cursor)

def Disk.applyChange (d : Disk) (change : ObjectChange) (now : String) : Except StorageError Nat × Disk :=
  if change.serverSeq ≤ currentCursor d.storage then (.ok (currentCursor d.storage),d)
  else match d.putObject (storedOf change now) with
    | (.error e,d) => (.error e,d)
    | (.ok _,d) =>
      match d.setSyncCursor change.serverSeq with
      | (.error e,d) => (.error e,d)
      | (.ok _,d) => (.ok change.serverSeq,d)

inductive LoopFailure where
  | network (error : SyncNetworkError)
  | storage (error : StorageError)
  deriving DecidableEq, Repr

inductive PullFailure where
  | loop (failed : LoopFailure)
  | core (message : String)
  deriving DecidableEq, Repr

def PullFailure.of : PullError → PullFailure
  | .network e => .loop (.network e)
  | .core message => .core message

structure DiskProgress where
  disk : Disk
  currentSeq : Nat
  pagesFetched : Nat
  applied : List ObjectChange

def Disk.takePage (clock : Nat → String) : DiskProgress → List ObjectChange → Except StorageError Unit × DiskProgress
  | p,[] => (.ok (),p)
  | p,change :: rest =>
    if change.serverSeq ≤ p.currentSeq ∧ 0 < p.currentSeq then Disk.takePage clock p rest
    else match p.disk.applyChange change (clock p.applied.length) with
      | (.error e,disk) => (.error e,{p with disk := disk})
      | (.ok _,disk) =>
        Disk.takePage clock {p with disk := disk,currentSeq := change.serverSeq,applied := p.applied ++ [change]} rest

def Disk.pullLoop (adapter : SyncServerAdapter World) (options : PullOptions) (clock : Nat → String) :
    Nat → World → DiskProgress → Option (World × DiskProgress × Except LoopFailure Unit)
  | 0,_,_ => none
  | fuel+1,w,p =>
    if options.maxPages.any (fun most => decide (most ≤ p.pagesFetched)) then some (w,p,.ok ())
    else match adapter.pullChanges p.currentSeq options.pageLimit w with
      | (.error e,w) => some (w,p,.error (.network e))
      | (.ok resp,w) =>
        let p := {p with pagesFetched := p.pagesFetched+1}
        if resp.changes = [] then some (w,p,.ok ())
        else match Disk.takePage clock p resp.changes with
          | (.error e,p) => some (w,p,.error (.storage e))
          | (.ok _,p) => if resp.hasMore then Disk.pullLoop adapter options clock fuel w p else some (w,p,.ok ())

def DiskProgress.seen (p : DiskProgress) : Progress := ⟨p.disk.storage,p.currentSeq,p.pagesFetched,p.applied⟩

-- The time stamp of a success is written, and its failure ignored.
def Disk.pullRemoteChanges (adapter : SyncServerAdapter World) (codec : NoteCodec Key Note) (vaultKey : Option Key)
    (options : PullOptions) (clock : Nat → String) (fuel : Nat) (w : World) (d : Disk) :
    Option (World × Disk × Except PullFailure (PullReport Note)) :=
  match Disk.pullLoop adapter options clock fuel w ⟨d,currentCursor d.storage,0,[]⟩ with
  | none => none
  | some (w,p,.error e) => some (w,p.disk,.error (.loop e))
  | some (w,p,.ok ()) =>
    let stored := (p.disk.write (recordSyncSuccess · (clock p.applied.length))).2
    match vaultKey with
    | none => some (w,stored,.ok (pullReport p.seen (currentCursor d.storage) false []))
    | some key =>
      match decryptItems codec key p.applied with
      | .error e => some (w,stored,.error (.of e))
      | .ok items => some (w,stored,.ok (pullReport p.seen (currentCursor d.storage) true items))

-- With every write going through this is the pull of the engine.
theorem calm_apply (d : Disk) (calm : d.writes = []) (change : ObjectChange) (now : String) :
    (∃ seq, (d.applyChange change now).1 = .ok seq) ∧ (d.applyChange change now).2 = ⟨PullChanges.applyChange d.storage change now,[]⟩ := by
  obtain ⟨storage,writes⟩ := d
  subst calm
  unfold Disk.applyChange PullChanges.applyChange
  split
  · exact ⟨⟨_,rfl⟩,rfl⟩
  · exact ⟨⟨_,rfl⟩,rfl⟩

theorem calm_page (clock : Nat → String) (changes : List ObjectChange) {p : DiskProgress} (calm : p.disk.writes = []) :
    (Disk.takePage clock p changes).1 = .ok () ∧ (Disk.takePage clock p changes).2.disk.writes = [] ∧
      (Disk.takePage clock p changes).2.seen = PullChanges.takePage clock p.seen changes := by
  induction changes generalizing p with
  | nil => exact ⟨rfl,calm,rfl⟩
  | cons change rest ih =>
      unfold Disk.takePage
      by_cases old : change.serverSeq ≤ p.currentSeq ∧ 0 < p.currentSeq
      · have stay : takeChange clock p.seen change = p.seen := if_pos old
        rw [if_pos old]
        refine ⟨(ih calm).1,(ih calm).2.1,?_⟩
        rw [(ih calm).2.2,PullChanges.takePage,PullChanges.takePage,List.foldl_cons,stay]
      · obtain ⟨⟨seq,ok⟩,written⟩ := calm_apply p.disk calm change (clock p.applied.length)
        have pair : p.disk.applyChange change (clock p.applied.length) =
            (.ok seq,⟨PullChanges.applyChange p.disk.storage change (clock p.applied.length),[]⟩) := Prod.ext ok written
        rw [if_neg old,pair]
        obtain ⟨done,still,same⟩ := ih (p := ⟨⟨PullChanges.applyChange p.disk.storage change (clock p.applied.length),[]⟩,
          change.serverSeq,p.pagesFetched,p.applied ++ [change]⟩) rfl
        refine ⟨done,still,?_⟩
        have move : takeChange clock p.seen change = DiskProgress.seen
            ⟨⟨PullChanges.applyChange p.disk.storage change (clock p.applied.length),[]⟩,
              change.serverSeq,p.pagesFetched,p.applied ++ [change]⟩ := if_neg old
        rw [PullChanges.takePage,List.foldl_cons,move]
        exact same

theorem calm_loop (adapter : SyncServerAdapter World) (options : PullOptions) (clock : Nat → String) (fuel : Nat) {w : World}
    {p : DiskProgress} {q : Progress} (calm : p.disk.writes = [])
    (ran : PullChanges.pullLoop adapter options clock fuel w p.seen = some (w',q,ended)) :
    ∃ q', Disk.pullLoop adapter options clock fuel w p = some (w',q',ended.mapError .network) ∧
      q'.seen = q ∧ q'.disk.writes = [] := by
  induction fuel generalizing w p with
  | zero => cases ran
  | succ fuel ih =>
      rw [PullChanges.pullLoop] at ran
      rw [Disk.pullLoop]
      split at ran
      · rename_i full
        cases ran
        exact ⟨p,by rw [if_pos (by exact full)]; rfl,rfl,calm⟩
      · rename_i room
        rw [if_neg (by exact room)]
        split at ran
        · rename_i answer
          cases ran
          have answer : adapter.pullChanges p.currentSeq options.pageLimit w = _ := answer
          exact ⟨p,by rw [answer]; rfl,rfl,calm⟩
        · rename_i page w₁ answer
          have answer : adapter.pullChanges p.currentSeq options.pageLimit w = _ := answer
          rw [answer]
          obtain ⟨done,still,same⟩ := calm_page clock page.changes (p := {p with pagesFetched := p.pagesFetched+1}) calm
          have pair : Disk.takePage clock {p with pagesFetched := p.pagesFetched+1} page.changes =
              (.ok (),(Disk.takePage clock {p with pagesFetched := p.pagesFetched+1} page.changes).2) := Prod.ext done rfl
          dsimp only at ran ⊢
          split at ran
          · rename_i empty
            cases ran
            exact ⟨{p with pagesFetched := p.pagesFetched+1},by rw [if_pos empty]; rfl,rfl,calm⟩
          · rename_i full
            rw [if_neg full,pair]
            dsimp only
            split at ran
            · rename_i more
              rw [if_pos more]
              exact ih still (by rw [same]; exact ran)
            · rename_i last
              cases ran
              exact ⟨_,by rw [if_neg last]; rfl,same,still⟩

theorem calm_pull {codec : NoteCodec Key Note} {vaultKey : Option Key} {adapter : SyncServerAdapter World} {w : World}
    (ran : PullChanges.pullRemoteChanges adapter codec vaultKey options clock fuel w s = some (w',t,result)) :
    Disk.pullRemoteChanges adapter codec vaultKey options clock fuel w ⟨s,[]⟩ = some (w',⟨t,[]⟩,result.mapError .of) := by
  unfold PullChanges.pullRemoteChanges at ran
  unfold Disk.pullRemoteChanges
  split at ran
  · cases ran
  · rename_i looped
    cases ran
    obtain ⟨q,same,rfl,still⟩ := calm_loop adapter options clock fuel (p := ⟨⟨s,[]⟩,currentCursor s,0,[]⟩) rfl looped
    rw [same]
    obtain ⟨⟨storage,writes⟩,seq,pages,applied⟩ := q
    cases still
    rfl
  · rename_i looped
    obtain ⟨q,same,rfl,still⟩ := calm_loop adapter options clock fuel (p := ⟨⟨s,[]⟩,currentCursor s,0,[]⟩) rfl looped
    rw [same]
    obtain ⟨⟨storage,writes⟩,seq,pages,applied⟩ := q
    cases still
    simp only [DiskProgress.seen] at ran
    split at ran
    · cases ran
      rfl
    · rename_i key
      cases opened : decryptItems codec key applied <;> rw [opened] at ran <;> cases ran <;> simp only [Except.mapError,opened] <;> rfl

-- What every storage on the way keeps, seen from the storage `s₀` the first
-- pull started from: heads between the two cursors are stored, and an object
-- that differs from `s₀` has a head above the first cursor.
structure Resumable (account : String) (s₀ : Storage) (db : ServerDb) (s : Storage) : Prop where
  caught : Caught account (currentCursor s₀) db (startPull s)
  changed : ∀ id, s.getObject id = s₀.getObject id ∨
    ∃ r ∈ db.objects.rows, r.accountId = account ∧ r.objectId = id ∧ currentCursor s₀ < r.serverSeq

theorem resumable_start (account : String) (db : ServerDb) (s : Storage) : Resumable account s db s :=
  ⟨start_caught account db s,fun _ => .inl rfl⟩

theorem resumable_others (rep : Represents crates log db) (later : Represents crates (log ++ more) next)
    (resumable : Resumable account s₀ db s) : Resumable account s₀ next s := by
  refine ⟨caught_others rep later resumable.caught,?_⟩
  intro id
  rcases resumable.changed id with same | ⟨r,member,own,is,above⟩
  · exact .inl same
  · obtain ⟨q,present,account,object,newer,_⟩ := head_successor rep later member
    exact .inr ⟨q,present,account.trans own,object.trans is,by omega⟩

theorem resumable_ensured (resumable : Resumable account s₀ db s) : Resumable account s₀ (ensureAccount db account) s := by
  obtain ⟨⟨start,held,issued,topped⟩,changed⟩ := resumable
  exact ⟨⟨start,by simpa using held,by simpa using issued,by simpa using topped⟩,by simpa using changed⟩

-- The object of the next head may already be there when the cursor is not.
theorem resumable_put (resumable : Resumable account s₀ db s) (head : NextHead account db (currentCursor s) r) (now : String) :
    Resumable account s₀ db (s.putObject (storedOf (changeOf r) now)) := by
  obtain ⟨⟨start,held,issued,topped⟩,changed⟩ := resumable
  refine ⟨⟨start,?_,issued,topped⟩,?_⟩
  · intro q present own above below
    have below : q.serverSeq ≤ currentCursor s := below
    have apart : q.objectId ≠ (changeOf r).objectId := by
      intro same
      have equal : q = r := by
        have one := mem_iff_find.mp present
        have two := mem_iff_find.mp head.member
        rw [own,show q.objectId = r.objectId from same] at one
        rw [head.own] at two
        exact Option.some.inj (one.symm.trans two)
      have further := head.above
      rw [equal] at below
      omega
    exact holds_other (held q present own above below) apart now (currentCursor s)
  · intro id
    by_cases same : r.objectId = id
    · have further := head.above
      have start : currentCursor s₀ ≤ currentCursor s := start
      exact .inr ⟨r,head.member,head.own,same,by omega⟩
    · have kept : (s.putObject (storedOf (changeOf r) now)).getObject id = s.getObject id :=
        find_upsert_other _ _ (by simpa [storedOf,changeOf] using same)
      rw [kept]
      exact changed id

theorem resumable_taken (rep : Represents crates log db) (resumable : Resumable account s₀ db s)
    (head : NextHead account db (currentCursor s) r) (now : String) :
    Resumable account s₀ db ((s.putObject (storedOf (changeOf r) now)).setSyncCursor r.serverSeq) := by
  obtain ⟨start,held,issued,topped⟩ := caught_taken rep resumable.caught head (fun _ => now)
  exact ⟨⟨start,held,issued,topped⟩,(resumable_put resumable head now).changed⟩

-- The three ends of one change: nothing written, the object alone, or both.
theorem apply_ends (d : Disk) (change : ObjectChange) (now : String) (fresh : currentCursor d.storage < change.serverSeq) :
    (∃ e, (d.applyChange change now).1 = .error e ∧
      ((d.applyChange change now).2.storage = d.storage ∨
        (d.applyChange change now).2.storage = d.storage.putObject (storedOf change now))) ∨
    ((d.applyChange change now).1 = .ok change.serverSeq ∧
      (d.applyChange change now).2.storage = (d.storage.putObject (storedOf change now)).setSyncCursor change.serverSeq) := by
  obtain ⟨storage,writes⟩ := d
  unfold Disk.applyChange
  rw [if_neg (by exact Nat.not_le.mpr fresh)]
  cases writes with
  | nil => exact .inr ⟨rfl,rfl⟩
  | cons first rest =>
      cases first with
      | some e => exact .inl ⟨e,rfl,.inl rfl⟩
      | none =>
          cases rest with
          | nil => exact .inr ⟨rfl,rfl⟩
          | cons second rest =>
              cases second with
              | some e => exact .inl ⟨e,rfl,.inr rfl⟩
              | none => exact .inr ⟨rfl,rfl⟩

-- A page that may break off anywhere.
theorem disk_page_keeps (rep : Represents crates log db) (ascends : Ascends account db cursor rows) {p : DiskProgress}
    (stands : p.currentSeq = cursor) (durable : currentCursor p.disk.storage = p.currentSeq)
    (resumable : Resumable account s₀ db p.disk.storage) :
    Resumable account s₀ db (Disk.takePage clock p (rows.map changeOf)).2.disk.storage ∧
      ((Disk.takePage clock p (rows.map changeOf)).1 = .ok () →
        currentCursor (Disk.takePage clock p (rows.map changeOf)).2.disk.storage =
            (Disk.takePage clock p (rows.map changeOf)).2.currentSeq ∧
          p.currentSeq ≤ (Disk.takePage clock p (rows.map changeOf)).2.currentSeq ∧
          ∀ r ∈ rows, r.serverSeq ≤ (Disk.takePage clock p (rows.map changeOf)).2.currentSeq) := by
  induction ascends generalizing p with
  | done cursor => exact ⟨resumable,fun _ => ⟨durable,Nat.le_refl _,by simp⟩⟩
  | @skipped cursor rest r positive old more ih =>
      have page : Disk.takePage clock p ((r :: rest).map changeOf) = Disk.takePage clock p (rest.map changeOf) := by
        have skip : (changeOf r).serverSeq ≤ p.currentSeq ∧ 0 < p.currentSeq := by simp only [changeOf]; omega
        rw [List.map_cons,Disk.takePage,if_pos skip]
      rw [page]
      refine ⟨(ih stands durable resumable).1,fun ok => ?_⟩
      obtain ⟨still,grown,all⟩ := (ih stands durable resumable).2 ok
      refine ⟨still,grown,?_⟩
      intro x inside
      rcases List.mem_cons.mp inside with rfl | later
      · omega
      · exact all x later
  | @next cursor rest r head more ih =>
      subst stands
      rw [← durable] at head
      have above := head.above
      have fresh : currentCursor p.disk.storage < (changeOf r).serverSeq := above
      have walk : ¬((changeOf r).serverSeq ≤ p.currentSeq ∧ 0 < p.currentSeq) := by omega
      rw [List.map_cons,Disk.takePage,if_neg walk]
      have ends := apply_ends p.disk (changeOf r) (clock p.applied.length) fresh
      generalize p.disk.applyChange (changeOf r) (clock p.applied.length) = result at ends ⊢
      obtain ⟨outcome,disk⟩ := result
      rcases ends with ⟨e,failed,stored⟩ | ⟨ok,stored⟩
      · cases failed
        refine ⟨?_,by simp⟩
        rcases stored with same | put
        · exact same ▸ resumable
        · exact put ▸ resumable_put resumable head _
      · cases ok
        obtain ⟨after,rest⟩ := ih (p := ⟨disk,r.serverSeq,p.pagesFetched,p.applied ++ [changeOf r]⟩) rfl (by rw [stored]; rfl)
          (by rw [stored]; exact resumable_taken rep resumable head _)
        refine ⟨after,fun done => ?_⟩
        obtain ⟨still,grown,all⟩ := rest done
        have grown : r.serverSeq ≤ _ := grown
        refine ⟨still,Nat.le_trans (Nat.le_of_lt (durable ▸ above)) grown,?_⟩
        intro x inside
        rcases List.mem_cons.mp inside with rfl | later
        · exact grown
        · exact all x later

-- A loop that returned without a failure: it read a last page, or was cut off
-- by its page budget.
def Reached (account : String) (options : PullOptions) (pulls : List PullChangesResponse) (l' : Link) (cursor : Nat) : Prop :=
  (l'.pulls = pulls ∨ ∃ page, l'.pulls.getLast? = some page ∧ (LastPage page → Covered account l'.db cursor)) ∧
  (options.maxPages = none → Covered account l'.db cursor)

theorem disk_served_keeps (rep : Represents crates log db) (clock : Nat → String) (limit : Nat) {p : DiskProgress}
    (durable : currentCursor p.disk.storage = p.currentSeq) (resumable : Resumable account s₀ db p.disk.storage) :
    let page := (pullChanges db account p.currentSeq limit).1
    let taken := Disk.takePage clock p page.changes
    Resumable account s₀ db taken.2.disk.storage ∧
      (taken.1 = .ok () → currentCursor taken.2.disk.storage = taken.2.currentSeq ∧
        (page.hasMore = false → Covered account db taken.2.currentSeq)) := by
  dsimp only
  rw [pull_changes_eq]
  obtain ⟨kept,whole⟩ := disk_page_keeps rep (page_ascends rep account p.currentSeq limit) rfl durable resumable
  refine ⟨kept,fun ok => ?_⟩
  obtain ⟨still,grown,all⟩ := whole ok
  exact ⟨still,fun last => page_covers last grown all⟩

theorem disk_loop_keeps (fuel : Nat) {p q : DiskProgress} (rep : Represents crates log l.db)
    (durable : currentCursor p.disk.storage = p.currentSeq) (resumable : Resumable account s₀ l.db p.disk.storage)
    (ran : Disk.pullLoop (honest crates account) options clock fuel l p = some (l',q,result)) :
    (∃ more, Represents crates (log ++ more) l'.db) ∧ Resumable account s₀ l'.db q.disk.storage ∧
      (result = .ok () → Reached account options l.pulls l' (currentCursor q.disk.storage)) := by
  induction fuel generalizing l log p with
  | zero => cases ran
  | succ fuel ih =>
      rw [Disk.pullLoop] at ran
      split at ran
      · rename_i full
        cases ran
        refine ⟨⟨[],by simpa using rep⟩,resumable,fun _ => ⟨.inl rfl,?_⟩⟩
        intro unlimited
        rw [unlimited] at full
        cases full
      · have arrived : Represents crates (log ++ acceptedBy crates l.db l.slot.others) (l.arrived crates) :=
          pushAll_represents rep _
        have moved := resumable_others rep arrived resumable
        simp only [honest] at ran
        cases fault : l.slot.fault with
        | some broken =>
            obtain ⟨e,db,answer,tables⟩ := server_pull_broken crates account fault p.currentSeq options.pageLimit
            rw [answer] at ran
            cases ran
            rcases tables with rfl | rfl
            · exact ⟨⟨_,arrived⟩,moved,by simp⟩
            · exact ⟨⟨_,represents_ensured arrived account⟩,resumable_ensured moved,by simp⟩
        | none =>
            rw [server_pull_answered fault] at ran
            have ensured := represents_ensured arrived account
            obtain ⟨paged,whole⟩ := disk_served_keeps (p := {p with pagesFetched := p.pagesFetched+1}) arrived clock
              (clampLimit options.pageLimit) durable moved
            have empties := empty_page_last (l.arrived crates) account p.currentSeq (clamp_positive options.pageLimit)
            dsimp only at ran paged whole
            generalize (pullChanges (l.arrived crates) account p.currentSeq (clampLimit options.pageLimit)).1 = page
              at ran paged whole empties
            have recorded : (l.pulls ++ [page]).getLast? = some page := by simp
            have visible : ∀ cursor, Covered account (l.arrived crates) cursor →
                Covered account (ensureAccount (l.arrived crates) account) cursor := by
              intro cursor covered
              simpa [Covered] using covered
            split at ran
            · rename_i empty
              cases ran
              rw [empty] at whole
              have covered := visible _ ((whole rfl).2 (empties empty))
              rw [← (whole rfl).1] at covered
              exact ⟨⟨_,ensured⟩,resumable_ensured moved,fun _ => ⟨.inr ⟨page,recorded,fun _ => covered⟩,fun _ => covered⟩⟩
            · rename_i full
              generalize Disk.takePage clock {p with pagesFetched := p.pagesFetched+1} page.changes = taken at ran paged whole
              obtain ⟨ended,q₁⟩ := taken
              cases ended with
              | error e =>
                  cases ran
                  exact ⟨⟨_,ensured⟩,resumable_ensured paged,by simp⟩
              | ok _ =>
                  obtain ⟨still,covers⟩ := whole rfl
                  dsimp only at ran
                  split at ran
                  · rename_i more
                    obtain ⟨⟨added,extended⟩,after,reached⟩ := ih ensured still (resumable_ensured paged) ran
                    rw [List.append_assoc] at extended
                    refine ⟨⟨_,extended⟩,after,fun ok => ⟨?_,(reached ok).2⟩⟩
                    rcases (reached ok).1 with same | further
                    · refine .inr ⟨page,by rw [same]; exact recorded,?_⟩
                      rintro (ended | empty)
                      · rw [more] at ended; cases ended
                      · exact absurd empty full
                    · exact .inr further
                  · rename_i done
                    cases ran
                    have covered := visible _ (covers (by simpa using done))
                    rw [← still] at covered
                    exact ⟨⟨_,ensured⟩,resumable_ensured paged,fun _ => ⟨.inr ⟨page,recorded,fun _ => covered⟩,fun _ => covered⟩⟩

theorem write_stamp (d : Disk) (now : String) :
    (d.write (recordSyncSuccess · now)).2.storage = d.storage ∨
      (d.write (recordSyncSuccess · now)).2.storage = recordSyncSuccess d.storage now := by
  unfold Disk.write
  split
  · exact .inr rfl
  · exact .inr rfl
  · exact .inl rfl

theorem resumable_stamped (resumable : Resumable account s₀ db s) (now : String) : Resumable account s₀ db (recordSyncSuccess s now) := by
  obtain ⟨⟨start,held,issued,topped⟩,changed⟩ := resumable
  exact ⟨⟨start,held,issued,topped⟩,changed⟩

theorem disk_pull_keeps {codec : NoteCodec Key Note} {vaultKey : Option Key} {d d' : Disk} (rep : Represents crates log l.db)
    (resumable : Resumable account s₀ l.db d.storage)
    (ran : Disk.pullRemoteChanges (honest crates account) codec vaultKey options clock fuel l d = some (l',d',result)) :
    (∃ more, Represents crates (log ++ more) l'.db) ∧ Resumable account s₀ l'.db d'.storage ∧
      ((∀ e, result ≠ .error (.loop e)) → Reached account options l.pulls l' (currentCursor d'.storage)) := by
  unfold Disk.pullRemoteChanges at ran
  split at ran
  · cases ran
  · rename_i e looped
    cases ran
    obtain ⟨grown,kept,_⟩ := disk_loop_keeps fuel rep rfl resumable looped
    exact ⟨grown,kept,fun whole => absurd rfl (whole e)⟩
  · rename_i w p looped
    obtain ⟨grown,kept,reached⟩ := disk_loop_keeps fuel rep rfl resumable looped
    have stamped : ∀ now, Resumable account s₀ w.db (p.disk.write (recordSyncSuccess · now)).2.storage ∧
        currentCursor (p.disk.write (recordSyncSuccess · now)).2.storage = currentCursor p.disk.storage := by
      intro now
      rcases write_stamp p.disk now with same | same
      · rw [same]; exact ⟨kept,rfl⟩
      · rw [same]; exact ⟨resumable_stamped kept now,rfl⟩
    obtain ⟨stamped,cursor⟩ := stamped (clock p.applied.length)
    dsimp only at ran
    split at ran
    · cases ran
      exact ⟨grown,stamped,fun _ => cursor ▸ reached rfl⟩
    · split at ran
      · cases ran
        exact ⟨grown,stamped,fun _ => cursor ▸ reached rfl⟩
      · cases ran
        exact ⟨grown,stamped,fun _ => cursor ▸ reached rfl⟩

-- An object with the time it was written left out.
def untimed (o : StoredEncryptedObject) : StoredEncryptedObject := {o with updatedAt := ""}

def SameObjects (s t : Storage) : Prop := ∀ id, (s.getObject id).map untimed = (t.getObject id).map untimed

theorem holds_untimed (holds : Holds s r) : (s.getObject r.objectId).map untimed = some (storedOf (changeOf r) "") := by
  obtain ⟨updatedAt,found⟩ := holds
  rw [found]
  rfl

-- Once nothing lies above the cursor, the storage is settled by where it
-- started and by the server's heads.
theorem settled_object (resumable : Resumable account s₀ db s) (covered : Covered account db (currentCursor s))
    (member : r ∈ db.objects.rows) (own : r.accountId = account) (above : currentCursor s₀ < r.serverSeq) :
    (s.getObject r.objectId).map untimed = some (storedOf (changeOf r) "") :=
  holds_untimed (resumable.caught.held r member own above (covered r member own))

theorem settled_same (one : Resumable account s₀ db s) (two : Resumable account s₀ db t)
    (coversOne : Covered account db (currentCursor s)) (coversTwo : Covered account db (currentCursor t)) : SameObjects s t := by
  intro id
  rcases one.changed id with first | ⟨r,member,own,rfl,above⟩
  · rcases two.changed id with second | ⟨r,member,own,rfl,above⟩
    · rw [first,second]
    · rw [settled_object one coversOne member own above,settled_object two coversTwo member own above]
  · rw [settled_object one coversOne member own above,settled_object two coversTwo member own above]

theorem settled_cursor (one : Resumable account s₀ db s) (two : Resumable account s₀ db t)
    (coversTwo : Covered account db (currentCursor t)) : currentCursor s ≤ currentCursor t := by
  rcases one.caught.topped with same | ⟨r,member,own,top⟩
  · have low : currentCursor s₀ ≤ currentCursor t := two.caught.start
    have same : currentCursor s = currentCursor s₀ := same
    omega
  · exact Nat.le_trans top (coversTwo r member own)

-- One start of the pull: the network and the pushes of others while it runs,
-- and the writes that go through.
structure Attempt (Key : Type) where
  schedule : List Slot
  writes : List (Option StorageError)
  vaultKey : Option Key
  options : PullOptions
  clock : Nat → String
  fuel : Nat

def Attempt.run (crates : Crates) (account : String) (codec : NoteCodec Key Note) (attempt : Attempt Key) :
    ServerDb × Storage → Option (ServerDb × Storage)
  | (db,s) =>
    (Disk.pullRemoteChanges (honest crates account) codec attempt.vaultKey attempt.options attempt.clock attempt.fuel
      ⟨db,attempt.schedule,[],[]⟩ ⟨s,attempt.writes⟩).map (fun (l,d,_) => (l.db,d.storage))

theorem attempts_resumable (codec : NoteCodec Key Note) (attempts : List (Attempt Key)) (rep : Represents crates log db)
    (resumable : Resumable account s₀ db s)
    (ran : runAll (Attempt.run crates account codec) attempts (db,s) = some (next,t)) :
    (∃ log, Represents crates log next) ∧ Resumable account s₀ next t := by
  let Inv : ServerDb × Storage → Prop := fun state =>
    (∃ log, Represents crates log state.1) ∧ Resumable account s₀ state.1 state.2
  refine run_invariant Inv ?_ attempts ⟨⟨log,rep⟩,resumable⟩ ran
  rintro attempt ⟨db,s⟩ ⟨after,stored⟩ ⟨⟨log,rep⟩,resumable⟩ taken
  obtain ⟨⟨l,d,result⟩,pulled,same⟩ := Option.map_eq_some_iff.mp taken
  cases same
  obtain ⟨⟨more,later⟩,kept,_⟩ := disk_pull_keeps (l := ⟨db,attempt.schedule,[],[]⟩) rep resumable pulled
  exact ⟨⟨_,later⟩,kept⟩

-- A pull that read to the end: no network error, and no page budget or a last page.
def Finished (options : PullOptions) (l : Link) (result : Except PullError (PullReport Note)) : Prop :=
  (∀ e, result ≠ .error (.network e)) ∧
    (options.maxPages = none ∨ ∃ page, l.pulls.getLast? = some page ∧ LastPage page)

theorem finished_covers {codec : NoteCodec Key Note} {vaultKey : Option Key} (rep : Represents crates log db)
    (resumable : Resumable account s₀ db s)
    (ran : PullChanges.pullRemoteChanges (honest crates account) codec vaultKey options clock fuel ⟨db,schedule,[],[]⟩ s =
      some (l,t,result)) :
    (∃ more, Represents crates (log ++ more) l.db) ∧ Resumable account s₀ l.db t ∧
      (Finished options l result → Covered account l.db (currentCursor t)) := by
  obtain ⟨grown,kept,reached⟩ := disk_pull_keeps (l := ⟨db,schedule,[],[]⟩) (d := ⟨s,[]⟩) rep resumable (calm_pull ran)
  refine ⟨grown,kept,?_⟩
  rintro ⟨whole,ended⟩
  have whole : ∀ e, result.mapError PullFailure.of ≠ .error (.loop e) := by
    intro e failed
    cases result with
    | ok report => cases failed
    | error error =>
        cases error with
        | core message => cases failed
        | network error => exact whole error rfl
  obtain ⟨seen,unlimited⟩ := reached whole
  rcases ended with none | ⟨page,last,final⟩
  · exact unlimited none
  · rcases seen with untouched | ⟨other,read,covers⟩
    · rw [untouched] at last
      cases last
    · rw [last] at read
      cases read
      exact covers final

-- Alone with the server, a pull changes nothing there but the account row.
theorem quiet_pull_tables {codec : NoteCodec Key Note} {vaultKey : Option Key}
    (ran : pullRemoteChanges (honest crates account) codec vaultKey options clock fuel ⟨db,[],[],[]⟩ s = some (l,t,result)) :
    l.db.objects = db.objects := by
  have kept : l.schedule = [] ∧ l.db.objects = db.objects := by
    refine pull_world (fun w => w.schedule = [] ∧ w.db.objects = db.objects) ?_ ⟨rfl,rfl⟩ ran
    rintro after limit w ⟨quiet,same⟩
    have slot : w.slot = .quiet := by simp [Link.slot,quiet]
    have arrived : w.arrived crates = w.db := by simp [Link.arrived,slot,Slot.quiet,pushAll]
    simp only [honest]
    rw [server_pull_answered (by rw [slot]; rfl),arrived]
    exact ⟨by simp [quiet],by simpa using same⟩
  exact kept.2

-- After any number of broken pulls no head is behind the cursor without being
-- stored, and a further pull that reads to the end leaves what one pull from
-- the beginning leaves. Both do end on a quiet network.
theorem pull_crash_safe (crates : Crates) (account : String) (codec : NoteCodec Key Note) (before : List Call) (s₀ : Storage)
    (attempts : List (Attempt Key))
    (ran : runAll (Attempt.run crates account codec) attempts (pushAll crates .newInMemory before,s₀) = some (db,s)) :
    currentCursor s₀ ≤ currentCursor s ∧
    (currentCursor s = currentCursor s₀ ∨ currentCursor s ≤ currentSequence db account) ∧
    (∀ r ∈ db.objects.rows, r.accountId = account → currentCursor s₀ < r.serverSeq → r.serverSeq ≤ currentCursor s → Holds s r) ∧
    (∀ vaultKey options clock fuel schedule l t result,
      pullRemoteChanges (honest crates account) codec vaultKey options clock fuel ⟨db,schedule,[],[]⟩ s = some (l,t,result) →
      Finished options l result →
      ∀ vaultKey options clock fuel l' u result,
        pullRemoteChanges (honest crates account) codec vaultKey options clock fuel ⟨l.db,[],[],[]⟩ s₀ = some (l',u,result) →
        Finished options l' result → SameObjects t u ∧ currentCursor t = currentCursor u) ∧
    (currentCursor s₀ < 2^63 → currentSequence db account < 2^63 → ∀ vaultKey pageLimit clock, ∀ start ∈ [s₀,s],
      ∃ fuel l t result, pullRemoteChanges (honest crates account) codec vaultKey ⟨pageLimit,none⟩ clock fuel ⟨db,[],[],[]⟩ start =
        some (l,t,result) ∧ Finished ⟨pageLimit,none⟩ l result) := by
  obtain ⟨⟨log,rep⟩,resumable⟩ := attempts_resumable codec attempts (reached_represents before)
    (resumable_start account _ s₀) ran
  refine ⟨resumable.caught.start,resumable.caught.issued,resumable.caught.held,?_,?_⟩
  · intro vaultKey options clock fuel schedule l t result pulled finished vaultKey' options' clock' fuel' l' u result' once ended
    obtain ⟨⟨more,later⟩,settled,covers⟩ := finished_covers rep resumable pulled
    obtain ⟨⟨none,last⟩,whole,coversOnce⟩ := finished_covers later (resumable_start account l.db s₀) once
    have moved : Resumable account s₀ l'.db t := resumable_others later last settled
    have covered : Covered account l'.db (currentCursor t) := by
      unfold Covered
      rw [quiet_pull_tables once]
      exact covers finished
    have coveredOnce := coversOnce ended
    exact ⟨settled_same moved whole covered coveredOnce,
      Nat.le_antisymm (settled_cursor moved whole coveredOnce) (settled_cursor whole moved covered)⟩
  · intro start small vaultKey pageLimit clock stored listed
    have below : currentCursor stored < 2^63 := by
      rcases List.mem_cons.mp listed with rfl | second
      · exact start
      · rw [List.mem_singleton.mp second]
        have issued : currentCursor s = currentCursor s₀ ∨ currentCursor s ≤ currentSequence db account := resumable.caught.issued
        omega
    obtain ⟨fuel,l,t,result,pulled,whole⟩ := quiet_pull_ends (l := ⟨db,[],[],[]⟩) codec vaultKey ⟨pageLimit,none⟩ clock rep rfl below small
    exact ⟨fuel,l,t,result,pulled,whole,.inl rfl⟩

-- Two notes wait. The first pull stops between the two writes of the first
-- note, the second between the two writes of the second note.
def brokenPulls : List (Attempt Unit) :=
  [⟨[],[none,some (.backend "disk full")],none,.default,fun _ => "t1",2⟩,
    ⟨[],[none,none,none,some (.backend "disk full")],none,⟨some 1,none⟩,fun _ => "t2",3⟩]

def twoNotes : List Call :=
  [("alice",upsertOf change1 firstNote 0 "aaaa"),("alice",upsertOf change2 secondNote 0 "bbbb")]

def afterBroken : Option (ServerDb × Storage) :=
  runAll (Attempt.run .standIn "alice" NoteCodec.standIn) brokenPulls (pushAll .standIn .newInMemory twoNotes,.new)

theorem broken_pulls_resume :
    ∃ db s, afterBroken = some (db,s) ∧ currentCursor s = 1 ∧ (s.getObject secondNote).isSome = true ∧
      (∀ r ∈ db.objects.rows, r.accountId = "alice" → 0 < r.serverSeq → r.serverSeq ≤ 1 → Holds s r) ∧
      ∃ fuel l t result,
        pullRemoteChanges (honest .standIn "alice") NoteCodec.standIn none ⟨some 1,none⟩ (fun _ => "t3") fuel ⟨db,[],[],[]⟩ s =
          some (l,t,result) ∧ Finished ⟨some 1,none⟩ l result := by
  obtain ⟨⟨db,s⟩,ran⟩ := Option.isSome_iff_exists.mp (show afterBroken.isSome = true by decide)
  have read : afterBroken.map (fun (db,s) => (currentCursor s,(s.getObject secondNote).isSome,currentSequence db "alice")) =
      some (1,true,2) := by decide
  rw [ran] at read
  obtain ⟨cursor,second,issued⟩ : currentCursor s = 1 ∧ (s.getObject secondNote).isSome = true ∧ currentSequence db "alice" = 2 := by
    simpa using read
  obtain ⟨_,_,held,_,resumes⟩ := pull_crash_safe .standIn "alice" NoteCodec.standIn twoNotes .new brokenPulls ran
  refine ⟨db,s,ran,cursor,second,cursor ▸ held,?_⟩
  exact resumes (by decide) (by rw [issued]; decide) none (some 1) (fun _ => "t3") s (by simp)

end ZkNote.CrashSafePull
