import ZkNote.PullChanges
import ZkNote.ServerPages
import ZkNote.SyncLink

namespace ZkNote.PullRules
open Protocol Adapter KeyedTable ServerStore ServerHistory ServerPages ServerRoutes SyncLink LocalStorage PullChanges

variable {crates : Crates} {account : String} {clock : Nat → String} {p q : Progress} {l l' : Link} {r : EncryptedObjectRow}

-- The progress after one head is taken in.
def taken (clock : Nat → String) (p : Progress) (r : EncryptedObjectRow) : Progress :=
  {p with
    storage := (p.storage.putObject (storedOf (changeOf r) (clock p.applied.length))).setSyncCursor r.serverSeq
    currentSeq := r.serverSeq
    applied := p.applied ++ [changeOf r]}

theorem take_fresh (durable : currentCursor p.storage = p.currentSeq) (above : p.currentSeq < r.serverSeq)
    (clock : Nat → String) : takeChange clock p (changeOf r) = taken clock p r := by
  have fresh : ¬(r.serverSeq ≤ p.currentSeq) := by omega
  simp [takeChange,applyChange,changeOf,durable,fresh,taken]

theorem take_skipped (positive : 1 ≤ r.serverSeq) (below : r.serverSeq ≤ p.currentSeq) (clock : Nat → String) :
    takeChange clock p (changeOf r) = p := by
  have skip : r.serverSeq ≤ p.currentSeq ∧ 0 < p.currentSeq := by omega
  simp [takeChange,changeOf,skip]

-- The next head of an account above a cursor.
structure NextHead (account : String) (db : ServerDb) (cursor : Nat) (r : EncryptedObjectRow) : Prop where
  member : r ∈ db.objects.rows
  own : r.accountId = account
  above : cursor < r.serverSeq
  next : ∀ q ∈ db.objects.rows, q.accountId = account → cursor < q.serverSeq → q.serverSeq ≤ r.serverSeq → q = r

def Covered (account : String) (db : ServerDb) (cursor : Nat) : Prop :=
  ∀ r ∈ db.objects.rows, r.accountId = account → r.serverSeq ≤ cursor

-- What a pull keeps: it survives the next head being stored, the pushes of
-- others in an allowed slot, the account row and the page count.
structure PullKeeps (crates : Crates) (account : String) (clock : Nat → String) (Allowed : Slot → Prop)
    (Inv : List Acceptance → ServerDb → Progress → Prop) : Prop where
  store : ∀ log db p r, Represents crates log db → Inv log db p → NextHead account db p.currentSeq r → Inv log db (taken clock p r)
  others : ∀ log db p slot, Represents crates log db → Allowed slot → Inv log db p →
    Inv (log ++ acceptedBy crates db slot.others) (pushAll crates db slot.others) p
  ensured : ∀ log db p, Inv log db p → Inv log (ensureAccount db account) p
  counted : ∀ log db p n, Inv log db p → Inv log db {p with pagesFetched := n}

variable {Allowed : Slot → Prop} {Inv : List Acceptance → ServerDb → Progress → Prop}

-- A page as a pull from a cursor walks it: rows at or behind the cursor, and
-- each further row the next head.
inductive Ascends (account : String) (db : ServerDb) : Nat → List EncryptedObjectRow → Prop where
  | done (cursor : Nat) : Ascends account db cursor []
  | skipped {r : EncryptedObjectRow} (positive : 1 ≤ r.serverSeq) (old : r.serverSeq ≤ cursor) (more : Ascends account db cursor rest) :
      Ascends account db cursor (r :: rest)
  | next {r : EncryptedObjectRow} (head : NextHead account db cursor r) (more : Ascends account db r.serverSeq rest) :
      Ascends account db cursor (r :: rest)

-- Rows in sequence order that leave no head out below the last of them.
theorem rows_ascend (rep : Represents crates log db) (rows : List EncryptedObjectRow)
    (sorted : rows.Pairwise (fun x y => x.serverSeq < y.serverSeq))
    (heads : ∀ r ∈ rows, r ∈ db.objects.rows ∧ r.accountId = account)
    (closed : ∀ q ∈ db.objects.rows, q.accountId = account → cursor < q.serverSeq →
      (∃ r ∈ rows, q.serverSeq ≤ r.serverSeq) → q ∈ rows) : Ascends account db cursor rows := by
  induction rows generalizing cursor with
  | nil => exact .done cursor
  | cons r rest ih =>
      obtain ⟨first,restSorted⟩ := List.pairwise_cons.mp sorted
      obtain ⟨member,own⟩ := heads r List.mem_cons_self
      have restHeads := fun x inside => heads x (List.mem_cons_of_mem _ inside)
      by_cases old : r.serverSeq ≤ cursor
      · refine .skipped (head_seq_positive rep member).1 old (ih restSorted restHeads ?_)
        rintro q present ownQ above ⟨x,inside,below⟩
        rcases List.mem_cons.mp (closed q present ownQ above ⟨x,List.mem_cons_of_mem _ inside,below⟩) with rfl | later
        · omega
        · exact later
      · refine .next ⟨member,own,by omega,?_⟩ (ih restSorted restHeads ?_)
        · intro q present ownQ above below
          rcases List.mem_cons.mp (closed q present ownQ above ⟨r,List.mem_cons_self,below⟩) with rfl | later
          · rfl
          · have := first q later
            omega
        · rintro q present ownQ above ⟨x,inside,below⟩
          rcases List.mem_cons.mp (closed q present ownQ (by omega) ⟨x,List.mem_cons_of_mem _ inside,below⟩) with rfl | later
          · omega
          · exact later

theorem page_ascends (rep : Represents crates log db) (account : String) (cursor limit : Nat) :
    Ascends account db cursor (pageRows db account cursor limit) := by
  have low := asI64_le cursor
  apply rows_ascend rep
  · exact (rowsAfter_sorted rep account _).sublist (List.take_sublist _ _)
  · intro r paged
    obtain ⟨member,own,_⟩ := mem_rowsAfter.mp (List.mem_of_mem_take paged)
    exact ⟨member,own⟩
  · rintro q present own above ⟨r,paged,below⟩
    exact page_closed rep (mem_rowsAfter.mpr ⟨present,own,by omega⟩) paged below

theorem page_keeps (keeps : PullKeeps crates account clock Allowed Inv) (rep : Represents crates log db)
    (ascends : Ascends account db cursor rows) (stands : p.currentSeq = cursor)
    (durable : currentCursor p.storage = p.currentSeq) (inv : Inv log db p) :
    Inv log db (takePage clock p (rows.map changeOf)) ∧
      currentCursor (takePage clock p (rows.map changeOf)).storage = (takePage clock p (rows.map changeOf)).currentSeq ∧
      p.currentSeq ≤ (takePage clock p (rows.map changeOf)).currentSeq ∧
      ∀ r ∈ rows, r.serverSeq ≤ (takePage clock p (rows.map changeOf)).currentSeq := by
  induction ascends generalizing p with
  | done cursor => exact ⟨inv,durable,Nat.le_refl _,by simp⟩
  | @skipped cursor rest r positive old more ih =>
      obtain ⟨after,still,grown,all⟩ := ih stands durable inv
      have page : takePage clock p ((r :: rest).map changeOf) = takePage clock p (rest.map changeOf) := by
        simp only [takePage,List.map_cons,List.foldl_cons,take_skipped positive (stands ▸ old)]
      rw [page]
      refine ⟨after,still,grown,?_⟩
      intro x inside
      rcases List.mem_cons.mp inside with rfl | later
      · omega
      · exact all x later
  | @next cursor rest r head more ih =>
      subst stands
      obtain ⟨after,still,grown,all⟩ := ih (p := taken clock p r) rfl rfl (keeps.store log db p r rep inv head)
      have page : takePage clock p ((r :: rest).map changeOf) = takePage clock (taken clock p r) (rest.map changeOf) := by
        rw [← take_fresh durable head.above]
        rfl
      have grown : r.serverSeq ≤ (takePage clock (taken clock p r) (rest.map changeOf)).currentSeq := grown
      have above := head.above
      rw [page]
      refine ⟨after,still,by omega,?_⟩
      intro x inside
      rcases List.mem_cons.mp inside with rfl | later
      · exact grown
      · exact all x later

-- A page without `has_more` covers every head once its rows are behind the cursor.
theorem page_covers (last : (pullChanges db account after limit).1.hasMore = false) (grown : after ≤ cursor)
    (all : ∀ r ∈ pageRows db account after limit, r.serverSeq ≤ cursor) : Covered account db cursor := by
  intro r member own
  have low := asI64_le after
  by_cases old : r.serverSeq ≤ after
  · exact Nat.le_trans old grown
  · apply all
    rw [page_whole last]
    exact mem_rowsAfter.mpr ⟨member,own,by omega⟩

theorem served_page_keeps (keeps : PullKeeps crates account clock Allowed Inv) (rep : Represents crates log db)
    (durable : currentCursor p.storage = p.currentSeq) (inv : Inv log db p) (limit : Nat) :
    let q := takePage clock p (pullChanges db account p.currentSeq limit).1.changes
    Inv log db q ∧ currentCursor q.storage = q.currentSeq ∧
      (∀ r ∈ pageRows db account p.currentSeq limit, r.serverSeq ≤ q.currentSeq) ∧
      ((pullChanges db account p.currentSeq limit).1.hasMore = false → Covered account db q.currentSeq) := by
  rw [pull_changes_eq]
  obtain ⟨after,still,grown,all⟩ := page_keeps keeps rep (page_ascends rep account p.currentSeq limit) rfl durable inv
  exact ⟨after,still,all,fun last => page_covers last grown all⟩

theorem server_pull_answered (calm : l.slot.fault = none) (after : Nat) (limit : Option Nat) :
    serverPull crates account after limit l =
      let page := (pullChanges (l.arrived crates) account after (clampLimit limit)).1
      (.ok page,{l with
        db := ensureAccount (l.arrived crates) account
        schedule := l.schedule.tail
        pulls := l.pulls ++ [page]}) := by
  simp [serverPull,calm,pullChangesHandler,handleResponse,pullChanges,Except.toOption]

-- A broken exchange records no page and leaves the tables as the others left
-- them, up to the account row.
theorem server_pull_broken (crates : Crates) (account : String) (fault : l.slot.fault = some broken) (after : Nat) (limit : Option Nat) :
    ∃ e db, serverPull crates account after limit l = (.error e,{l with db := db,schedule := l.schedule.tail}) ∧
      (db = l.arrived crates ∨ db = ensureAccount (l.arrived crates) account) := by
  cases broken with
  | requestLost outage => exact ⟨outage.error,_,by simp [serverPull,fault],.inl rfl⟩
  | responseLost outage => exact ⟨outage.error,_,by simp [serverPull,fault]; rfl,.inr rfl⟩

-- A last page is one without `has_more`, or an empty one.
def LastPage (page : PullChangesResponse) : Prop := page.hasMore = false ∨ page.changes = []

theorem empty_page_last (db : ServerDb) (a : String) (after : Nat) (positive : 1 ≤ limit) (empty : (pullChanges db a after limit).1.changes = []) :
    (pullChanges db a after limit).1.hasMore = false := by
  rw [pull_changes_eq,List.map_eq_nil_iff,pageRows,List.take_eq_nil_iff] at empty
  have few : ¬limit < (rowsAfter db a (asI64 after)).length := by
    rcases empty with zero | none
    · omega
    · simp [none]
  cases more : (pullChanges db a after limit).1.hasMore with
  | false => rfl
  | true => exact absurd ((pull_more_iff db a after limit).mp more) few

theorem clamp_positive (limit : Option Nat) : 1 ≤ clampLimit limit := by
  cases limit with
  | none => simp [clampLimit]
  | some v =>
      simp only [clampLimit]
      split
      · omega
      · split <;> omega

-- Where a pull loop stands when it returns.
structure PullEnd (crates : Crates) (account : String) (Allowed : Slot → Prop) (Inv : List Acceptance → ServerDb → Progress → Prop)
    (log : List Acceptance) (l' : Link) (q : Progress) : Prop where
  kept : ∃ more, Represents crates (log ++ more) l'.db ∧ Inv (log ++ more) l'.db q
  durable : currentCursor q.storage = q.currentSeq
  allowed : ∀ slot ∈ l'.schedule, Allowed slot

theorem slot_allowed (quiet : Allowed .quiet) (allowed : ∀ slot ∈ l.schedule, Allowed slot) : Allowed l.slot := by
  unfold Link.slot
  cases slots : l.schedule with
  | nil => exact quiet
  | cons slot rest => exact allowed slot (by rw [slots]; exact List.mem_cons_self)

-- The loop keeps the invariant at every request; if it read a last page, that
-- one was the last it read and nothing visible to it lies above the cursor.
theorem pull_loop_keeps (keeps : PullKeeps crates account clock Allowed Inv) (quiet : Allowed .quiet) (fuel : Nat)
    (rep : Represents crates log l.db) (allowed : ∀ slot ∈ l.schedule, Allowed slot)
    (durable : currentCursor p.storage = p.currentSeq) (inv : Inv log l.db p)
    (ran : pullLoop (honest crates account) options clock fuel l p = some (l',q,result)) :
    PullEnd crates account Allowed Inv log l' q ∧
      (l'.pulls = l.pulls ∨ ∃ page, l'.pulls.getLast? = some page ∧ (LastPage page → Covered account l'.db q.currentSeq)) ∧
      (result = .ok () → options.maxPages = none → Covered account l'.db q.currentSeq) := by
  induction fuel generalizing l log p with
  | zero => cases ran
  | succ fuel ih =>
      rw [pullLoop] at ran
      split at ran
      · rename_i full
        cases ran
        refine ⟨⟨⟨[],by simpa using rep,by simpa using inv⟩,durable,allowed⟩,.inl rfl,?_⟩
        intro _ unlimited
        rw [unlimited] at full
        cases full
      · have arrived : Represents crates (log ++ acceptedBy crates l.db l.slot.others) (l.arrived crates) :=
          pushAll_represents rep _
        have moved := keeps.others log l.db p l.slot rep (slot_allowed quiet allowed) inv
        have later : ∀ slot ∈ l.schedule.tail, Allowed slot := fun slot inside => allowed slot (List.mem_of_mem_tail inside)
        simp only [honest] at ran
        cases fault : l.slot.fault with
        | some broken =>
            obtain ⟨e,db,answer,tables⟩ := server_pull_broken crates account fault
              p.currentSeq options.pageLimit
            rw [answer] at ran
            cases ran
            rcases tables with rfl | rfl
            · exact ⟨⟨⟨_,arrived,moved⟩,durable,later⟩,.inl rfl,by simp⟩
            · exact ⟨⟨⟨_,represents_ensured arrived account,keeps.ensured _ _ _ moved⟩,durable,later⟩,.inl rfl,by simp⟩
        | none =>
            rw [server_pull_answered fault] at ran
            have ensured := represents_ensured arrived account
            have counted := keeps.counted _ _ p (p.pagesFetched+1) moved
            obtain ⟨paged,still,_,reached⟩ := served_page_keeps (p := {p with pagesFetched := p.pagesFetched+1}) keeps arrived
              durable counted (clampLimit options.pageLimit)
            dsimp only at ran paged still reached
            have empties := empty_page_last (l.arrived crates) account p.currentSeq
              (clamp_positive options.pageLimit)
            unfold Link.arrived at ran paged still reached empties
            generalize (pullChanges (pushAll crates l.db l.slot.others) account p.currentSeq (clampLimit options.pageLimit)).1 = page
              at ran paged still reached empties
            have recorded : (l.pulls ++ [page]).getLast? = some page := by simp
            split at ran
            · rename_i empty
              cases ran
              have stay : takePage clock {p with pagesFetched := p.pagesFetched+1} page.changes =
                  {p with pagesFetched := p.pagesFetched+1} := by rw [empty]; rfl
              have covered : Covered account (ensureAccount (pushAll crates l.db l.slot.others) account) p.currentSeq := by
                simpa [stay,Covered] using reached (empties empty)
              exact ⟨⟨⟨_,ensured,keeps.ensured _ _ _ counted⟩,durable,later⟩,.inr ⟨page,recorded,fun _ => covered⟩,fun _ _ => covered⟩
            · rename_i full
              split at ran
              · rename_i more
                obtain ⟨⟨⟨added,extended,after⟩,held,rest⟩,seen,final⟩ := ih ensured later still (keeps.ensured _ _ _ paged) ran
                rw [List.append_assoc] at extended after
                refine ⟨⟨⟨_,extended,after⟩,held,rest⟩,?_,final⟩
                rcases seen with same | further
                · refine .inr ⟨page,by rw [same]; exact recorded,?_⟩
                  rintro (ended | empty)
                  · rw [more] at ended; cases ended
                  · exact absurd empty full
                · exact .inr further
              · rename_i done
                cases ran
                have covered : Covered account (ensureAccount (pushAll crates l.db l.slot.others) account)
                    (takePage clock {p with pagesFetched := p.pagesFetched+1} page.changes).currentSeq := by
                  simpa [Covered] using reached (by simpa using done)
                exact ⟨⟨⟨_,ensured,keeps.ensured _ _ _ paged⟩,still,later⟩,.inr ⟨page,recorded,fun _ => covered⟩,fun _ _ => covered⟩

theorem cursor_keeps (crates : Crates) (account : String) (clock : Nat → String) :
    PullKeeps crates account clock (fun _ => True) (fun log _ p => p.currentSeq ≤ (ofAccount log account).length) := by
  refine ⟨?_,?_,?_,?_⟩
  · intro log db p r rep _ head
    have bound := (head_seq_positive rep head.member).2
    rw [head.own,rep.sequence] at bound
    exact bound
  · intro log db p slot rep _ low
    simp only [ofAccount,List.filter_append,List.length_append] at low ⊢
    omega
  · exact fun log db p low => low
  · exact fun log db p n low => low

-- On a quiet network every page that is not the last moves the cursor, so the
-- loop returns within as many pages as there are sequence numbers ahead.
theorem quiet_loop_returns (clock : Nat → String) (options : PullOptions) (fuel : Nat) (rep : Represents crates log l.db) (quiet : l.schedule = [])
    (durable : currentCursor p.storage = p.currentSeq) (start : p.currentSeq < 2^63)
    (small : (ofAccount log account).length < 2^63) (some : 0 < fuel) (enough : (ofAccount log account).length < p.currentSeq+fuel) :
    ∃ l' q, pullLoop (honest crates account) options clock fuel l p = .some (l',q,.ok ()) := by
  induction fuel generalizing l p with
  | zero => omega
  | succ fuel ih =>
      have slot : l.slot = .quiet := by simp [Link.slot,quiet]
      have arrived : l.arrived crates = l.db := by simp [Link.arrived,slot,Slot.quiet,pushAll]
      rw [pullLoop]
      split
      · exact ⟨_,_,rfl⟩
      · simp only [honest]
        rw [server_pull_answered (by rw [slot]; rfl),arrived]
        dsimp only
        split
        · exact ⟨_,_,rfl⟩
        · rename_i full
          split
          · rw [pull_changes_eq,List.map_eq_nil_iff] at full
            obtain ⟨r,paged⟩ := List.exists_mem_of_ne_nil _ full
            obtain ⟨member,own,above⟩ := mem_rowsAfter.mp (List.mem_of_mem_take paged)
            rw [asI64_small start] at above
            have bound := (head_seq_positive rep member).2
            rw [own,rep.sequence] at bound
            obtain ⟨after,still,all,_⟩ := served_page_keeps (p := {p with pagesFetched := p.pagesFetched+1})
              (cursor_keeps crates account clock) rep durable (show p.currentSeq ≤ _ by omega) (clampLimit options.pageLimit)
            dsimp only at after still all
            have reached := all r paged
            exact ih (represents_ensured rep account) (by simp [quiet]) still (by omega) (by omega) (by omega)
          · exact ⟨_,_,rfl⟩

theorem quiet_pull_ends {Key Note : Type} {s : Storage} (codec : NoteCodec Key Note) (vaultKey : Option Key) (options : PullOptions)
    (clock : Nat → String) (rep : Represents crates log l.db) (quiet : l.schedule = []) (start : currentCursor s < 2^63)
    (small : currentSequence l.db account < 2^63) :
    ∃ fuel l' t result, pullRemoteChanges (honest crates account) codec vaultKey options clock fuel l s = some (l',t,result) ∧
      ∀ e, result ≠ .error (.network e) := by
  rw [rep.sequence] at small
  obtain ⟨l',q,looped⟩ := quiet_loop_returns (p := startPull s) clock options ((ofAccount log account).length+1)
    rep quiet rfl start small (by omega) (by omega)
  obtain ⟨t,result,ran,whole⟩ := looped_returns codec vaultKey looped
  exact ⟨_,l',t,result,ran,whole⟩

end ZkNote.PullRules
