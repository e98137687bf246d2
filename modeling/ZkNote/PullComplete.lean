import ZkNote.PullRules

namespace ZkNote.PullComplete
open Protocol Adapter KeyedTable ServerStore ServerHistory ServerPages ServerRoutes SyncLink LocalStorage PullChanges PullRules

variable {crates : Crates} {Key Note : Type} {s : Storage} {r : EncryptedObjectRow}

-- The device has stored this head, every field of it.
def Holds (s : Storage) (r : EncryptedObjectRow) : Prop :=
  ∃ updatedAt, s.getObject r.objectId = some (storedOf (changeOf r) updatedAt)

-- What paging keeps true from a starting cursor `c`: every head between `c` and
-- the cursor is stored, and a cursor past `c` is one the server has handed out,
-- with a head at or above it.
structure Caught (account : String) (c : Nat) (db : ServerDb) (p : Progress) : Prop where
  start : c ≤ p.currentSeq
  held : ∀ r ∈ db.objects.rows, r.accountId = account → c < r.serverSeq → r.serverSeq ≤ p.currentSeq → Holds p.storage r
  issued : p.currentSeq = c ∨ p.currentSeq ≤ currentSequence db account
  topped : p.currentSeq = c ∨ ∃ r ∈ db.objects.rows, r.accountId = account ∧ p.currentSeq ≤ r.serverSeq

theorem start_caught (account : String) (db : ServerDb) (s : Storage) :
    Caught account (currentCursor s) db (startPull s) := by
  refine ⟨Nat.le_refl _,?_,.inl rfl,.inl rfl⟩
  intro r _ _ above below
  exact absurd (Nat.lt_of_lt_of_le above below) (Nat.lt_irrefl _)

theorem caught_others (rep : Represents crates log db) (later : Represents crates (log ++ more) next)
    (caught : Caught account c db p) : Caught account c next p := by
  obtain ⟨start,held,issued,topped⟩ := caught
  have grown : currentSequence db account ≤ currentSequence next account := by
    have one := rep.sequence account
    have two := later.sequence account
    simp only [ofAccount,List.filter_append,List.length_append] at one two
    omega
  refine ⟨start,?_,?_,?_⟩
  · intro r member own above below
    rcases heads_after rep later member with old | newer
    · exact held r old own above below
    · -- a new head lies above the cursor
      rw [own] at newer
      omega
  · omega
  · rcases topped with same | ⟨r,member,own,top⟩
    · exact .inl same
    · obtain ⟨q,present,sameAccount,_,above,_⟩ := head_successor rep later member
      exact .inr ⟨q,present,sameAccount.trans own,Nat.le_trans top above⟩

theorem holds_other (holds : Holds s r) (other : r.objectId ≠ change.objectId) (now : String) (cursor : Nat) :
    Holds ((s.putObject (storedOf change now)).setSyncCursor cursor) r := by
  obtain ⟨updatedAt,found⟩ := holds
  refine ⟨updatedAt,?_⟩
  simp only [Storage.getObject,Storage.putObject,Storage.setSyncCursor] at found ⊢
  rw [find_upsert_other _ _ (by simpa [storedOf] using Ne.symm other)]
  exact found

-- One head taken in sequence order, with nothing between the cursor and it.
theorem caught_taken (rep : Represents crates log db) (caught : Caught account c db p) (head : NextHead account db p.currentSeq r)
    (clock : Nat → String) : Caught account c db (taken clock p r) := by
  obtain ⟨start,held,issued,topped⟩ := caught
  obtain ⟨member,own,above,next⟩ := head
  refine ⟨by simp only [taken]; omega,?_,?_,.inr ⟨r,member,own,Nat.le_refl _⟩⟩
  · intro q present ownQ aboveQ belowQ
    have belowQ : q.serverSeq ≤ r.serverSeq := belowQ
    by_cases old : q.serverSeq ≤ p.currentSeq
    · refine holds_other (held q present ownQ aboveQ old) ?_ _ _
      intro same
      have equal : q = r := by
        have one := mem_iff_find.mp present
        have two := mem_iff_find.mp member
        rw [ownQ,show q.objectId = r.objectId from same] at one
        rw [own] at two
        exact Option.some.inj (one.symm.trans two)
      rw [equal] at old
      omega
    · have equal := next q present ownQ (by omega) belowQ
      subst equal
      refine ⟨clock p.applied.length,?_⟩
      exact find_upsert_same p.storage.objects (storedOf (changeOf q) (clock p.applied.length))
  · have bound := (head_seq_positive rep member).2
    rw [own] at bound
    exact .inr bound

theorem caught_keeps (crates : Crates) (account : String) (clock : Nat → String) (c : Nat) :
    PullKeeps crates account clock (fun _ => True) (fun _ db p => Caught account c db p) := by
  refine ⟨?_,?_,?_,?_⟩
  · intro log db p r rep caught head
    exact caught_taken rep caught head clock
  · intro log db p slot rep _ caught
    exact caught_others rep (pushAll_represents rep _) caught
  · rintro log db p ⟨start,held,issued,topped⟩
    exact ⟨start,by simpa using held,by simpa using issued,by simpa using topped⟩
  · rintro log db p n ⟨start,held,issued,topped⟩
    exact ⟨start,held,issued,topped⟩

theorem pull_complete (crates : Crates) (account : String) (codec : NoteCodec Key Note) (vaultKey : Option Key)
    (limit : Nat) (maxPages : Option Nat) (clock : Nat → String) (fuel : Nat)
    (before : List Call) (schedule : List Slot) (s : Storage)
    (ran : pullRemoteChanges (honest crates account) codec vaultKey ⟨some limit,maxPages⟩ clock fuel
      ⟨pushAll crates .newInMemory before,schedule,[],[]⟩ s = some (link,stored,result))
    (read : link.pulls.getLast? = some page) (ended : page.hasMore = false ∨ page.changes = []) :
    (∀ r ∈ link.db.objects.rows, r.accountId = account → currentCursor s < r.serverSeq → Holds stored r) ∧
    (∀ r ∈ link.db.objects.rows, r.accountId = account → r.serverSeq ≤ currentCursor stored) ∧
    (currentCursor stored = currentCursor s ∨ currentCursor s < currentCursor stored ∧
      ∃ r ∈ link.db.objects.rows, r.accountId = account ∧ r.serverSeq = currentCursor stored) := by
  obtain ⟨p,done,looped,objects,cursor,_⟩ := pull_ran ran
  obtain ⟨⟨⟨_,_,caught⟩,durable,_⟩,seen,_⟩ := pull_loop_keeps (caught_keeps crates account clock (currentCursor s)) trivial fuel
    (l := ⟨pushAll crates .newInMemory before,schedule,[],[]⟩)
    (reached_represents before) (by simp) rfl (start_caught account _ s) looped
  have below : Covered account link.db p.currentSeq := by
    rcases seen with untouched | ⟨final,last,covered⟩
    · rw [untouched] at read; cases read
    · rw [last] at read
      cases read
      exact covered ended
  rw [cursor,durable]
  refine ⟨?_,below,?_⟩
  · intro r member own above
    obtain ⟨updatedAt,found⟩ := caught.held r member own above (below r member own)
    exact ⟨updatedAt,by simpa only [Storage.getObject,objects] using found⟩
  · rcases caught.topped with same | ⟨r,member,own,top⟩
    · exact .inl same
    · rcases Nat.eq_or_lt_of_le caught.start with same | above
      · exact .inl same.symm
      · exact .inr ⟨above,r,member,own,Nat.le_antisymm (below r member own) top⟩

-- Pages of one row; while the client asks for the second page, another client
-- moves the first note past every page it has read.
def jumpingLink : Link :=
  ⟨pushAll .standIn .newInMemory
      [("alice",upsertOf change1 firstNote 0 "aaaa"),("alice",upsertOf change2 secondNote 0 "bbbb")],
    [.quiet,⟨[("alice",upsertOf change3 firstNote 1 "cccc")],none⟩],[],[]⟩

def jumpingPull : Option (Link × Storage × Except PullError (PullReport String)) :=
  pullRemoteChanges (honest .standIn "alice") NoteCodec.standIn none ⟨some 1,none⟩ (fun _ => "now") 4 jumpingLink .new

theorem jumping_pull_complete :
    ∃ link stored result, jumpingPull = some (link,stored,result) ∧ link.pulls.length = 3 ∧
      (∀ r ∈ link.db.objects.rows, r.accountId = "alice" → 0 < r.serverSeq → Holds stored r) ∧
      (∀ r ∈ link.db.objects.rows, r.accountId = "alice" → r.serverSeq ≤ 3) := by
  obtain ⟨run,ran⟩ := Option.isSome_iff_exists.mp (show jumpingPull.isSome = true by decide)
  obtain ⟨link,stored,result⟩ := run
  have read : (jumpingPull.map (fun r => (r.1.pulls.length,r.1.pulls.getLast?.map (·.hasMore),currentCursor r.2.1))) =
      some (3,some false,3) := by decide
  rw [ran] at read
  obtain ⟨pages,last,cursor⟩ : link.pulls.length = 3 ∧ link.pulls.getLast?.map (·.hasMore) = some false ∧
      currentCursor stored = 3 := by simpa using read
  obtain ⟨page,final,more⟩ := Option.map_eq_some_iff.mp last
  obtain ⟨held,below,_⟩ := pull_complete .standIn "alice" NoteCodec.standIn none 1 none (fun _ => "now") 4 _ _ .new
    ran final (.inl more)
  exact ⟨link,stored,result,ran,pages,held,cursor ▸ below⟩

end ZkNote.PullComplete
