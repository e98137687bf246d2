import ZkNote.ServerHistory

namespace ZkNote.ServerPages
open Protocol KeyedTable ServerStore ServerHistory

variable {crates : Crates}

theorem asI64_le (n : Nat) : asI64 n ≤ n := by
  unfold asI64
  have reduced : n % 2^64 ≤ n := Nat.mod_le _ _
  split <;> omega

theorem asI64_small (small : n < 2^63) : asI64 n = n := by
  unfold asI64
  have same : n % 2^64 = n := Nat.mod_eq_of_lt (by omega)
  rw [same,if_pos small]

theorem asI64_large (large : 2^63 ≤ n) (word : n < 2^64) : asI64 n < 0 := by
  unfold asI64
  rw [Nat.mod_eq_of_lt word,if_neg (by omega)]
  omega

theorem mem_rowsAfter : r ∈ rowsAfter db a after ↔ r ∈ db.objects.rows ∧ r.accountId = a ∧ after < r.serverSeq := by
  rw [rowsAfter,(List.perm_insertionSort _ _).mem_iff,List.mem_filter]
  simp

theorem acceptance_seq_unique (rep : Represents crates log db) (one : e ∈ log) (two : f ∈ log)
    (account : e.accountId = f.accountId) (same : e.seq = f.seq) : e = f := by
  have nodup : ((ofAccount log f.accountId).map (·.seq)).Nodup := by
    rw [rep.seqs]; exact List.nodup_range'
  exact List.inj_on_of_nodup_map nodup (mem_ofAccount.mpr ⟨one,account⟩) (mem_ofAccount.mpr ⟨two,rfl⟩) same

theorem head_seq_unique (rep : Represents crates log db) (one : r ∈ db.objects.rows) (two : q ∈ db.objects.rows)
    (account : r.accountId = q.accountId) (same : r.serverSeq = q.serverSeq) : r = q := by
  obtain ⟨e,inside,rfl⟩ := head_mem rep one
  obtain ⟨f,other,rfl⟩ := head_mem rep two
  rw [acceptance_seq_unique rep inside other account same]

theorem head_seq_positive (rep : Represents crates log db) (member : r ∈ db.objects.rows) :
    1 ≤ r.serverSeq ∧ r.serverSeq ≤ currentSequence db r.accountId := by
  obtain ⟨e,inside,rfl⟩ := head_mem rep member
  exact represented_seq_bound rep inside

theorem rows_ascending (apart : ∀ r ∈ db.objects.rows, ∀ q ∈ db.objects.rows, r.accountId = q.accountId → r.serverSeq = q.serverSeq → r = q)
    (a : String) (after : Int) : (rowsAfter db a after).Pairwise (fun x y => x.serverSeq < y.serverSeq) := by
  have ordered : (rowsAfter db a after).Pairwise (fun x y => x.serverSeq ≤ y.serverSeq) := by
    have : Std.Total (fun x y : EncryptedObjectRow => x.serverSeq ≤ y.serverSeq) := ⟨fun x y => Nat.le_total _ _⟩
    have : IsTrans EncryptedObjectRow (fun x y => x.serverSeq ≤ y.serverSeq) := ⟨fun _ _ _ => Nat.le_trans⟩
    exact List.pairwise_insertionSort _ _
  have distinct : (rowsAfter db a after).Nodup :=
    (List.perm_insertionSort _ _).nodup_iff.mpr (db.objects.unique.of_map.filter _)
  refine List.Pairwise.imp_of_mem ?_ (ordered.and distinct)
  intro x y inX inY both
  obtain ⟨memberX,accountX,_⟩ := mem_rowsAfter.mp inX
  obtain ⟨memberY,accountY,_⟩ := mem_rowsAfter.mp inY
  refine Nat.lt_of_le_of_ne both.1 ?_
  intro same
  exact both.2 (apart x memberX y memberY (accountX.trans accountY.symm) same)

theorem rowsAfter_sorted (rep : Represents crates log db) (a : String) (after : Int) :
    (rowsAfter db a after).Pairwise (fun x y => x.serverSeq < y.serverSeq) :=
  rows_ascending (fun _ one _ two account same => head_seq_unique rep one two account same) a after

def pageRows (db : ServerDb) (a : String) (after limit : Nat) : List EncryptedObjectRow :=
  (rowsAfter db a (asI64 after)).take limit

theorem pull_changes_eq (db : ServerDb) (a : String) (after limit : Nat) :
    (pullChanges db a after limit).1.changes = (pageRows db a after limit).map changeOf := by
  have same : rowsAfter (ensureAccount db a) a (asI64 after) = rowsAfter db a (asI64 after) := by
    unfold rowsAfter; rw [ensure_objects]
  simp only [pullChanges,same,pageRows,List.take_take]
  rw [Nat.min_eq_left (Nat.le_succ limit)]

theorem pull_more_iff (db : ServerDb) (a : String) (after limit : Nat) :
    (pullChanges db a after limit).1.hasMore = true ↔ limit < (rowsAfter db a (asI64 after)).length := by
  have same : rowsAfter (ensureAccount db a) a (asI64 after) = rowsAfter db a (asI64 after) := by
    unfold rowsAfter; rw [ensure_objects]
  simp only [pullChanges,same,List.length_take,decide_eq_true_eq]
  omega

-- A page is a prefix of the ordered rows: below its last sequence nothing is left out.
theorem page_closed (rep : Represents crates log db) (row : r ∈ rowsAfter db a (asI64 after))
    (paged : q ∈ pageRows db a after limit) (below : r.serverSeq ≤ q.serverSeq) : r ∈ pageRows db a after limit := by
  have sorted := rowsAfter_sorted rep a (asI64 after)
  have parts := List.take_append_drop limit (rowsAfter db a (asI64 after))
  rw [← parts,List.pairwise_append] at sorted
  rw [← parts] at row
  rcases List.mem_append.mp row with first | later
  · exact first
  · have above := sorted.2.2 q paged r later
    omega

theorem page_whole (last : (pullChanges db a after limit).1.hasMore = false) :
    pageRows db a after limit = rowsAfter db a (asI64 after) := by
  have few : ¬limit < (rowsAfter db a (asI64 after)).length := by
    rw [← pull_more_iff,last]; simp
  exact List.take_of_length_le (Nat.le_of_not_lt few)

-- Heads only move up. The last entry of an object in a longer log is either an
-- added one, newer than every sequence handed out before, or the old last one.
theorem last_append (log more : List Acceptance) (a o : String) :
    (ofObject (log ++ more) a o).getLast? = ((ofObject more a o).getLast?).or (ofObject log a o).getLast? := by
  have split : ofObject (log ++ more) a o = ofObject log a o ++ ofObject more a o := List.filter_append ..
  rw [split,List.getLast?_append]

theorem added_seq (rep : Represents crates log db) (later : Represents crates (log ++ more) next) (new : e ∈ more) :
    currentSequence db e.accountId < e.seq := by
  have seqs := later.seqs e.accountId
  have split : ofAccount (log ++ more) e.accountId = ofAccount log e.accountId ++ ofAccount more e.accountId :=
    List.filter_append ..
  rw [split,List.map_append,List.length_append,← List.range'_append_1,rep.seqs] at seqs
  have tail := List.append_cancel_left seqs
  have inside : e.seq ∈ (ofAccount more e.accountId).map (·.seq) :=
    List.mem_map_of_mem (mem_ofAccount.mpr ⟨new,rfl⟩)
  rw [tail,List.mem_range'_1] at inside
  rw [rep.sequence]
  omega

theorem heads_after (rep : Represents crates log db) (later : Represents crates (log ++ more) next)
    (member : r ∈ next.objects.rows) : r ∈ db.objects.rows ∨ currentSequence db r.accountId < r.serverSeq := by
  have found := mem_iff_find.mp member
  rw [later.head,last_append] at found
  cases tail : (ofObject more r.accountId r.objectId).getLast? with
  | none =>
      left
      rw [tail,Option.none_or,← rep.head] at found
      exact find_mem found
  | some e =>
      right
      rw [tail,Option.some_or,Option.map_some] at found
      cases Option.some.inj found
      exact added_seq rep later (last_mem tail).1

theorem head_successor (rep : Represents crates log db) (later : Represents crates (log ++ more) next)
    (member : r ∈ db.objects.rows) :
    ∃ q ∈ next.objects.rows, q.accountId = r.accountId ∧ q.objectId = r.objectId ∧
      r.serverSeq ≤ q.serverSeq ∧ r.revision ≤ q.revision := by
  have found := mem_iff_find.mp member
  rw [rep.head] at found
  obtain ⟨e,old,rfl⟩ := Option.map_eq_some_iff.mp found
  obtain ⟨f,last⟩ : ∃ f, (ofObject (log ++ more) e.accountId e.objectId).getLast? = some f := by
    rw [last_append]
    cases (ofObject more e.accountId e.objectId).getLast? with
    | none => exact ⟨e,old⟩
    | some f => exact ⟨f,rfl⟩
  have owner := last_mem last
  have present : headOf f ∈ next.objects.rows := by
    apply find_mem (k := (e.accountId,e.objectId))
    rw [later.head,last]; rfl
  refine ⟨headOf f,present,owner.2.1,owner.2.2,?_,?_⟩
  · rcases heads_after rep later present with same | newer
    · have equal := (mem_iff_find.mp same).symm.trans
        (by simpa [headOf,owner.2.1,owner.2.2] using mem_iff_find.mp member)
      exact (Option.some.inj equal) ▸ Nat.le_refl _
    · have bound := (head_seq_positive rep member).2
      simp only [headOf,owner.2.1] at newer bound ⊢
      omega
  · have one := last_revision rep old
    have two := last_revision later last
    have grown : (ofObject (log ++ more) e.accountId e.objectId).length =
        (ofObject log e.accountId e.objectId).length + (ofObject more e.accountId e.objectId).length := by
      simp [ofObject]
    simp only [headOf] at one two grown ⊢
    omega

end ZkNote.ServerPages
