import ZkNote.ServerPages
import ZkNote.ServerRoutes

namespace ZkNote.PullPages
open Protocol KeyedTable ServerStore ServerHistory ServerPages ServerRoutes

-- A negative LIMIT is no limit.
def limited (n : Int) (rows : List EncryptedObjectRow) : List EncryptedObjectRow := if n < 0 then rows else rows.take n.toNat

-- The loop over the rows.
def collect (limit : Nat) : List ObjectChange → List EncryptedObjectRow → List ObjectChange × Bool
  | items,[] => (items,false)
  | items,row :: rest => if limit ≤ items.length then (items,true) else collect limit (items ++ [changeOf row]) rest

-- With every conversion that the function makes. `Vec::with_capacity` panics on
-- more entries than the allocator grants, and then there is no result.
def pullChangesWithin (capacity : Nat) (db : ServerDb) (accountId : String) (after limit : Nat) : Option (PullChangesResponse × ServerDb) :=
  let db := ensureAccount db accountId
  let fetchLimit := asI64 (min (limit+1) (2^64-1))
  let rows := limited fetchLimit (rowsAfter db accountId (asI64 after))
  if capacity < limit then none else
  let (items,hasMore) := collect limit [] rows
  some (⟨items,((items.getLast?).map (·.serverSeq)).getD after,hasMore⟩,db)

section
variable {db : ServerDb} {account : String} {after limit capacity : Nat}

theorem collect_eq (rows : List EncryptedObjectRow) (items : List ObjectChange) (room : items.length ≤ limit) :
    collect limit items rows = (items ++ (rows.take (limit-items.length)).map changeOf,decide (limit < items.length+rows.length)) := by
  induction rows generalizing items with
  | nil => simp [collect,Nat.not_lt.mpr room]
  | cons row rest ih =>
      rw [collect]
      by_cases full : limit ≤ items.length
      · have none : limit-items.length = 0 := by omega
        rw [if_pos full,none,List.length_cons,decide_eq_true (show limit < items.length+(rest.length+1) by omega)]
        simp
      · have some_ : limit-items.length = (limit-(items.length+1))+1 := by omega
        rw [if_neg full,ih _ (by rw [List.length_append]; exact Nat.lt_of_not_le full),List.length_append,List.length_singleton,some_,
          List.take_succ_cons,List.map_cons,List.append_assoc,List.length_cons,Nat.add_right_comm,Nat.add_assoc]
        rfl

-- The conversions of the limit lose no row that the loop looks at.
theorem fetched_rows (word : limit < 2^64) (rows : List EncryptedObjectRow) :
    collect limit [] (limited (asI64 (min (limit+1) (2^64-1))) rows) =
      (((rows.take (limit+1)).take limit).map changeOf,decide (limit < (rows.take (limit+1)).length)) := by
  have whole : collect limit [] rows = (((rows.take (limit+1)).take limit).map changeOf,decide (limit < (rows.take (limit+1)).length)) := by
    have more : decide (limit < ([] : List ObjectChange).length+rows.length) = decide (limit < (rows.take (limit+1)).length) := by
      apply decide_eq_decide.mpr
      rw [List.length_take]
      simp
    rw [collect_eq rows [] (Nat.zero_le _),List.take_take,Nat.min_eq_left (Nat.le_succ limit),more]
    rfl
  unfold limited
  by_cases small : limit+1 < 2^63
  · have fetch : asI64 (min (limit+1) (2^64-1)) = (limit+1 : Nat) := by rw [Nat.min_eq_left (by omega),asI64_small small]
    rw [fetch,if_neg (by omega),Int.toNat_natCast,collect_eq _ [] (Nat.zero_le _)]
    simp
  · rw [if_pos (asI64_large (by omega) (by omega)),whole]

-- Wherever the vector can be had the page is that of the store.
theorem pull_within (word : limit < 2^64) : pullChangesWithin capacity db account after limit =
    if capacity < limit then none else some (pullChanges db account after limit) := by
  unfold pullChangesWithin pullChanges
  dsimp only
  rw [fetched_rows word]

-- What the schema grants of any state: no two heads of an account share a
-- sequence, and a sequence is a signed 64-bit integer.
structure Indexed (db : ServerDb) : Prop where
  apart : ∀ r ∈ db.objects.rows, ∀ q ∈ db.objects.rows, r.accountId = q.accountId → r.serverSeq = q.serverSeq → r = q
  signed : ∀ r ∈ db.objects.rows, r.serverSeq < 2^63

structure WellFormed (db : ServerDb) (account : String) (after limit : Nat) (page : PullChangesResponse) : Prop where
  heads : ∀ change ∈ page.changes, ∃ r ∈ db.objects.rows, r.accountId = account ∧ change = changeOf r
  beyond : ∀ change ∈ page.changes, after < change.serverSeq
  ascending : page.changes.Pairwise (fun x y => x.serverSeq < y.serverSeq)
  few : page.changes.length ≤ limit
  cursor : page.nextCursor = ((page.changes.getLast?).map (·.serverSeq)).getD after
  forward : after ≤ page.nextCursor
  more : page.hasMore = true ↔ ∃ r ∈ db.objects.rows, r.accountId = account ∧ page.nextCursor < r.serverSeq

-- So is every state that pushes lead to, while the counters fit.
theorem reached_indexed {crates : Crates} {log : List Acceptance} (rep : Represents crates log db) (fit : ∀ a, currentSequence db a < 2^63) :
    Indexed db where
  apart _ one _ two account same := head_seq_unique rep one two account same
  signed r member := Nat.lt_of_le_of_lt (head_seq_positive rep member).2 (fit r.accountId)

theorem paged_row (change : ObjectChange) (inside : change ∈ (pullChanges db account after limit).1.changes) :
    ∃ r ∈ rowsAfter db account (asI64 after), change = changeOf r := by
  rw [pull_changes_eq] at inside
  obtain ⟨r,paged,rfl⟩ := List.mem_map.mp inside
  exact ⟨r,List.mem_of_mem_take paged,rfl⟩

theorem pull_cursor : (pullChanges db account after limit).1.nextCursor =
    (((pullChanges db account after limit).1.changes.getLast?).map (·.serverSeq)).getD after := rfl

-- Rows in order go on past a prefix when one of them is past its last.
theorem goes_on_iff {α : Type} {key : α → Nat} {rows : List α} (sorted : rows.Pairwise (fun x y => key x < key y))
    (beyond : ∀ r ∈ rows, after < key r) :
    limit < rows.length ↔ ∃ r ∈ rows, (((rows.take limit).getLast?).map key).getD after < key r := by
  constructor
  · intro long
    have next : rows[limit] ∈ rows.drop limit := by
      rw [List.drop_eq_getElem_cons long]
      exact List.mem_cons_self
    refine ⟨_,List.mem_of_mem_drop next,?_⟩
    cases final : (rows.take limit).getLast? with
    | none => exact beyond _ (List.mem_of_mem_drop next)
    | some q =>
        rw [← List.take_append_drop limit rows,List.pairwise_append] at sorted
        exact sorted.2.2 q (List.mem_of_getLast? final) _ next
  · rintro ⟨r,inside,past⟩
    apply Nat.lt_of_not_le
    intro short
    rw [List.take_of_length_le short] at past
    cases final : rows.getLast? with
    | none =>
        rw [List.getLast?_eq_none_iff.mp final] at inside
        cases inside
    | some q =>
        rw [final] at past
        obtain ⟨front,is⟩ := List.getLast?_eq_some_iff.mp final
        rw [is] at inside sorted
        rcases List.mem_append.mp inside with early | same
        · exact absurd ((List.pairwise_append.mp sorted).2.2 r early q List.mem_cons_self) (Nat.lt_asymm past)
        · rw [List.mem_singleton.mp same] at past
          exact absurd past (Nat.lt_irrefl _)

-- The signed cursor stands where the unsigned one does among the account's heads.
-- The page is then a prefix of the rows after it, and the rows past the page are
-- those whose sequence is past its last one.
theorem page_well_formed (indexed : Indexed db)
    (aligned : ∀ r ∈ db.objects.rows, r.accountId = account → (asI64 after < r.serverSeq ↔ after < r.serverSeq)) :
    WellFormed db account after limit (pullChanges db account after limit).1 := by
  have sorted := rows_ascending indexed.apart account (asI64 after)
  have row_iff : ∀ r, r ∈ rowsAfter db account (asI64 after) ↔ r ∈ db.objects.rows ∧ r.accountId = account ∧ after < r.serverSeq := by
    intro r
    rw [mem_rowsAfter]
    exact and_congr_right (fun member => and_congr_right (aligned r member))
  have beyond : ∀ change ∈ (pullChanges db account after limit).1.changes, after < change.serverSeq := by
    intro change inside
    obtain ⟨r,row,rfl⟩ := paged_row change inside
    exact ((row_iff r).mp row).2.2
  have last : (pullChanges db account after limit).1.nextCursor = (((pageRows db account after limit).getLast?).map (·.serverSeq)).getD after := by
    rw [pull_cursor,pull_changes_eq,List.getLast?_map,Option.map_map]
    rfl
  have forward : after ≤ (pullChanges db account after limit).1.nextCursor := by
    rw [pull_cursor]
    cases final : (pullChanges db account after limit).1.changes.getLast? with
    | none => exact Nat.le_refl after
    | some change => exact Nat.le_of_lt (beyond change (List.mem_of_getLast? final))
  refine ⟨?_,beyond,?_,?_,rfl,forward,?_⟩
  · intro change inside
    obtain ⟨r,row,rfl⟩ := paged_row change inside
    obtain ⟨member,owned,_⟩ := mem_rowsAfter.mp row
    exact ⟨r,member,owned,rfl⟩
  · rw [pull_changes_eq,List.pairwise_map]
    exact sorted.sublist (List.take_sublist _ _)
  · rw [pull_changes_eq,List.length_map]
    exact List.length_take_le _ _
  · rw [last] at forward
    rw [pull_more_iff,last,goes_on_iff sorted (fun r inside => ((row_iff r).mp inside).2.2)]
    constructor
    · rintro ⟨r,inside,past⟩
      obtain ⟨member,owned,_⟩ := (row_iff r).mp inside
      exact ⟨r,member,owned,past⟩
    · rintro ⟨r,member,owned,past⟩
      exact ⟨r,(row_iff r).mpr ⟨member,owned,Nat.lt_of_le_of_lt forward past⟩,past⟩

-- A negative cursor brings in heads that are not past the cursor that was sent.
theorem page_misplaced (large : 2^63 ≤ after) (word : after < 2^64) (indexed : Indexed db) {r : EncryptedObjectRow} (member : r ∈ db.objects.rows)
    (owned : r.accountId = account) : ¬WellFormed db account after limit (pullChanges db account after limit).1 := by
  intro formed
  have negative := asI64_large large word
  have inside : r ∈ rowsAfter db account (asI64 after) := mem_rowsAfter.mpr ⟨member,owned,by omega⟩
  cases none : (pullChanges db account after limit).1.changes with
  | cons change rest =>
      have present : change ∈ (pullChanges db account after limit).1.changes := none ▸ List.mem_cons_self
      have past := formed.beyond change present
      obtain ⟨q,head,_,rfl⟩ := formed.heads change present
      have small := indexed.signed q head
      have past : after < q.serverSeq := past
      omega
  | nil =>
      have more : (pullChanges db account after limit).1.hasMore = true := by
        rw [pull_more_iff]
        rw [pull_changes_eq,List.map_eq_nil_iff,pageRows,List.take_eq_nil_iff] at none
        rcases none with zero | empty
        · rw [zero]
          exact List.length_pos_of_mem inside
        · rw [empty] at inside
          cases inside
      obtain ⟨q,head,_,past⟩ := formed.more.mp more
      have small := indexed.signed q head
      have forward := formed.forward
      omega

theorem page_iff (indexed : Indexed db) (word : after < 2^64) : WellFormed db account after limit (pullChanges db account after limit).1 ↔
    after < 2^63 ∨ ∀ r ∈ db.objects.rows, r.accountId ≠ account := by
  constructor
  · intro formed
    by_cases small : after < 2^63
    · exact .inl small
    · exact .inr (fun r member owned => page_misplaced (Nat.le_of_not_lt small) word indexed member owned formed)
  · intro fine
    apply page_well_formed indexed
    intro r member owned
    rcases fine with small | none
    · rw [asI64_small small]
      exact Int.ofNat_lt
    · exact absurd owned (none r member)

theorem pages_well_formed_iff (indexed : Indexed db) (account : String) (capacity : Nat) (word : after < 2^64) :
    (∀ limit < 2^64, (∃ page next, pullChangesWithin capacity db account after limit = some (page,next) ∧ WellFormed db account after limit page) ↔
      limit ≤ capacity ∧ (after < 2^63 ∨ ∀ r ∈ db.objects.rows, r.accountId ≠ account)) ∧
    (500 ≤ capacity → ∀ asked : Option Nat, ∃ page next, pullChangesWithin capacity db account after (clampLimit asked) = some (page,next) ∧
      pullChangesHandler db account after asked = (.response 200 ⟨.ok page,none,none,""⟩,next) ∧
      (WellFormed db account after (clampLimit asked) page ↔ after < 2^63 ∨ ∀ r ∈ db.objects.rows, r.accountId ≠ account)) := by
  constructor
  · intro limit limitWord
    rw [pull_within limitWord]
    by_cases wide : capacity < limit
    · rw [if_pos wide]
      refine iff_of_false ?_ (fun both => absurd both.1 (Nat.not_le.mpr wide))
      intro returned
      obtain ⟨_,_,none,_⟩ := returned
      cases none
    · rw [if_neg wide,← page_iff indexed word]
      constructor
      · intro returned
        obtain ⟨page,next,is,formed⟩ := returned
        cases is
        exact ⟨Nat.le_of_not_lt wide,formed⟩
      · intro both
        exact ⟨_,_,rfl,both.2⟩
  · intro room asked
    have clamped : clampLimit asked ≤ 500 := by
      unfold clampLimit
      split
      · decide
      · split
        · decide
        · split <;> omega
    rw [pull_within (by omega),if_neg (by omega)]
    exact ⟨_,_,rfl,rfl,page_iff indexed word⟩

end

def onePush : ServerDb := pushAll .standIn .newInMemory [("alice",upsertOf change1 firstNote 0 "AAAA")]

theorem one_push_indexed : Indexed onePush := by
  refine ⟨?_,?_⟩
  · have all : ∀ r ∈ onePush.objects.rows, ∀ q ∈ onePush.objects.rows, r = q := by decide
    exact fun r one q two _ _ => all r one q two
  · decide

theorem last_small_cursor : ∃ page next, pullChangesWithin 500 onePush "alice" (2^63-1) 50 = some (page,next) ∧
    WellFormed onePush "alice" (2^63-1) 50 page :=
  ((pages_well_formed_iff one_push_indexed "alice" 500 (by decide)).1 50 (by decide)).mpr ⟨by decide,.inl (by decide)⟩

theorem cursor_turns_negative :
    (pullChangesHandler onePush "alice" (2^63) (some 50)).1 =
      .response 200 ⟨.ok ⟨[⟨1,firstNote,1,1,false,(upsertOf change1 firstNote 0 "AAAA").envelope⟩],1,false⟩,none,none,""⟩ ∧
    ¬WellFormed onePush "alice" (2^63) 50 (pullChanges onePush "alice" (2^63) 50).1 := by
  have page : (pullChanges onePush "alice" (2^63) 50).1 = ⟨[⟨1,firstNote,1,1,false,(upsertOf change1 firstNote 0 "AAAA").envelope⟩],1,false⟩ := by decide
  refine ⟨congrArg (fun page => Adapter.Reply.response 200 ⟨.ok page,none,none,""⟩) page,fun formed => ?_⟩
  have forward := formed.forward
  rw [page] at forward
  exact absurd forward (by decide)

end ZkNote.PullPages
