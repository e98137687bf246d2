import Mathlib.Algebra.Order.BigOperators.Group.List
import Mathlib.Algebra.Order.Group.Nat
import ZkNote.AccountServer
import ZkNote.ServerPages
import ZkNote.TableTotals

namespace ZkNote.BlobQuota
open KeyedTable ServerStore ServerBlobs ServerPages AccountServer

-- A slice has at most `isize::MAX` bytes.
abbrev Slice := {bytes : List UInt8 // bytes.length < 2^63}

-- The longest row and the largest database that SQLite writes; its documentation
-- ends at 281 terabytes.
structure Sqlite where
  maxLength : Nat
  maxBytes : Nat
  bounded : maxBytes < 2^63

def Sqlite.standard : Sqlite := ⟨1000000000,281474976710656,by decide⟩

inductive StoreError where
  | refused (error : ServerBlobs.DbError)
  | sqlite (message : String)
  deriving DecidableEq, Repr

def bytesHeld (blobs : BlobTable) : Nat := (blobs.rows.map (·.data.length)).sum

-- INSERT .. ON CONFLICT DO UPDATE
def Sqlite.write (sqlite : Sqlite) (blobs : BlobTable) (row : BlobRow) : Except StoreError BlobTable :=
  if sqlite.maxLength < row.data.length then .error (.sqlite "string or blob too big") else
  if sqlite.maxBytes < bytesHeld (blobs.upsert row) then .error (.sqlite "database or disk is full") else
  .ok (blobs.upsert row)

-- SUM of integers fails where a partial sum leaves 64 bits.
def sqlSum : Int → List Int → Option Int
  | total,[] => some total
  | total,n :: rest => if -2^63 ≤ total+n ∧ total+n < 2^63 then sqlSum (total+n) rest else none

-- The size column is signed; `size` is its bits.
def sizeColumn (row : BlobRow) : Int := asI64 row.size

def unsigned (n : Int) : Nat := if n < 0 then 0 else n.toNat

def putBlob (sqlite : Sqlite) (account blobId : String) (data : Slice) (accountBlobQuota : UInt64) (maxBlobSize : Nat) (s : Server) :
    Except StoreError Nat × Server :=
  if maxBlobSize < data.val.length then (.error (.refused (.blobSizeExceeded maxBlobSize data.val.length)),s) else
  let s := s.ensureAccount account
  let existingSize := ((s.blobs.find (account,blobId)).map sizeColumn).getD 0
  match sqlSum 0 ((s.blobs.rows.filter (fun r => r.accountId = account)).map sizeColumn) with
  | none => (.error (.sqlite "integer overflow"),s)
  | some currentUsage =>
    let newSize := data.val.length
    let projectedUsage := (unsigned currentUsage - unsigned existingSize+newSize) % 2^64
    if accountBlobQuota.toNat < projectedUsage then (.error (.refused (.accountQuotaExceeded accountBlobQuota.toNat projectedUsage)),s) else
    match sqlite.write s.blobs ⟨account,blobId,newSize,data.val⟩ with
    | .error failure => (.error failure,s)
    | .ok blobs => (.ok newSize,{s with blobs := blobs})

inductive BlobCall where
  | put (account blobId : String) (data : Slice)
  | get (account blobId : String)
  | delete (account blobId : String)

inductive BlobAnswer where
  | put (result : Except StoreError Nat)
  | got (data : Option (List UInt8))
  | deleted (existed : Bool)

def perform (sqlite : Sqlite) (quota : UInt64) (max : Nat) (s : Server) : BlobCall → BlobAnswer × Server
  | .put account blobId data =>
    let (result,s) := putBlob sqlite account blobId data quota max s
    (.put result,s)
  | .get account blobId => (.got (getBlob s.blobs account blobId),s)
  | .delete account blobId =>
    let (existed,blobs) := deleteBlob s.blobs account blobId
    (.deleted existed,{s with blobs := blobs})

def run (sqlite : Sqlite) (quota : UInt64) (max : Nat) : Server → List BlobCall → List (BlobCall × BlobAnswer) × Server
  | s,[] => ([],s)
  | s,call :: rest =>
    let (answer,next) := perform sqlite quota max s call
    let (past,last) := run sqlite quota max next rest
    ((call,answer) :: past,last)

-- What the answers so far say of one blob.
def remember (account blobId : String) (held : Option (List UInt8)) : BlobCall × BlobAnswer → Option (List UInt8)
  | (.put a id data,.put (.ok _)) => if (a,id) = (account,blobId) then some data.val else held
  | (.delete a id,_) => if (a,id) = (account,blobId) then none else held
  | _ => held

def lastStored (account blobId : String) (past : List (BlobCall × BlobAnswer)) : Option (List UInt8) :=
  past.foldl (remember account blobId) none

-- What a blob already there gives back when it is replaced.
def heldSize (blobs : BlobTable) (account blobId : String) : Nat := ((getBlob blobs account blobId).map (·.length)).getD 0

structure Kept (sqlite : Sqlite) (quota : UInt64) (blobs : BlobTable) : Prop where
  sized : ∀ r ∈ blobs.rows, r.size = r.data.length
  within : ∀ account, getAccountBlobUsage blobs account ≤ quota.toNat
  room : bytesHeld blobs ≤ sqlite.maxBytes

section
variable {sqlite : Sqlite} {quota : UInt64} {max : Nat} {s : Server} {blobs : BlobTable} {account blobId : String} {data : Slice}

theorem sql_sum (numbers : List Nat) (total : Nat) (small : total+numbers.sum < 2^63) :
    sqlSum total (numbers.map Int.ofNat) = some (Int.ofNat (total+numbers.sum)) := by
  induction numbers generalizing total with
  | nil => rfl
  | cons n rest ih =>
      rw [List.sum_cons] at small
      have fits : -2^63 ≤ (total : Int)+Int.ofNat n ∧ (total : Int)+Int.ofNat n < 2^63 := by
        rw [Int.ofNat_eq_natCast]
        omega
      rw [List.map_cons,sqlSum,if_pos fits,List.sum_cons,← Nat.add_assoc]
      exact ih (total+n) (by omega)

-- The sum over an account as a total over the table.
def weight (account : String) (r : BlobRow) : Int := if r.accountId = account then r.size else 0

theorem usage_total (blobs : BlobTable) (account : String) : (getAccountBlobUsage blobs account : Int) = blobs.total (weight account) := by
  unfold getAccountBlobUsage Table.total
  generalize blobs.rows = rows
  induction rows with
  | nil => rfl
  | cons r rest ih =>
      rw [List.filter_cons,List.map_cons,List.sum_cons,← ih,weight]
      split
      · rename_i own
        rw [if_pos (of_decide_eq_true own),List.map_cons,List.sum_cons]
        exact Int.natCast_add _ _
      · rename_i other
        rw [if_neg (fun own => other (decide_eq_true own)),Int.zero_add]

theorem held_total (blobs : BlobTable) : (bytesHeld blobs : Int) = blobs.total (fun r => r.data.length) := by
  unfold bytesHeld Table.total
  generalize blobs.rows = rows
  induction rows with
  | nil => rfl
  | cons r rest ih =>
      rw [List.map_cons,List.map_cons,List.sum_cons,List.sum_cons,← ih]
      exact Int.natCast_add _ _

theorem usage_held (sized : ∀ r ∈ blobs.rows, r.size = r.data.length) (account : String) : getAccountBlobUsage blobs account ≤ bytesHeld blobs := by
  unfold getAccountBlobUsage bytesHeld
  generalize blobs.rows = rows at sized
  induction rows with
  | nil => exact Nat.le_refl 0
  | cons r rest ih =>
      have own := sized r List.mem_cons_self
      have others := ih (fun x inside => sized x (List.mem_cons_of_mem _ inside))
      rw [List.filter_cons,List.map_cons,List.sum_cons]
      split
      · rw [List.map_cons,List.sum_cons]
        omega
      · omega

theorem row_held (kept : Kept sqlite quota blobs) {r : BlobRow} (inside : r ∈ blobs.rows) : r.data.length < 2^63 := by
  have one : r.data.length ≤ bytesHeld blobs := List.single_le_sum (fun _ _ => Nat.zero_le _) _ (List.mem_map_of_mem inside)
  have room := kept.room
  have bounded := sqlite.bounded
  omega

-- The signed column says the length of the data.
theorem column_length (kept : Kept sqlite quota blobs) {r : BlobRow} (inside : r ∈ blobs.rows) : sizeColumn r = r.data.length := by
  have small := row_held kept inside
  rw [sizeColumn,asI64_small (by rw [kept.sized r inside]; exact small),kept.sized r inside]

-- No sum over an account overflows.
theorem account_sum (kept : Kept sqlite quota blobs) (account : String) :
    sqlSum 0 ((blobs.rows.filter (fun r => r.accountId = account)).map sizeColumn) = some (Int.ofNat (getAccountBlobUsage blobs account)) := by
  have columns : (blobs.rows.filter (fun r => r.accountId = account)).map sizeColumn =
      ((blobs.rows.filter (fun r => r.accountId = account)).map (·.size)).map Int.ofNat := by
    rw [List.map_map]
    apply List.map_congr_left
    intro r inside
    have inside := (List.mem_filter.mp inside).1
    rw [column_length kept inside,← kept.sized r inside]
    rfl
  have least := usage_held kept.sized account
  have room := kept.room
  have bounded := sqlite.bounded
  have sum := sql_sum ((blobs.rows.filter (fun r => r.accountId = account)).map (·.size)) 0
    (by rw [Nat.zero_add]; exact Nat.lt_of_le_of_lt least (Nat.lt_of_le_of_lt room bounded))
  rw [columns]
  rw [Nat.zero_add] at sum
  exact sum

theorem held_size (kept : Kept sqlite quota blobs) (account blobId : String) :
    unsigned (((blobs.find (account,blobId)).map sizeColumn).getD 0) = heldSize blobs account blobId := by
  unfold heldSize getBlob
  cases found : blobs.find (account,blobId) with
  | none => rfl
  | some r =>
      rw [Option.map_some,Option.getD_some,column_length kept (find_mem found)]
      rfl

theorem row_key {r : BlobRow} (found : blobs.find (account,blobId) = some r) : r.accountId = account ∧ r.blobId = blobId := by
  have own := find_key found
  exact ⟨congrArg Prod.fst own,congrArg Prod.snd own⟩

-- A blob is part of its account's sum.
theorem held_usage (kept : Kept sqlite quota blobs) (account blobId : String) : heldSize blobs account blobId ≤ getAccountBlobUsage blobs account := by
  unfold heldSize getBlob
  cases found : blobs.find (account,blobId) with
  | none => exact Nat.zero_le _
  | some r =>
      have owner := (row_key found).1
      have own : r ∈ blobs.rows.filter (fun r => r.accountId = account) := List.mem_filter.mpr ⟨find_mem found,decide_eq_true owner⟩
      have one : r.size ≤ getAccountBlobUsage blobs account := List.single_le_sum (fun _ _ => Nat.zero_le _) _ (List.mem_map_of_mem own)
      rw [kept.sized r (find_mem found)] at one
      exact one

theorem ensure_blobs (s : Server) (account : String) : (s.ensureAccount account).blobs = s.blobs := rfl

-- Admission in plain arithmetic: no conversion and no sum cuts anything.
theorem put_eq (kept : Kept sqlite quota s.blobs) : putBlob sqlite account blobId data quota max s =
    if max < data.val.length then (.error (.refused (.blobSizeExceeded max data.val.length)),s) else
    let usage := getAccountBlobUsage s.blobs account - heldSize s.blobs account blobId+data.val.length
    if quota.toNat < usage then (.error (.refused (.accountQuotaExceeded quota.toNat usage)),s.ensureAccount account) else
    match sqlite.write s.blobs ⟨account,blobId,data.val.length,data.val⟩ with
    | .error failure => (.error failure,s.ensureAccount account)
    | .ok blobs => (.ok data.val.length,{s.ensureAccount account with blobs := blobs}) := by
  have least := usage_held kept.sized account
  have room := kept.room
  have bounded := sqlite.bounded
  have short := data.property
  have plain : (getAccountBlobUsage s.blobs account - heldSize s.blobs account blobId+data.val.length) % 2^64 =
      getAccountBlobUsage s.blobs account - heldSize s.blobs account blobId+data.val.length := Nat.mod_eq_of_lt (by omega)
  unfold putBlob
  dsimp only
  rw [ensure_blobs,account_sum kept]
  dsimp only
  rw [held_size kept,show unsigned (Int.ofNat (getAccountBlobUsage s.blobs account)) = getAccountBlobUsage s.blobs account from rfl,plain]

theorem held_bytes (kept : Kept sqlite quota blobs) (found : blobs.find (account,blobId) = some old) : heldSize blobs account blobId = old.size := by
  rw [heldSize,getBlob,found,kept.sized old (find_mem found)]
  rfl

theorem held_none (absent : blobs.find (account,blobId) = none) : heldSize blobs account blobId = 0 := by
  rw [heldSize,getBlob,absent]
  rfl

-- A put moves the sum of its own account only, by what the blob grew.
theorem usage_put (kept : Kept sqlite quota blobs) (account blobId : String) (size : Nat) (bytes : List UInt8) (other : String) :
    getAccountBlobUsage (blobs.upsert ⟨account,blobId,size,bytes⟩) other =
      if other = account then getAccountBlobUsage blobs account - heldSize blobs account blobId+size else getAccountBlobUsage blobs other := by
  have least := held_usage kept account blobId
  have before := usage_total blobs other
  have after := usage_total (blobs.upsert ⟨account,blobId,size,bytes⟩) other
  cases found : blobs.find (account,blobId) with
  | none =>
      rw [total_fresh found,← before,weight] at after
      rw [held_none found]
      dsimp only at after
      by_cases own : other = account
      · subst own
        rw [if_pos rfl] at after ⊢
        omega
      · rw [if_neg (fun same => own same.symm)] at after
        rw [if_neg own]
        omega
  | some old =>
      have owner := (row_key found).1
      have is := held_bytes kept found
      rw [total_held found,← before,weight,weight,owner] at after
      dsimp only at after
      by_cases own : other = account
      · subst own
        rw [if_pos rfl,if_pos rfl] at after
        rw [if_pos rfl]
        omega
      · rw [if_neg (fun same => own same.symm),if_neg (fun same => own same.symm)] at after
        rw [if_neg own]
        omega

-- While SQLite has room a put is the one that counts in natural numbers.
theorem put_refines (kept : Kept sqlite quota s.blobs)
    (room : sqlite.write s.blobs ⟨account,blobId,data.val.length,data.val⟩ = .ok (s.blobs.upsert ⟨account,blobId,data.val.length,data.val⟩)) :
    putBlob sqlite account blobId data quota max s =
      ((AccountServer.putBlob account blobId data.val quota.toNat max s).1.mapError .refused,
        (AccountServer.putBlob account blobId data.val quota.toNat max s).2) := by
  have existing : ((s.blobs.find (account,blobId)).map (·.size)).getD 0 = heldSize s.blobs account blobId := by
    cases found : s.blobs.find (account,blobId) with
    | none => exact (held_none found).symm
    | some old => exact (held_bytes kept found).symm
  rw [put_eq kept,room]
  unfold AccountServer.putBlob
  split
  · rfl
  · rename_i small
    unfold ServerBlobs.putBlob
    rw [if_neg small,existing]
    dsimp only
    split <;> rfl

theorem write_done (done : sqlite.write blobs row = .ok next) : next = blobs.upsert row ∧ bytesHeld next ≤ sqlite.maxBytes := by
  unfold Sqlite.write at done
  split at done
  · cases done
  · split at done
    · cases done
    · rename_i room
      cases done
      exact ⟨rfl,Nat.le_of_not_lt room⟩

theorem write_failed {failure : StoreError} (failed : sqlite.write blobs row = .error failure) : ∃ message, failure = StoreError.sqlite message := by
  unfold Sqlite.write at failed
  split at failed
  · cases failed
    exact ⟨_,rfl⟩
  · split at failed
    · cases failed
      exact ⟨_,rfl⟩
    · cases failed

theorem put_kept (kept : Kept sqlite quota s.blobs) (account blobId : String) (data : Slice) (max : Nat) :
    Kept sqlite quota (putBlob sqlite account blobId data quota max s).2.blobs := by
  rw [put_eq kept]
  split
  · exact kept
  · dsimp only
    split
    · exact kept
    · rename_i within
      cases done : sqlite.write s.blobs ⟨account,blobId,data.val.length,data.val⟩ with
      | error failure => exact kept
      | ok next =>
          obtain ⟨is,room⟩ := write_done done
          refine ⟨fun r inside => ?_,fun other => ?_,room⟩
          · dsimp only at inside
            rw [is] at inside
            rcases mem_upsert.mp inside with same | held
            · rw [same]
            · exact kept.sized r held.1
          · dsimp only
            rw [is,usage_put kept]
            split
            · exact Nat.le_of_not_lt within
            · exact kept.within other

theorem delete_kept (kept : Kept sqlite quota blobs) (account blobId : String) : Kept sqlite quota (deleteBlob blobs account blobId).2 := by
  unfold deleteBlob
  cases found : blobs.find (account,blobId) with
  | none => exact kept
  | some old =>
      refine ⟨fun r inside => kept.sized r (mem_delete.mp inside).1,fun other => ?_,?_⟩
      · have before := usage_total blobs other
        have after := usage_total (blobs.delete (fun r => decide ((r.accountId,r.blobId) = (account,blobId)))) other
        rw [total_delete found,← before] at after
        have within := kept.within other
        have positive : 0 ≤ weight other old := by
          unfold weight
          split <;> omega
        dsimp only
        omega
      · have before := held_total blobs
        have after := held_total (blobs.delete (fun r => decide ((r.accountId,r.blobId) = (account,blobId))))
        rw [total_delete found,← before] at after
        have room := kept.room
        dsimp only
        omega

theorem perform_kept (kept : Kept sqlite quota s.blobs) (call : BlobCall) : Kept sqlite quota (perform sqlite quota max s call).2.blobs := by
  cases call with
  | put account blobId data => exact put_kept kept account blobId data max
  | get account blobId => exact kept
  | delete account blobId => exact delete_kept kept account blobId

-- What a put leaves behind: the row, or what was there.
theorem put_leaves (kept : Kept sqlite quota s.blobs) (account blobId : String) (data : Slice) (max : Nat) :
    (∃ size, (putBlob sqlite account blobId data quota max s).1 = .ok size ∧
      (putBlob sqlite account blobId data quota max s).2.blobs = s.blobs.upsert ⟨account,blobId,data.val.length,data.val⟩) ∨
    ∃ failure, (putBlob sqlite account blobId data quota max s).1 = .error failure ∧
      ((putBlob sqlite account blobId data quota max s).2 = s ∨ (putBlob sqlite account blobId data quota max s).2 = s.ensureAccount account) := by
  rw [put_eq kept]
  split
  · exact .inr ⟨_,rfl,.inl rfl⟩
  · dsimp only
    split
    · exact .inr ⟨_,rfl,.inr rfl⟩
    · cases done : sqlite.write s.blobs ⟨account,blobId,data.val.length,data.val⟩ with
      | error failure => exact .inr ⟨_,rfl,.inr rfl⟩
      | ok next => exact .inl ⟨_,rfl,(write_done done).1⟩

theorem get_deleted (blobs : BlobTable) (a id account blobId : String) :
    getBlob (deleteBlob blobs a id).2 account blobId = if (a,id) = (account,blobId) then none else getBlob blobs account blobId := by
  unfold deleteBlob getBlob
  cases found : blobs.find (a,id) with
  | none =>
      by_cases same : (a,id) = (account,blobId)
      · rw [if_pos same,← same]
        dsimp only
        rw [found]
        rfl
      · rw [if_neg same]
  | some old =>
      dsimp only
      rw [find_delete]
      by_cases same : (a,id) = (account,blobId)
      · obtain ⟨owner,name⟩ := row_key found
        rw [if_pos same,← same,found]
        simp [Option.filter,owner,name]
      · rw [if_neg same]
        cases held : blobs.find (account,blobId) with
        | none => rfl
        | some r =>
            obtain ⟨owner,name⟩ := row_key held
            have stays : (!decide ((r.accountId,r.blobId) = (a,id))) = true := by
              rw [owner,name,decide_eq_false (fun other => same other.symm)]
              rfl
            rw [Option.filter_some,if_pos stays]

theorem perform_recalls (kept : Kept sqlite quota s.blobs) (call : BlobCall) (account blobId : String) :
    getBlob (perform sqlite quota max s call).2.blobs account blobId =
      remember account blobId (getBlob s.blobs account blobId) (call,(perform sqlite quota max s call).1) := by
  cases call with
  | put a id data =>
      change getBlob (putBlob sqlite a id data quota max s).2.blobs account blobId =
        remember account blobId (getBlob s.blobs account blobId) (.put a id data,.put (putBlob sqlite a id data quota max s).1)
      rcases put_leaves kept a id data max with ⟨size,answer,blobs⟩ | ⟨failure,answer,same⟩
      · rw [answer,remember,blobs,getBlob,find_upsert]
        split <;> rfl
      · have blobs : (putBlob sqlite a id data quota max s).2.blobs = s.blobs := by
          rcases same with is | is <;> rw [is]
          exact ensure_blobs s a
        rw [answer,blobs]
        rfl
  | get a id => rfl
  | delete a id => exact get_deleted s.blobs a id account blobId

theorem run_kept (calls : List BlobCall) (kept : Kept sqlite quota s.blobs) : Kept sqlite quota (run sqlite quota max s calls).2.blobs := by
  induction calls generalizing s with
  | nil => exact kept
  | cons call rest ih => exact ih (perform_kept kept call)

theorem run_recalls (calls : List BlobCall) (kept : Kept sqlite quota s.blobs) (account blobId : String) :
    getBlob (run sqlite quota max s calls).2.blobs account blobId =
      (run sqlite quota max s calls).1.foldl (remember account blobId) (getBlob s.blobs account blobId) := by
  induction calls generalizing s with
  | nil => rfl
  | cons call rest ih =>
      rw [run,List.foldl_cons,← perform_recalls kept call]
      exact ih (perform_kept kept call)

end

theorem ensure_settled {s : Server} {account : String} (known : s.accounts.find account = some row) : s.ensureAccount account = s := by
  unfold Server.ensureAccount ServerStore.ensureAccount
  rw [show s.store.accounts = s.accounts from rfl,known]
  rfl

def Refused (result : Except StoreError Nat) : Prop := ∃ error, result = .error (.refused error)

theorem put_stored {sqlite : Sqlite} {quota : UInt64} {max : Nat} {s : Server} {account blobId : String} {data : Slice}
    (kept : Kept sqlite quota s.blobs) (accepted : ¬Refused (putBlob sqlite account blobId data quota max s).1)
    (stored : BlobTable) (written : sqlite.write s.blobs ⟨account,blobId,data.val.length,data.val⟩ = .ok stored) :
    putBlob sqlite account blobId data quota max s = (.ok data.val.length,{s.ensureAccount account with blobs := stored}) ∧
      getBlob stored account blobId = some data.val := by
  obtain ⟨rfl,_⟩ := write_done written
  have plain : putBlob sqlite account blobId data quota max s = _ := put_refines kept written
  rw [plain] at accepted ⊢
  constructor
  · unfold AccountServer.putBlob ServerBlobs.putBlob at accepted ⊢
    by_cases large : max < data.val.length
    · rw [if_pos large] at accepted
      exact absurd ⟨_,rfl⟩ accepted
    · simp only [large,if_false] at accepted ⊢
      split at accepted
      · rename_i failure refused
        exact absurd ⟨failure,rfl⟩ accepted
      · rename_i size blobs stored
        split at stored
        · cases stored
        · cases stored
          rfl
  · simp [getBlob]

theorem blob_quota_exact (sqlite : Sqlite) (quota : UInt64) (max : Nat) (others : Server) (calls : List BlobCall) :
    let start := {others with blobs := .empty}
    let past := (run sqlite quota max start calls).1
    let s := (run sqlite quota max start calls).2
    (∀ account, getAccountBlobUsage s.blobs account ≤ quota.toNat) ∧
    (∀ row ∈ s.blobs.rows, sizeColumn row = row.data.length) ∧
    (∀ account blobId, (perform sqlite quota max s (.get account blobId)).1 = .got (lastStored account blobId past)) ∧
    ∀ account blobId data,
      (Refused (putBlob sqlite account blobId data quota max s).1 ↔
        max < data.val.length ∨ quota.toNat+heldSize s.blobs account blobId < getAccountBlobUsage s.blobs account+data.val.length) ∧
      (¬Refused (putBlob sqlite account blobId data quota max s).1 →
        ∀ stored, sqlite.write s.blobs ⟨account,blobId,data.val.length,data.val⟩ = .ok stored →
          putBlob sqlite account blobId data quota max s = (.ok data.val.length,{s.ensureAccount account with blobs := stored}) ∧
          getBlob stored account blobId = some data.val) ∧
      ∀ failure, (putBlob sqlite account blobId data quota max s).1 = .error failure →
        (putBlob sqlite account blobId data quota max s).2.blobs = s.blobs ∧
        ((s.accounts.find account).isSome = true → (putBlob sqlite account blobId data quota max s).2 = s) := by
  intro start past s
  have first : Kept sqlite quota start.blobs := ⟨fun r inside => (List.not_mem_nil inside).elim,fun _ => Nat.zero_le _,Nat.zero_le _⟩
  have kept : Kept sqlite quota s.blobs := run_kept calls first
  refine ⟨kept.within,fun row inside => column_length kept inside,fun account blobId => ?_,fun account blobId data => ⟨?_,put_stored kept,?_⟩⟩
  · exact congrArg BlobAnswer.got (run_recalls calls first account blobId)
  · have least := held_usage kept account blobId
    rw [put_eq kept]
    by_cases large : max < data.val.length
    · rw [if_pos large]
      exact iff_of_true ⟨_,rfl⟩ (.inl large)
    · rw [if_neg large]
      dsimp only
      by_cases exceeds : quota.toNat < getAccountBlobUsage s.blobs account - heldSize s.blobs account blobId+data.val.length
      · rw [if_pos exceeds]
        exact iff_of_true ⟨_,rfl⟩ (.inr (by omega))
      · rw [if_neg exceeds]
        refine iff_of_false (fun refused => ?_) (fun either => either.elim large (fun more => exceeds (by omega)))
        obtain ⟨error,is⟩ := refused
        cases done : sqlite.write s.blobs ⟨account,blobId,data.val.length,data.val⟩ with
        | ok next =>
            rw [done] at is
            cases is
        | error failure =>
            rw [done] at is
            obtain ⟨message,other⟩ := write_failed done
            rw [other] at is
            cases is
  · intro failure failed
    rcases put_leaves kept account blobId data max with ⟨size,answer,_⟩ | ⟨_,_,same⟩
    · cases failed.symm.trans answer
    · constructor
      · rcases same with is | is <;> rw [is]
        exact ensure_blobs s account
      · intro known
        obtain ⟨row,known⟩ := Option.isSome_iff_exists.mp known
        rw [ensure_settled known] at same
        exact same.elim id id

end ZkNote.BlobQuota
