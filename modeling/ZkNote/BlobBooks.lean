import ZkNote.Fallible
import ZkNote.WorkerBlobs

namespace ZkNote.BlobBooks
open Fallible KeyedTable WorkerBlobs

variable {db db' : D1} {accountId : String} {a : AccountRow}

def blobShare (accountId : String) (b : BlobRow) : Int := if b.accountId = accountId then b.size else 0
def uploadShare (accountId : String) (u : UploadRow) : Int := if u.accountId = accountId then u.size else 0
def one (accountId : String) (bytes : Int) : String → Int := fun other => if accountId = other then bytes else 0

-- The counters of every account, once what is owed is charged to them.
structure Books (db : D1) (blob reserved : String → Int) : Prop where
  blobBytes : ∀ a ∈ db.accounts.rows, a.blobBytes + blob a.id = db.blobs.total (blobShare a.id)
  reservedBytes : ∀ a ∈ db.accounts.rows, a.reservedBytes + reserved a.id = db.uploads.total (uploadShare a.id)
  blobSize : ∀ b ∈ db.blobs.rows, 0 ≤ b.size
  uploadSize : ∀ u ∈ db.uploads.rows, 0 ≤ u.size

abbrev nothing : String → Int := fun _ => 0
abbrev Balanced (db : D1) : Prop := Books db nothing nothing

-- What an account's blobs and reservations come to.
def load (db : D1) (accountId : String) : Int := db.blobs.total (blobShare accountId) + db.uploads.total (uploadShare accountId)

theorem blob_share_nonneg {blob reserved : String → Int} (books : Books db blob reserved) (accountId : String) :
    ∀ b ∈ db.blobs.rows, 0 ≤ blobShare accountId b := by
  intro b inside
  unfold blobShare
  split
  · exact books.blobSize b inside
  · exact Int.le_refl 0

theorem upload_share_nonneg {blob reserved : String → Int} (books : Books db blob reserved) (accountId : String) :
    ∀ u ∈ db.uploads.rows, 0 ≤ uploadShare accountId u := by
  intro u inside
  unfold uploadShare
  split
  · exact books.uploadSize u inside
  · exact Int.le_refl 0

-- The tables beside the accounts, and whose accounts there are.
structure Beside (db db' : D1) : Prop where
  blobs : db'.blobs = db.blobs
  uploads : db'.uploads = db.uploads
  garbage : db'.garbage = db.garbage
  accounts : ∀ id, (db'.accounts.find id).isSome = (db.accounts.find id).isSome

theorem charge_beside {blob reserved : Int} (done : charge db accountId blob reserved = .ok db') : Beside db db' := by
  unfold charge at done
  split at done
  · cases done
    exact ⟨rfl,rfl,rfl,fun _ => rfl⟩
  · rename_i a found
    split at done
    · cases done
      refine ⟨rfl,rfl,rfl,fun id => ?_⟩
      rw [find_upsert]
      split
      · rename_i same
        rw [← same,show db.accounts.find a.id = some a from mem_iff_find.mp (find_mem found)]
        rfl
      · rfl
    · cases done

theorem charge_books {blob reserved : Int} (books : Books db (one accountId blob) (one accountId reserved))
    (done : charge db accountId blob reserved = .ok db') : Balanced db' := by
  unfold charge at done
  split at done
  · rename_i missing
    cases done
    have other : ∀ a ∈ db.accounts.rows, accountId ≠ a.id := by
      intro a inside same
      rw [mem_find inside same.symm] at missing
      cases missing
    refine ⟨fun a inside => ?_,fun a inside => ?_,books.blobSize,books.uploadSize⟩
    · have is := books.blobBytes a inside
      rwa [one,if_neg (other a inside)] at is
    · have is := books.reservedBytes a inside
      rwa [one,if_neg (other a inside)] at is
  · rename_i a found
    have own : a.id = accountId := find_key found
    split at done
    · cases done
      refine ⟨fun x inside => ?_,fun x inside => ?_,books.blobSize,books.uploadSize⟩
      · rcases mem_upsert.mp inside with rfl | ⟨old,other⟩
        · have is := books.blobBytes a (find_mem found)
          rw [one,if_pos own.symm] at is
          simpa using is
        · have is := books.blobBytes x old
          rwa [one,if_neg (fun same => other (same.symm.trans own.symm))] at is
      · rcases mem_upsert.mp inside with rfl | ⟨old,other⟩
        · have is := books.reservedBytes a (find_mem found)
          rw [one,if_pos own.symm] at is
          simpa using is
        · have is := books.reservedBytes x old
          rwa [one,if_neg (fun same => other (same.symm.trans own.symm))] at is
    · cases done

-- No counter goes below zero.
theorem charge_passes {blob reserved : Int} (books : Books db (one accountId blob) (one accountId reserved)) :
    charge db accountId blob reserved ≠ .error .check := by
  unfold charge
  split
  · intro failed
    cases failed
  · rename_i a found
    have own : a.id = accountId := find_key found
    have blobs := books.blobBytes a (find_mem found)
    have uploads := books.reservedBytes a (find_mem found)
    rw [one,if_pos own.symm] at blobs uploads
    have more := total_nonneg db.blobs (blob_share_nonneg books a.id)
    have more' := total_nonneg db.uploads (upload_share_nonneg books a.id)
    rw [if_pos (by omega)]
    intro failed
    cases failed

theorem garbage_books {storageKey : String} {retryForever : Bool} {now : Nat} {blob reserved : String → Int} (books : Books db blob reserved) :
    Books (addGarbage db storageKey retryForever now) blob reserved :=
  ⟨books.blobBytes,books.reservedBytes,books.blobSize,books.uploadSize⟩

theorem balanced_blobs (balanced : Balanced db) (inside : a ∈ db.accounts.rows) : a.blobBytes = db.blobs.total (blobShare a.id) :=
  (Int.add_zero _).symm.trans (balanced.blobBytes a inside)

theorem balanced_reserved (balanced : Balanced db) (inside : a ∈ db.accounts.rows) : a.reservedBytes = db.uploads.total (uploadShare a.id) :=
  (Int.add_zero _).symm.trans (balanced.reservedBytes a inside)

theorem one_zero (accountId other : String) : one accountId 0 other = 0 := ite_self 0

theorem books_inserted {new : UploadRow} (balanced : Balanced db) (size : 0 ≤ new.size) (fresh : db.uploads.find new.storageKey = none) :
    Books {db with uploads := db.uploads.upsert new} (one new.accountId 0) (one new.accountId new.size) := by
  refine ⟨fun a inside => ?_,fun a inside => ?_,balanced.blobSize,fun u member => ?_⟩
  · rw [one_zero,balanced_blobs balanced inside,Int.add_zero]
  · have is := balanced_reserved balanced inside
    show a.reservedBytes + uploadShare a.id new = (db.uploads.upsert new).total (uploadShare a.id)
    rw [total_fresh fresh]
    omega
  · rcases mem_upsert.mp member with rfl | ⟨old,_⟩
    · exact size
    · exact balanced.uploadSize u old

-- What a reservation writes.
structure Inserted (db db' : D1) (new : UploadRow) : Prop where
  balanced : Balanced db'
  fresh : db.uploads.find new.storageKey = none
  beside : Beside {db with uploads := db.uploads.upsert new} db'

theorem insert_upload_done {new : UploadRow} (balanced : Balanced db) (done : insertUpload db new = .ok db') : Inserted db db' new := by
  unfold insertUpload at done
  split at done
  · cases done
  · rename_i size
    split at done
    · cases done
    · rename_i uploads inserted
      obtain ⟨fresh,rfl⟩ := insert_cases inserted
      exact ⟨charge_books (books_inserted balanced (by omega) fresh) done,fresh,charge_beside done⟩

theorem insert_upload_passes {new : UploadRow} (balanced : Balanced db) (size : 0 ≤ new.size) : insertUpload db new ≠ .error .check := by
  unfold insertUpload
  rw [if_neg (by omega)]
  split
  · intro failed
    cases failed
  · rename_i uploads inserted
    obtain ⟨fresh,rfl⟩ := insert_cases inserted
    exact charge_passes (books_inserted balanced size fresh)

theorem books_released {old : UploadRow} {storageKey : String} (balanced : Balanced db) (found : db.uploads.find storageKey = some old) :
    Books {db with uploads := db.uploads.delete (fun u => u.storageKey = storageKey)} (one old.accountId 0) (one old.accountId (-old.size)) := by
  refine ⟨fun a inside => ?_,fun a inside => ?_,balanced.blobSize,fun u member => balanced.uploadSize u (mem_delete.mp member).1⟩
  · rw [one_zero,balanced_blobs balanced inside,Int.add_zero]
  · have is := balanced_reserved balanced inside
    have share : one old.accountId (-old.size) a.id = -uploadShare a.id old := by
      unfold one uploadShare
      split <;> rfl
    rw [total_delete found,share]
    omega

-- What a release leaves.
structure Released (db db' : D1) (storageKey : String) : Prop where
  balanced : Balanced db'
  beside : Beside {db with uploads := db.uploads.delete (fun u => u.storageKey = storageKey)} db'

theorem delete_upload_done {storageKey : String} (balanced : Balanced db) (done : deleteUpload db storageKey = .ok db') :
    Released db db' storageKey := by
  unfold deleteUpload at done
  split at done
  · rename_i absent
    cases done
    exact ⟨balanced,⟨rfl,(delete_absent absent).symm,rfl,fun _ => rfl⟩⟩
  · rename_i old found
    exact ⟨charge_books (books_released balanced found) done,charge_beside done⟩

theorem delete_upload_passes (balanced : Balanced db) (storageKey : String) : deleteUpload db storageKey ≠ .error .check := by
  unfold deleteUpload
  split
  · intro failed
    cases failed
  · rename_i old found
    exact charge_passes (books_released balanced found)

def ownKey (b : BlobRow) : String × String := (b.accountId,b.blobId)

theorem books_created {new : BlobRow} (balanced : Balanced db) (size : 0 ≤ new.size) (fresh : db.blobs.find (ownKey new) = none) :
    Books {db with blobs := db.blobs.upsert new} (one new.accountId new.size) (one new.accountId 0) := by
  refine ⟨fun a inside => ?_,fun a inside => ?_,fun b member => ?_,balanced.uploadSize⟩
  · have is := balanced_blobs balanced inside
    show a.blobBytes + blobShare a.id new = (db.blobs.upsert new).total (blobShare a.id)
    rw [total_fresh fresh]
    omega
  · rw [one_zero,balanced_reserved balanced inside,Int.add_zero]
  · rcases mem_upsert.mp member with rfl | ⟨old,_⟩
    · exact size
    · exact balanced.blobSize b old

theorem books_replaced {old new : BlobRow} (balanced : Balanced db) (size : 0 ≤ new.size) (found : db.blobs.find (ownKey new) = some old) :
    Books {db with blobs := db.blobs.upsert new} (one new.accountId (new.size - old.size)) (one new.accountId 0) := by
  have key : ownKey old = ownKey new := find_key found
  have own : old.accountId = new.accountId := congrArg Prod.fst key
  refine ⟨fun a inside => ?_,fun a inside => ?_,fun b member => ?_,balanced.uploadSize⟩
  · have is := balanced_blobs balanced inside
    have share : one new.accountId (new.size - old.size) a.id = blobShare a.id new - blobShare a.id old := by
      unfold one blobShare
      rw [own]
      split <;> omega
    rw [total_held found,share]
    omega
  · rw [one_zero,balanced_reserved balanced inside,Int.add_zero]
  · rcases mem_upsert.mp member with rfl | ⟨old,_⟩
    · exact size
    · exact balanced.blobSize b old

-- What a publication writes, and what a replaced version leaves to be collected.
structure Upserted (db db' : D1) (new : BlobRow) (now : Nat) : Prop where
  balanced : Balanced db'
  beside : ∃ garbage, (garbage = db.garbage ∧ db.blobs.find (ownKey new) = none ∨
      ∃ old, db.blobs.find (ownKey new) = some old ∧ garbage = (addGarbage db old.storageKey false now).garbage) ∧
    Beside {db with blobs := db.blobs.upsert new, garbage := garbage} db'
  only : ∀ b ∈ db.blobs.rows, b.storageKey = new.storageKey → ownKey b = ownKey new

theorem upsert_blob_done {new : BlobRow} {now : Nat} (balanced : Balanced db) (done : upsertBlob db new now = .ok db') : Upserted db db' new now := by
  unfold upsertBlob at done
  split at done
  · cases done
  · rename_i size
    split at done
    · cases done
    · rename_i single
      have only : ∀ b ∈ db.blobs.rows, b.storageKey = new.storageKey → ownKey b = ownKey new := by
        intro b inside same
        by_contra other
        exact single (List.any_eq_true.mpr ⟨b,inside,decide_eq_true ⟨same,other⟩⟩)
      split at done
      · rename_i fresh
        have books := charge_books (books_created balanced (by omega) fresh) done
        exact ⟨books,⟨db.garbage,.inl ⟨rfl,fresh⟩,charge_beside done⟩,only⟩
      · rename_i old found
        obtain ⟨mid,charged,is⟩ := bind_done done
        cases is
        have books := charge_books (books_replaced balanced (by omega) found) charged
        obtain ⟨blobs,uploads,garbage,accounts⟩ := charge_beside charged
        refine ⟨garbage_books books,⟨_,.inr ⟨old,found,rfl⟩,⟨blobs,uploads,?_,accounts⟩⟩,only⟩
        show (mid.garbage.insert _).getD mid.garbage = (db.garbage.insert _).getD db.garbage
        rw [garbage]

theorem upsert_blob_passes {new : BlobRow} (now : Nat) (balanced : Balanced db) (size : 0 ≤ new.size) : upsertBlob db new now ≠ .error .check := by
  unfold upsertBlob
  rw [if_neg (by omega)]
  split
  · intro failed
    cases failed
  · split
    · rename_i fresh
      exact charge_passes (books_created balanced size fresh)
    · rename_i old found
      intro failed
      rcases bind_failed failed with charged | ⟨mid,_,is⟩
      · exact charge_passes (books_replaced balanced size found) charged
      · cases is

theorem books_deleted {old : BlobRow} {key : String × String} (balanced : Balanced db) (found : db.blobs.find key = some old) :
    Books {db with blobs := db.blobs.delete (fun b => decide ((b.accountId,b.blobId) = key))} (one old.accountId (-old.size)) (one old.accountId 0) := by
  refine ⟨fun a inside => ?_,fun a inside => ?_,fun b member => balanced.blobSize b (mem_delete.mp member).1,balanced.uploadSize⟩
  · have is := balanced_blobs balanced inside
    have share : one old.accountId (-old.size) a.id = -blobShare a.id old := by
      unfold one blobShare
      split <;> rfl
    rw [total_delete found,share]
    omega
  · rw [one_zero,balanced_reserved balanced inside,Int.add_zero]

-- What a DELETE leaves.
structure Deleted (db db' : D1) (old : BlobRow) (now : Nat) : Prop where
  balanced : Balanced db'
  beside : Beside {db with
    blobs := db.blobs.delete (fun b => decide ((b.accountId,b.blobId) = ownKey old))
    garbage := (addGarbage db old.storageKey false now).garbage} db'

theorem delete_blob_done {blobId : String} {now : Nat} {returned : Bool} (balanced : Balanced db)
    (done : deleteBlob db accountId blobId now = .ok (db',returned)) :
    db' = db ∨ ∃ old, db.blobs.find (accountId,blobId) = some old ∧ Deleted db db' old now := by
  unfold deleteBlob at done
  split at done
  · cases done
    exact .inl rfl
  · rename_i old found
    obtain ⟨mid,marked,is⟩ := bind_done done
    obtain ⟨low,charged,is'⟩ := bind_done marked
    cases is
    cases is'
    have own : (accountId,blobId) = ownKey old := (find_key found).symm
    have books := charge_books (books_deleted balanced found) charged
    obtain ⟨blobs,uploads,garbage,accounts⟩ := charge_beside charged
    refine .inr ⟨old,found,garbage_books books,⟨?_,uploads,?_,accounts⟩⟩
    · rw [← own]
      exact blobs
    · show (low.garbage.insert _).getD low.garbage = (db.garbage.insert _).getD db.garbage
      rw [garbage]

theorem delete_blob_passes (balanced : Balanced db) (accountId blobId : String) (now : Nat) : deleteBlob db accountId blobId now ≠ .error .check := by
  unfold deleteBlob
  split
  · intro failed
    cases failed
  · rename_i old found
    intro failed
    rcases bind_failed failed with marked | ⟨mid,_,is⟩
    · rcases bind_failed marked with charged | ⟨low,_,is⟩
      · exact charge_passes (books_deleted balanced found) charged
      · cases is
    · cases is

end ZkNote.BlobBooks
