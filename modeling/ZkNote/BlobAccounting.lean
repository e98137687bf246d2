import ZkNote.BlobBooks
import ZkNote.Runs

namespace ZkNote.BlobAccounting
open Fallible KeyedTable WorkerBlobs BlobBooks Runs

variable {db db' mid : D1} {quota : Nat} {storageKey accountId blobId : String} {now later : Nat} {returned : Bool} {id : String}

-- A database between two batches.
structure Fit (quota : Nat) (db : D1) : Prop where
  balanced : Balanced db
  within : ∀ id, (db.accounts.find id).isSome → load db id ≤ quota
  blobOwner : ∀ b ∈ db.blobs.rows, (db.accounts.find b.accountId).isSome
  uploadOwner : ∀ u ∈ db.uploads.rows, (db.accounts.find u.accountId).isSome
  single : ∀ b ∈ db.blobs.rows, ∀ b' ∈ db.blobs.rows, b.storageKey = b'.storageKey → b = b'
  apart : ∀ b ∈ db.blobs.rows, ∀ u ∈ db.uploads.rows, u.storageKey ≠ b.storageKey

def Known (db : D1) (storageKey : String) : Prop :=
  (∃ u ∈ db.uploads.rows, u.storageKey = storageKey) ∨ ∃ b ∈ db.blobs.rows, b.storageKey = storageKey

-- No blob has the key, and no upload that could still be published.
structure Gone (db : D1) (now : Nat) (storageKey : String) : Prop where
  blobs : ∀ b ∈ db.blobs.rows, b.storageKey ≠ storageKey
  uploads : ∀ u ∈ db.uploads.rows, u.storageKey = storageKey → u.expiresAt ≤ now

-- What one call may do to the rows.
structure Change (db db' : D1) (drawn published : Option String) (now later : Nat) : Prop where
  uploads : ∀ u ∈ db'.uploads.rows, u ∈ db.uploads.rows ∨ drawn = some u.storageKey
  blobs : ∀ b ∈ db'.blobs.rows, b ∈ db.blobs.rows ∨ published = some b.storageKey ∧ ∃ u ∈ db.uploads.rows, u.storageKey = b.storageKey ∧ now < u.expiresAt
  garbage : ∀ g ∈ db'.garbage.rows, (∃ h ∈ db.garbage.rows, h.storageKey = g.storageKey) ∨
    Known db g.storageKey ∧ Gone db' later g.storageKey

theorem change_refl (db : D1) (drawn published : Option String) (now later : Nat) : Change db db drawn published now later :=
  ⟨fun _ inside => .inl inside,fun _ inside => .inl inside,fun g inside => .inl ⟨g,inside,rfl⟩⟩

theorem added_row {g : GarbageRow} {retryForever : Bool} (inside : g ∈ (addGarbage db storageKey retryForever now).garbage.rows) :
    g ∈ db.garbage.rows ∨ g = ⟨storageKey,retryForever,now⟩ := by
  unfold addGarbage at inside
  cases inserted : db.garbage.insert ⟨storageKey,retryForever,now⟩ with
  | none =>
      rw [inserted] at inside
      exact .inl inside
  | some garbage =>
      obtain ⟨_,rfl⟩ := insert_cases inserted
      rw [inserted] at inside
      rcases mem_upsert.mp inside with rfl | ⟨old,_⟩
      · exact .inr rfl
      · exact .inl old

theorem mem_garbage {g : GarbageRow} {retryForever : Bool} (inside : g ∈ (addGarbage db storageKey retryForever now).garbage.rows) :
    g ∈ db.garbage.rows ∨ g.storageKey = storageKey :=
  (added_row inside).imp_right (fun is => congrArg GarbageRow.storageKey is)

theorem reserve_fit {size : Int} (fit : Fit quota db) (known : ∀ b ∈ db.blobs.rows, b.storageKey ≠ storageKey)
    (done : reserve db storageKey accountId blobId size quota now = .ok (db',returned)) :
    Fit quota db' ∧ Change db db' (some storageKey) none now now := by
  unfold reserve at done
  split at done
  · cases done
    exact ⟨fit,change_refl db _ _ _ _⟩
  · rename_i a found
    split at done
    · rename_i room
      obtain ⟨mid,inserted,is⟩ := bind_done done
      cases is
      let new : UploadRow := ⟨storageKey,accountId,blobId,size,now + uploadLifetime⟩
      obtain ⟨balanced,fresh,beside⟩ := insert_upload_done fit.balanced inserted
      have owned : ∀ id, (db'.accounts.find id).isSome = (db.accounts.find id).isSome := beside.accounts
      have uploads : db'.uploads = db.uploads.upsert new := beside.uploads
      have blobs : db'.blobs = db.blobs := beside.blobs
      have rows : ∀ u ∈ db'.uploads.rows, u = new ∨ u ∈ db.uploads.rows := by
        intro u inside
        rw [uploads] at inside
        exact (mem_upsert.mp inside).imp_right And.left
      refine ⟨⟨balanced,fun id present => ?_,?_,?_,?_,?_⟩,⟨?_,?_,?_⟩⟩
      · rw [owned] at present
        have before := fit.within id present
        have more : load db' id = load db id + uploadShare id new := by
          rw [load,uploads,blobs,total_fresh fresh,load,Int.add_assoc]
        rw [more]
        unfold uploadShare
        split
        · rename_i own
          have is : a.id = id := (find_key found).trans own
          have one := balanced_blobs fit.balanced (find_mem found)
          have two := balanced_reserved fit.balanced (find_mem found)
          rw [is] at one two
          rw [load,← one,← two]
          exact room
        · omega
      · intro b inside
        rw [owned]
        exact fit.blobOwner b (blobs ▸ inside)
      · intro u inside
        rw [owned]
        rcases rows u inside with rfl | old
        · show (db.accounts.find accountId).isSome = true
          rw [found]
          rfl
        · exact fit.uploadOwner u old
      · rw [blobs]
        exact fit.single
      · intro b inside u inside'
        rw [blobs] at inside
        rcases rows u inside' with rfl | old
        · exact (known b inside).symm
        · exact fit.apart b inside u old
      · intro u inside
        rcases rows u inside with rfl | old
        · exact .inr rfl
        · exact .inl old
      · intro b inside
        exact .inl (blobs ▸ inside)
      · intro g inside
        rw [beside.garbage] at inside
        exact .inl ⟨g,inside,rfl⟩
    · cases done
      exact ⟨fit,change_refl db _ _ _ _⟩

-- A call that only removes rows.
theorem fit_less (fit : Fit quota db) (balanced : Balanced db') (owned : ∀ id, (db'.accounts.find id).isSome = (db.accounts.find id).isSome)
    (blobs : ∀ b ∈ db'.blobs.rows, b ∈ db.blobs.rows) (uploads : ∀ u ∈ db'.uploads.rows, u ∈ db.uploads.rows)
    (lighter : ∀ id, load db' id ≤ load db id) : Fit quota db' where
  balanced := balanced
  within id present := Int.le_trans (lighter id) (fit.within id (owned id ▸ present))
  blobOwner b inside := (owned b.accountId).trans (fit.blobOwner b (blobs b inside))
  uploadOwner u inside := (owned u.accountId).trans (fit.uploadOwner u (uploads u inside))
  single b inside b' inside' := fit.single b (blobs b inside) b' (blobs b' inside')
  apart b inside u inside' := fit.apart b (blobs b inside) u (uploads u inside')

theorem released_rows (released : Released db db' storageKey) {u : UploadRow} (inside : u ∈ db'.uploads.rows) :
    u ∈ db.uploads.rows ∧ u.storageKey ≠ storageKey := by
  have uploads : db'.uploads = db.uploads.delete (fun u => u.storageKey = storageKey) := released.beside.uploads
  rw [uploads] at inside
  obtain ⟨old,other⟩ := mem_delete.mp inside
  exact ⟨old,by simpa using other⟩

theorem released_load (released : Released db db' storageKey) (balanced : Balanced db) (id : String) : load db' id ≤ load db id := by
  have uploads : db'.uploads = db.uploads.delete (fun u => u.storageKey = storageKey) := released.beside.uploads
  have blobs : db'.blobs = db.blobs := released.beside.blobs
  cases found : db.uploads.find storageKey with
  | none =>
      rw [load,uploads,blobs,delete_absent found]
      exact Int.le_refl _
  | some old =>
      have share := upload_share_nonneg balanced id old (find_mem found)
      rw [load,uploads,blobs,total_delete found,load]
      omega

theorem release_fit (fit : Fit quota db) (done : deleteUpload db storageKey = .ok db') (drawn published : Option String) (now later : Nat) :
    Fit quota db' ∧ Change db db' drawn published now later := by
  have released := delete_upload_done fit.balanced done
  have blobs : db'.blobs = db.blobs := released.beside.blobs
  have garbage : db'.garbage = db.garbage := released.beside.garbage
  refine ⟨fit_less fit released.balanced released.beside.accounts (fun b inside => blobs ▸ inside) (fun u inside => (released_rows released inside).1)
    (released_load released fit.balanced),⟨fun u inside => .inl (released_rows released inside).1,fun b inside => .inl (blobs ▸ inside),?_⟩⟩
  intro g inside
  exact .inl ⟨g,garbage ▸ inside,rfl⟩

-- The published row goes in and its reservation out.
theorem published_fit {u : UploadRow} (fit : Fit quota db) (found : db.uploads.find storageKey = some u) (live : now < u.expiresAt)
    (upserted : Upserted db mid ⟨u.accountId,u.blobId,u.storageKey,u.size⟩ now) (released : Released mid db' storageKey) (drawn : Option String) :
    Fit quota db' ∧ Change db db' drawn (some storageKey) now now := by
  let new : BlobRow := ⟨u.accountId,u.blobId,u.storageKey,u.size⟩
  have inside : u ∈ db.uploads.rows := find_mem found
  have own : u.storageKey = storageKey := find_key found
  obtain ⟨_,⟨garbage,source,⟨blobs,uploads,collected,accounts⟩⟩,only⟩ := upserted
  have midBlobs : mid.blobs = db.blobs.upsert new := blobs
  have midUploads : mid.uploads = db.uploads := uploads
  have midGarbage : mid.garbage = garbage := collected
  have newBlobs : db'.blobs = db.blobs.upsert new := released.beside.blobs.trans midBlobs
  have newGarbage : db'.garbage = garbage := released.beside.garbage.trans midGarbage
  have owned : ∀ id, (db'.accounts.find id).isSome = (db.accounts.find id).isSome :=
    fun id => (released.beside.accounts id).trans (accounts id)
  have rows : ∀ b ∈ db'.blobs.rows, b = new ∨ b ∈ db.blobs.rows ∧ ownKey b ≠ ownKey new := by
    intro b member
    rw [newBlobs] at member
    exact mem_upsert.mp member
  have kept : ∀ x ∈ db'.uploads.rows, x ∈ db.uploads.rows ∧ x.storageKey ≠ storageKey := by
    intro x member
    obtain ⟨old,other⟩ := released_rows released member
    exact ⟨midUploads ▸ old,other⟩
  have alone : ∀ b ∈ db.blobs.rows, b.storageKey ≠ new.storageKey := fun b member => (fit.apart b member u inside).symm
  refine ⟨⟨released.balanced,fun id present => ?_,?_,?_,?_,?_⟩,⟨?_,?_,?_⟩⟩
  · rw [owned] at present
    refine Int.le_trans ?_ (fit.within id present)
    have newUploads : db'.uploads = db.uploads.delete (fun x => x.storageKey = storageKey) := by
      have is : db'.uploads = mid.uploads.delete (fun x => x.storageKey = storageKey) := released.beside.uploads
      rw [is,midUploads]
    have share : blobShare id ⟨u.accountId,u.blobId,u.storageKey,u.size⟩ = uploadShare id u := rfl
    rw [load,newBlobs,newUploads,total_delete found,load]
    rcases source with ⟨_,fresh⟩ | ⟨old,replaced,_⟩
    · rw [total_fresh fresh]
      omega
    · have lost := blob_share_nonneg fit.balanced id old (find_mem replaced)
      rw [total_held replaced]
      omega
  · intro b member
    rw [owned]
    rcases rows b member with rfl | ⟨old,_⟩
    · exact fit.uploadOwner u inside
    · exact fit.blobOwner b old
  · intro x member
    rw [owned]
    exact fit.uploadOwner x (kept x member).1
  · intro b member b' member' same
    rcases rows b member with rfl | ⟨old,_⟩ <;> rcases rows b' member' with rfl | ⟨old',_⟩
    · rfl
    · exact absurd same.symm (alone b' old')
    · exact absurd same (alone b old)
    · exact fit.single b old b' old' same
  · intro b member x member'
    obtain ⟨before,other⟩ := kept x member'
    rcases rows b member with rfl | ⟨old,_⟩
    · exact fun same => other (same.trans own)
    · exact fit.apart b old x before
  · intro x member
    exact .inl (kept x member).1
  · intro b member
    rcases rows b member with rfl | ⟨old,_⟩
    · exact .inr ⟨congrArg some own.symm,u,inside,rfl,live⟩
    · exact .inl old
  · intro g member
    rw [newGarbage] at member
    rcases source with ⟨rfl,_⟩ | ⟨old,replaced,rfl⟩
    · exact .inl ⟨g,member,rfl⟩
    · rcases mem_garbage member with before | is
      · exact .inl ⟨g,before,rfl⟩
      · have held := find_mem replaced
        refine .inr ⟨.inr ⟨old,held,is.symm⟩,⟨fun b member same => ?_,fun x member same => ?_⟩⟩
        · rcases rows b member with rfl | ⟨before,other⟩
          · exact alone old held (same.trans is).symm
          · have both := fit.single b before old held (same.trans is)
            exact other (both ▸ find_key replaced)
        · exact absurd (same.trans is) (fit.apart old held x (kept x member).1)

theorem drop_fit (fit : Fit quota db) (done : dropPublished db storageKey = .ok db') (drawn published : Option String) :
    Fit quota db' ∧ Change db db' drawn published now now := by
  unfold dropPublished at done
  split at done
  · exact release_fit fit done drawn published now now
  · cases done
    exact ⟨fit,change_refl db _ _ _ _⟩

theorem publish_fit (fit : Fit quota db) (done : publish db storageKey now = .ok (db',returned)) (drawn : Option String) :
    Fit quota db' ∧ Change db db' drawn (some storageKey) now now := by
  obtain ⟨⟨mid,published⟩,first,rest⟩ := bind_done done
  obtain ⟨last,second,is⟩ := bind_done rest
  cases is
  unfold publishUpload at first
  split at first
  · cases first
    exact drop_fit fit second drawn (some storageKey)
  · rename_i u found
    split at first
    · rename_i live
      obtain ⟨wrote,upserting,is⟩ := bind_done first
      cases is
      have upserted := upsert_blob_done fit.balanced upserting
      have own : u.storageKey = storageKey := find_key found
      have blobs : mid.blobs = db.blobs.upsert ⟨u.accountId,u.blobId,u.storageKey,u.size⟩ := by
        obtain ⟨_,_,beside⟩ := upserted.beside
        exact beside.blobs
      have present : mid.blobs.rows.any (fun b => b.storageKey = storageKey) = true := by
        rw [blobs]
        exact List.any_eq_true.mpr ⟨_,mem_upsert.mpr (.inl rfl),decide_eq_true own⟩
      have released : deleteUpload mid storageKey = .ok db' := by
        have is : dropPublished mid storageKey = .ok db' := second
        rwa [dropPublished,if_pos present] at is
      exact published_fit fit found live upserted (delete_upload_done upserted.balanced released) drawn
    · cases first
      exact drop_fit fit second drawn (some storageKey)

theorem garbage_fit (fit : Fit quota db) (storageKey : String) (retryForever : Bool) (now : Nat) :
    Fit quota (addGarbage db storageKey retryForever now) :=
  ⟨garbage_books fit.balanced,fit.within,fit.blobOwner,fit.uploadOwner,fit.single,fit.apart⟩

theorem cancel_fit (fit : Fit quota db) (done : cancel db storageKey now = .ok (db',returned)) (drawn published : Option String) :
    Fit quota db' ∧ Change db db' drawn published now now := by
  obtain ⟨last,released,is⟩ := bind_done done
  cases is
  cases found : db.uploads.find storageKey with
  | none =>
      rw [found] at released
      exact release_fit fit released drawn published now now
  | some u =>
      rw [found] at released
      have own : u.storageKey = storageKey := find_key found
      have noted := garbage_fit fit u.storageKey true now
      have rows : ∀ x ∈ db'.uploads.rows, x ∈ (addGarbage db u.storageKey true now).uploads.rows ∧ x.storageKey ≠ storageKey :=
        fun x member => released_rows (delete_upload_done noted.balanced released) member
      obtain ⟨fit',change⟩ := release_fit noted released drawn published now now
      refine ⟨fit',⟨change.uploads,change.blobs,fun g member => ?_⟩⟩
      have blobs : db'.blobs = db.blobs := (delete_upload_done noted.balanced released).beside.blobs
      have garbage : db'.garbage = (addGarbage db u.storageKey true now).garbage :=
        (delete_upload_done noted.balanced released).beside.garbage
      rw [garbage] at member
      rcases mem_garbage member with old | is
      · exact .inl ⟨g,old,rfl⟩
      · refine .inr ⟨.inl ⟨u,find_mem found,is.symm⟩,⟨fun b member same => ?_,fun x member same => ?_⟩⟩
        · exact fit.apart b (blobs ▸ member) u (find_mem found) (is.symm.trans same.symm)
        · exact absurd ((same.trans is).trans own) (rows x member).2

theorem delete_fit (fit : Fit quota db) (done : deleteBlob db accountId blobId now = .ok (db',returned)) (drawn published : Option String) :
    Fit quota db' ∧ Change db db' drawn published now now := by
  rcases delete_blob_done fit.balanced done with rfl | ⟨old,found,balanced,beside⟩
  · exact ⟨fit,change_refl db' _ _ _ _⟩
  · have held := find_mem found
    have blobs : db'.blobs = db.blobs.delete (fun b => decide ((b.accountId,b.blobId) = ownKey old)) := beside.blobs
    have uploads : db'.uploads = db.uploads := beside.uploads
    have garbage : db'.garbage = (addGarbage db old.storageKey false now).garbage := beside.garbage
    have found' : db.blobs.find (ownKey old) = some old := mem_iff_find.mp held
    have rows : ∀ b ∈ db'.blobs.rows, b ∈ db.blobs.rows ∧ ownKey b ≠ ownKey old := by
      intro b member
      rw [blobs] at member
      obtain ⟨before,other⟩ := mem_delete.mp member
      exact ⟨before,of_decide_eq_false other⟩
    refine ⟨fit_less fit balanced beside.accounts (fun b member => (rows b member).1) (fun u member => uploads ▸ member) (fun id => ?_),
      ⟨fun u member => .inl (uploads ▸ member),fun b member => .inl (rows b member).1,fun g member => ?_⟩⟩
    · have lost := blob_share_nonneg fit.balanced id old held
      rw [load,blobs,uploads,total_delete found',load]
      omega
    · rw [garbage] at member
      rcases mem_garbage member with before | is
      · exact .inl ⟨g,before,rfl⟩
      · refine .inr ⟨.inr ⟨old,held,is.symm⟩,⟨fun b member same => ?_,fun x member same => ?_⟩⟩
        · obtain ⟨before,other⟩ := rows b member
          exact other (congrArg ownKey (fit.single b before old held (same.trans is)))
        · exact absurd (same.trans is) (fit.apart old held x (uploads ▸ member))

-- The first statement of `reconcile` notes keys and leaves every other row alone.
theorem noted_rows (rows : List UploadRow) (db : D1) (now : Nat) :
    Beside {db with garbage := (rows.foldl (fun db u => addGarbage db u.storageKey true now) db).garbage}
      (rows.foldl (fun db u => addGarbage db u.storageKey true now) db) ∧
    ∀ g ∈ (rows.foldl (fun db u => addGarbage db u.storageKey true now) db).garbage.rows,
      g ∈ db.garbage.rows ∨ ∃ u ∈ rows, g.storageKey = u.storageKey := by
  induction rows generalizing db with
  | nil => exact ⟨⟨rfl,rfl,rfl,fun _ => rfl⟩,fun g member => .inl member⟩
  | cons u rest ih =>
      obtain ⟨⟨blobs,uploads,_,accounts⟩,garbage⟩ := ih (addGarbage db u.storageKey true now)
      refine ⟨⟨blobs,uploads,rfl,accounts⟩,fun g member => ?_⟩
      rcases garbage g member with old | ⟨x,inside,is⟩
      · exact (mem_garbage old).imp_right (fun is => ⟨u,List.mem_cons_self,is⟩)
      · exact .inr ⟨x,List.mem_cons_of_mem _ inside,is⟩

theorem noted_fit (rows : List UploadRow) (fit : Fit quota db) (now : Nat) :
    Fit quota (rows.foldl (fun db u => addGarbage db u.storageKey true now) db) := by
  induction rows generalizing db with
  | nil => exact fit
  | cons u rest ih => exact ih (garbage_fit fit u.storageKey true now)

theorem dropped_fit (rows : List UploadRow) (fit : Fit quota db)
    (done : rows.foldlM (fun db u => deleteUpload db u.storageKey) db = .ok db') :
    Fit quota db' ∧ db'.blobs = db.blobs ∧ db'.garbage = db.garbage ∧ ∀ u ∈ db'.uploads.rows, u ∈ db.uploads.rows := by
  induction rows generalizing db with
  | nil =>
      cases done
      exact ⟨fit,rfl,rfl,fun _ member => member⟩
  | cons u rest ih =>
      obtain ⟨mid,first,more⟩ := bind_done done
      have released := delete_upload_done fit.balanced first
      obtain ⟨fit',blobs,garbage,uploads⟩ := ih (release_fit fit first none none 0 0).1 more
      exact ⟨fit',blobs.trans released.beside.blobs,garbage.trans released.beside.garbage,
        fun x member => (released_rows released (uploads x member)).1⟩

theorem expired_due {rank : String → Nat} {u : UploadRow} (inside : u ∈ expiredUploads rank now db) : u ∈ db.uploads.rows ∧ u.expiresAt ≤ now := by
  obtain ⟨member,due⟩ := List.mem_filter.mp inside
  exact ⟨member,of_decide_eq_true (Bool.and_eq_true_iff.mp due).1⟩

theorem collect_fit {rank rank' : String → Nat} (fit : Fit quota db) (order : now ≤ later)
    (done : collect db rank rank' now later = .ok (db',returned)) (drawn published : Option String) : Fit quota db' ∧ Change db db' drawn published now later := by
  obtain ⟨last,dropping,is⟩ := bind_done done
  cases is
  obtain ⟨⟨midBlobs,midUploads,_,_⟩,noted⟩ := noted_rows (expiredUploads rank now db) db now
  obtain ⟨fit',blobs,garbage,uploads⟩ := dropped_fit _ (noted_fit (expiredUploads rank now db) fit now) dropping
  have newBlobs : db'.blobs = db.blobs := blobs.trans midBlobs
  have kept : ∀ u ∈ db'.uploads.rows, u ∈ db.uploads.rows := fun u member => midUploads ▸ uploads u member
  refine ⟨fit',⟨fun u member => .inl (kept u member),fun b member => .inl (newBlobs ▸ member),fun g member => ?_⟩⟩
  rw [garbage] at member
  rcases noted g member with old | ⟨u,picked,is⟩
  · exact .inl ⟨g,old,rfl⟩
  · obtain ⟨inside,due⟩ := expired_due picked
    refine .inr ⟨.inl ⟨u,inside,is.symm⟩,⟨fun b member same => ?_,fun x member same => ?_⟩⟩
    · exact fit.apart b (newBlobs ▸ member) u inside (is.symm.trans same.symm)
    · have one : db.uploads.find u.storageKey = some x := mem_find (kept x member) (same.trans is)
      rw [show db.uploads.find u.storageKey = some u from mem_iff_find.mp inside] at one
      cases one
      exact Nat.le_trans due order

theorem settle_fit (fit : Fit quota db) (row : GarbageRow) (drawn published : Option String) :
    Fit quota (settle db row now) ∧ Change db (settle db row now) drawn published now now := by
  unfold settle
  split
  · refine ⟨⟨⟨fit.balanced.blobBytes,fit.balanced.reservedBytes,fit.balanced.blobSize,fit.balanced.uploadSize⟩,fit.within,fit.blobOwner,
      fit.uploadOwner,fit.single,fit.apart⟩,⟨fun _ member => .inl member,fun _ member => .inl member,fun g member => ?_⟩⟩
    obtain ⟨h,inside,is⟩ := List.mem_map.mp member
    refine .inl ⟨h,inside,?_⟩
    rw [← is]
    split <;> rfl
  · refine ⟨⟨⟨fit.balanced.blobBytes,fit.balanced.reservedBytes,fit.balanced.blobSize,fit.balanced.uploadSize⟩,fit.within,fit.blobOwner,
      fit.uploadOwner,fit.single,fit.apart⟩,⟨fun _ member => .inl member,fun _ member => .inl member,fun g member => ?_⟩⟩
    exact .inl ⟨g,(mem_delete.mp member).1,rfl⟩

-- An account opens with nothing on it: rows are only there for accounts that are.
theorem unowned_total {κ ρ : Type} {key : ρ → κ} {t : Table κ ρ key} {f : ρ → Int} (none : ∀ r ∈ t.rows, f r = 0) : t.total f = 0 := by
  apply List.sum_eq_zero
  intro x inside
  obtain ⟨r,member,rfl⟩ := List.mem_map.mp inside
  exact none r member

theorem opened_fit {accounts : Table String AccountRow (·.id)} (fit : Fit quota db) (inserted : db.accounts.insert ⟨accountId,0,0⟩ = some accounts) :
    Fit quota {db with accounts := accounts} := by
  obtain ⟨fresh,rfl⟩ := insert_cases inserted
  have blobs : db.blobs.total (blobShare accountId) = 0 := by
    refine unowned_total (fun b inside => if_neg (fun own => ?_))
    have owned := fit.blobOwner b inside
    rw [own,fresh] at owned
    cases owned
  have uploads : db.uploads.total (uploadShare accountId) = 0 := by
    refine unowned_total (fun u inside => if_neg (fun own => ?_))
    have owned := fit.uploadOwner u inside
    rw [own,fresh] at owned
    cases owned
  have kept : ∀ id, (db.accounts.find id).isSome → ((db.accounts.upsert ⟨accountId,0,0⟩).find id).isSome := by
    intro id present
    rw [find_upsert]
    split
    · rfl
    · exact present
  refine ⟨⟨fun a inside => ?_,fun a inside => ?_,fit.balanced.blobSize,fit.balanced.uploadSize⟩,fun id present => ?_,
    fun b inside => kept _ (fit.blobOwner b inside),fun u inside => kept _ (fit.uploadOwner u inside),fit.single,fit.apart⟩
  · rcases mem_upsert.mp inside with rfl | ⟨old,_⟩
    · exact blobs.symm
    · exact fit.balanced.blobBytes a old
  · rcases mem_upsert.mp inside with rfl | ⟨old,_⟩
    · exact uploads.symm
    · exact fit.balanced.reservedBytes a old
  · show load db id ≤ quota
    rw [find_upsert] at present
    split at present
    · rename_i same
      rw [← same,load,blobs,uploads]
      omega
    · exact fit.within id present

-- No batch meets a counter that would go below zero.
theorem reserve_passes {size : Int} (fit : Fit quota db) (nonneg : 0 ≤ size) :
    reserve db storageKey accountId blobId size quota now ≠ .error .check := by
  unfold reserve
  split
  · intro failed
    cases failed
  · split
    · intro failed
      rcases bind_failed failed with inserting | ⟨_,_,is⟩
      · exact insert_upload_passes fit.balanced (by exact nonneg) inserting
      · cases is
    · intro failed
      cases failed

theorem drop_passes (balanced : Balanced db) (storageKey : String) : dropPublished db storageKey ≠ .error .check := by
  unfold dropPublished
  split
  · exact delete_upload_passes balanced storageKey
  · intro failed
    cases failed

theorem publish_passes (fit : Fit quota db) (storageKey : String) (now : Nat) : publish db storageKey now ≠ .error .check := by
  intro failed
  rcases bind_failed failed with first | ⟨⟨mid,published⟩,first,rest⟩
  · unfold publishUpload at first
    split at first
    · cases first
    · rename_i u found
      split at first
      · rcases bind_failed first with upserting | ⟨_,_,is⟩
        · exact upsert_blob_passes now fit.balanced (fit.balanced.uploadSize u (find_mem found)) upserting
        · cases is
      · cases first
  · have balanced : Balanced mid := by
      unfold publishUpload at first
      split at first
      · cases first
        exact fit.balanced
      · split at first
        · obtain ⟨wrote,upserting,is⟩ := bind_done first
          cases is
          exact (upsert_blob_done fit.balanced upserting).balanced
        · cases first
          exact fit.balanced
    rcases bind_failed rest with second | ⟨_,_,is⟩
    · exact drop_passes balanced storageKey second
    · cases is

theorem cancel_passes (fit : Fit quota db) (storageKey : String) (now : Nat) : cancel db storageKey now ≠ .error .check := by
  intro failed
  rcases bind_failed failed with releasing | ⟨_,_,is⟩
  · split at releasing
    · exact delete_upload_passes fit.balanced storageKey releasing
    · rename_i u _
      exact delete_upload_passes (garbage_fit fit u.storageKey true now).balanced storageKey releasing
  · cases is

theorem dropped_passes (rows : List UploadRow) (fit : Fit quota db) :
    rows.foldlM (fun db u => deleteUpload db u.storageKey) db ≠ .error .check := by
  induction rows generalizing db with
  | nil =>
      intro failed
      cases failed
  | cons u rest ih =>
      intro failed
      rcases bind_failed failed with first | ⟨mid,first,more⟩
      · exact delete_upload_passes fit.balanced u.storageKey first
      · exact ih (release_fit fit first none none 0 0).1 more

theorem collect_passes (fit : Fit quota db) (rank rank' : String → Nat) (now later : Nat) : collect db rank rank' now later ≠ .error .check := by
  intro failed
  rcases bind_failed failed with dropping | ⟨_,_,is⟩
  · exact dropped_passes _ (noted_fit _ fit now) dropping
  · cases is

end ZkNote.BlobAccounting
