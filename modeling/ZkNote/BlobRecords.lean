import ZkNote.BlobAccounting

namespace ZkNote.BlobRecords
open Fallible KeyedTable WorkerBlobs BlobBooks BlobAccounting

variable {db db' mid : D1} {quota : Nat} {storageKey accountId blobId : String} {now later : Nat} {returned : Bool} {key : String}

def Uploading (db : D1) (key : String) : Prop := ∃ u ∈ db.uploads.rows, u.storageKey = key
def Stored (db : D1) (key : String) : Prop := ∃ b ∈ db.blobs.rows, b.storageKey = key
def Noted (db : D1) (key : String) (retryForever : Bool) : Prop := ∃ g ∈ db.garbage.rows, g.storageKey = key ∧ g.retryForever = retryForever

def Recorded (db : D1) (key : String) : Prop := Uploading db key ∨ Stored db key ∨ ∃ g ∈ db.garbage.rows, g.storageKey = key

-- A record that stays as long as the key is not published, and one of a key that was.
def Open (db : D1) (key : String) : Prop := Uploading db key ∨ Noted db key true
def Published (db : D1) (key : String) : Prop := Stored db key ∨ Noted db key false
def Apart (db : D1) : Prop := ∀ key, Published db key → ¬Uploading db key

theorem recorded_open (record : Open db key) : Recorded db key := by
  rcases record with uploading | ⟨g,inside,own,_⟩
  · exact .inl uploading
  · exact .inr (.inr ⟨g,inside,own⟩)

-- What a call does to the records; `published` and `released` are the keys that may change hands.
structure Filing (db db' : D1) (published released : Option String) : Prop where
  recorded : ∀ key, Recorded db key → Recorded db' key ∨ released = some key
  opened : ∀ key, Open db key → Open db' key ∨ published = some key ∨ released = some key
  published : ∀ key, Published db' key → Published db key ∨ published = some key ∧ Stored db' key

theorem filing_refl (db : D1) (published released : Option String) : Filing db db published released :=
  ⟨fun _ is => .inl is,fun _ is => .inl is,fun _ is => .inl is⟩

theorem filing_trans {published released : Option String} (first : Filing db mid published released) (second : Filing mid db' published released)
    (kept : ∀ key, Stored mid key → Stored db' key) : Filing db db' published released := by
  refine ⟨fun key is => ?_,fun key is => ?_,fun key is => ?_⟩
  · rcases first.recorded key is with more | gone
    · exact second.recorded key more
    · exact .inr gone
  · rcases first.opened key is with more | gone
    · exact second.opened key more
    · exact .inr gone
  · rcases second.published key is with more | new
    · exact (first.published key more).imp_right (fun new => ⟨new.1,kept key new.2⟩)
    · exact .inr new

theorem added_keeps {g : GarbageRow} {retryForever : Bool} (inside : g ∈ db.garbage.rows) :
    g ∈ (addGarbage db storageKey retryForever now).garbage.rows := by
  unfold addGarbage
  cases inserted : db.garbage.insert ⟨storageKey,retryForever,now⟩ with
  | none => exact inside
  | some garbage =>
      obtain ⟨fresh,rfl⟩ := insert_cases inserted
      refine mem_upsert.mpr (.inr ⟨inside,fun same => ?_⟩)
      rw [mem_find inside same] at fresh
      cases fresh

theorem added_noted (db : D1) (storageKey : String) (retryForever : Bool) (now : Nat) :
    ∃ g ∈ (addGarbage db storageKey retryForever now).garbage.rows, g.storageKey = storageKey ∧ (g ∈ db.garbage.rows ∨ g.retryForever = retryForever) := by
  cases found : db.garbage.find storageKey with
  | some g => exact ⟨g,added_keeps (find_mem found),find_key found,.inl (find_mem found)⟩
  | none =>
      refine ⟨⟨storageKey,retryForever,now⟩,?_,rfl,.inr rfl⟩
      unfold addGarbage
      rw [insert_fresh found]
      exact mem_upsert.mpr (.inl rfl)

-- A note for an upload that stays in its table for now.
theorem note_filing (apart : Apart db) (uploading : Uploading db storageKey) (now : Nat) (published released : Option String) :
    Filing db (addGarbage db storageKey true now) published released ∧ Noted (addGarbage db storageKey true now) storageKey true := by
  refine ⟨⟨fun key is => .inl ?_,fun key is => .inl ?_,fun key is => .inl ?_⟩,?_⟩
  · exact is.imp_right (Or.imp_right (fun ⟨g,inside,own⟩ => ⟨g,added_keeps inside,own⟩))
  · exact is.imp_right (fun ⟨g,inside,own⟩ => ⟨g,added_keeps inside,own⟩)
  · rcases is with stored | ⟨g,inside,own,kind⟩
    · exact .inl stored
    · rcases added_row inside with old | rfl
      · exact .inr ⟨g,old,own,kind⟩
      · cases kind
  · obtain ⟨g,inside,own,old | kind⟩ := added_noted db storageKey true now
    · cases kind : g.retryForever with
      | true => exact ⟨g,inside,own,kind⟩
      | false => exact absurd uploading (apart storageKey (.inr ⟨g,old,own,kind⟩))
    · exact ⟨g,inside,own,kind⟩

-- A release of an upload that is noted.
theorem release_filing (released : Released db db' storageKey) (noted : Uploading db storageKey → Noted db storageKey true) (published left : Option String) :
    Filing db db' published left := by
  have uploads : db'.uploads = db.uploads.delete (fun u => u.storageKey = storageKey) := released.beside.uploads
  have blobs : db'.blobs = db.blobs := released.beside.blobs
  have garbage : db'.garbage = db.garbage := released.beside.garbage
  have opened : ∀ key, Open db key → Open db' key := by
    intro key is
    rw [Open,Noted,garbage]
    rcases is with ⟨u,inside,own⟩ | note
    · by_cases same : u.storageKey = storageKey
      · exact .inr (own ▸ same ▸ noted ⟨u,inside,same⟩)
      · refine .inl ⟨u,?_,own⟩
        rw [uploads]
        exact mem_delete.mpr ⟨inside,decide_eq_false same⟩
    · exact .inr note
  refine ⟨fun key is => .inl ?_,fun key is => .inl (opened key is),fun key is => .inl ?_⟩
  · rcases is with uploading | stored | note
    · exact recorded_open (opened key (.inl uploading))
    · exact .inr (.inl (by rwa [Stored,blobs]))
    · exact .inr (.inr (by rwa [garbage]))
  · rwa [Published,Stored,Noted,blobs,garbage] at is

theorem cancel_filing (fit : Fit quota db) (apart : Apart db) (done : cancel db storageKey now = .ok (db',returned)) (published released : Option String) :
    Filing db db' published released := by
  obtain ⟨last,releasing,is⟩ := bind_done done
  cases is
  cases found : db.uploads.find storageKey with
  | none =>
      rw [found] at releasing
      refine release_filing (delete_upload_done fit.balanced releasing) (fun uploading => ?_) published released
      obtain ⟨u,inside,own⟩ := uploading
      rw [mem_find inside own] at found
      cases found
  | some u =>
      rw [found] at releasing
      have own : u.storageKey = storageKey := find_key found
      replace releasing : deleteUpload (addGarbage db storageKey true now) storageKey = .ok db' := own ▸ releasing
      obtain ⟨filing,noted⟩ := note_filing apart ⟨u,find_mem found,own⟩ now published released
      have second : Filing _ db' published released :=
        release_filing (delete_upload_done (garbage_fit fit storageKey true now).balanced releasing) (fun _ => noted) published released
      have blobs : db'.blobs = db.blobs := (delete_upload_done (garbage_fit fit storageKey true now).balanced releasing).beside.blobs
      exact filing_trans filing second (fun key stored => by rwa [Stored,blobs])

theorem reserve_filing {size : Int} (fit : Fit quota db) (done : reserve db storageKey accountId blobId size quota now = .ok (db',returned))
    (published released : Option String) : Filing db db' published released ∧ (returned = true → Uploading db' storageKey) := by
  unfold reserve at done
  split at done
  · cases done
    exact ⟨filing_refl db _ _,fun is => by cases is⟩
  · split at done
    · obtain ⟨mid,inserted,is⟩ := bind_done done
      cases is
      obtain ⟨_,fresh,beside⟩ := insert_upload_done fit.balanced inserted
      have uploads : db'.uploads = db.uploads.upsert ⟨storageKey,accountId,blobId,size,now + uploadLifetime⟩ := beside.uploads
      have blobs : db'.blobs = db.blobs := beside.blobs
      have garbage : db'.garbage = db.garbage := beside.garbage
      have uploading : ∀ key, Uploading db key → Uploading db' key := by
        rintro key ⟨u,inside,own⟩
        refine ⟨u,?_,own⟩
        rw [uploads]
        refine mem_upsert.mpr (.inr ⟨inside,fun same => ?_⟩)
        rw [show db.uploads.find storageKey = some u from mem_find inside same] at fresh
        cases fresh
      refine ⟨⟨fun key is => .inl ?_,fun key is => .inl ?_,fun key is => .inl ?_⟩,fun _ => ?_⟩
      · rw [Recorded,Stored,blobs,garbage]
        exact is.imp_left (uploading key)
      · rw [Open,Noted,garbage]
        exact is.imp_left (uploading key)
      · rwa [Published,Stored,Noted,blobs,garbage] at is
      · refine ⟨⟨storageKey,accountId,blobId,size,now + uploadLifetime⟩,?_,rfl⟩
        rw [uploads]
        exact mem_upsert.mpr (.inl rfl)
    · cases done
      exact ⟨filing_refl db _ _,fun is => by cases is⟩

-- A blob goes in under the key of an upload; the one it replaces is noted.
theorem upsert_filing {new : BlobRow} (upserted : Upserted db mid new now) (released : Option String) :
    Filing db mid (some new.storageKey) released := by
  obtain ⟨_,⟨garbage,source,beside⟩,_⟩ := upserted
  have blobs : mid.blobs = db.blobs.upsert new := beside.blobs
  have uploads : mid.uploads = db.uploads := beside.uploads
  have collected : mid.garbage = garbage := beside.garbage
  have keeps : ∀ g ∈ db.garbage.rows, g ∈ mid.garbage.rows := by
    intro g inside
    rw [collected]
    rcases source with ⟨rfl,_⟩ | ⟨old,_,rfl⟩
    · exact inside
    · exact added_keeps inside
  refine ⟨fun key is => .inl ?_,fun key is => .inl ?_,fun key is => ?_⟩
  · rcases is with uploading | ⟨b,inside,own⟩ | ⟨g,inside,own⟩
    · exact .inl (by rwa [Uploading,uploads])
    · by_cases same : ownKey b = ownKey new
      · have replaced : db.blobs.find (ownKey new) = some b := mem_find inside same
        rcases source with ⟨_,fresh⟩ | ⟨old,found,rfl⟩
        · rw [fresh] at replaced
          cases replaced
        · have is : old = b := Option.some.inj (found.symm.trans replaced)
          obtain ⟨g,noted,key,_⟩ := added_noted db old.storageKey false now
          exact .inr (.inr ⟨g,collected ▸ noted,(key.trans (congrArg BlobRow.storageKey is)).trans own⟩)
      · refine .inr (.inl ⟨b,?_,own⟩)
        rw [blobs]
        exact mem_upsert.mpr (.inr ⟨inside,same⟩)
    · exact .inr (.inr ⟨g,keeps g inside,own⟩)
  · rcases is with uploading | ⟨g,inside,own⟩
    · exact .inl (by rwa [Uploading,uploads])
    · exact .inr ⟨g,keeps g inside,own⟩
  · rcases is with ⟨b,inside,own⟩ | ⟨g,inside,own,kind⟩
    · rcases mem_upsert.mp (blobs ▸ inside) with rfl | ⟨old,_⟩
      · exact .inr ⟨congrArg some own,⟨b,inside,own⟩⟩
      · exact .inl (.inl ⟨b,old,own⟩)
    · rw [collected] at inside
      rcases source with ⟨rfl,_⟩ | ⟨old,found,rfl⟩
      · exact .inl (.inr ⟨g,inside,own,kind⟩)
      · rcases added_row inside with before | rfl
        · exact .inl (.inr ⟨g,before,own,kind⟩)
        · exact .inl (.inl ⟨old,find_mem found,own⟩)

theorem drop_filing (balanced : Balanced db) (done : dropPublished db storageKey = .ok db') (released : Option String) :
    Filing db db' (some storageKey) released ∧ db'.blobs = db.blobs := by
  unfold dropPublished at done
  split at done
  · rename_i present
    obtain ⟨b,inside,own⟩ := List.any_eq_true.mp present
    have dropped := delete_upload_done balanced done
    have uploads : db'.uploads = db.uploads.delete (fun u => u.storageKey = storageKey) := dropped.beside.uploads
    have blobs : db'.blobs = db.blobs := dropped.beside.blobs
    have garbage : db'.garbage = db.garbage := dropped.beside.garbage
    have uploading : ∀ key, Uploading db key → Uploading db' key ∨ key = storageKey := by
      rintro key ⟨u,member,is⟩
      by_cases same : u.storageKey = storageKey
      · exact .inr (is.symm.trans same)
      · refine .inl ⟨u,?_,is⟩
        rw [uploads]
        exact mem_delete.mpr ⟨member,decide_eq_false same⟩
    refine ⟨⟨fun key is => .inl ?_,fun key is => ?_,fun key is => .inl ?_⟩,blobs⟩
    · rw [Recorded,Stored,blobs,garbage]
      rcases is with old | rest
      · rcases uploading key old with more | rfl
        · exact .inl more
        · exact .inr (.inl ⟨b,inside,of_decide_eq_true own⟩)
      · exact .inr rest
    · rw [Open,Noted,garbage]
      rcases is with old | note
      · rcases uploading key old with more | rfl
        · exact .inl (.inl more)
        · exact .inr (.inl rfl)
      · exact .inl (.inr note)
    · rwa [Published,Stored,Noted,blobs,garbage] at is
  · cases done
    exact ⟨filing_refl db _ _,rfl⟩

theorem publish_filing (fit : Fit quota db) (done : publish db storageKey now = .ok (db',returned)) (released : Option String) :
    Filing db db' (some storageKey) released := by
  obtain ⟨⟨mid,published⟩,first,rest⟩ := bind_done done
  obtain ⟨last,second,is⟩ := bind_done rest
  cases is
  unfold publishUpload at first
  split at first
  · cases first
    exact (drop_filing fit.balanced second released).1
  · rename_i u found
    split at first
    · obtain ⟨wrote,upserting,is⟩ := bind_done first
      cases is
      have upserted := upsert_blob_done fit.balanced upserting
      have own : u.storageKey = storageKey := find_key found
      have filing : Filing db mid (some storageKey) released := own ▸ upsert_filing upserted released
      obtain ⟨dropping,blobs⟩ := drop_filing upserted.balanced second released
      exact filing_trans filing dropping (fun key stored => by rwa [Stored,blobs])
    · cases first
      exact (drop_filing fit.balanced second released).1

theorem delete_filing (fit : Fit quota db) (done : deleteBlob db accountId blobId now = .ok (db',returned)) (published released : Option String) :
    Filing db db' published released := by
  rcases delete_blob_done fit.balanced done with rfl | ⟨old,found,_,beside⟩
  · exact filing_refl db' _ _
  · have blobs : db'.blobs = db.blobs.delete (fun b => decide ((b.accountId,b.blobId) = ownKey old)) := beside.blobs
    have uploads : db'.uploads = db.uploads := beside.uploads
    have garbage : db'.garbage = (addGarbage db old.storageKey false now).garbage := beside.garbage
    refine ⟨fun key is => .inl ?_,fun key is => .inl ?_,fun key is => .inl ?_⟩
    · rcases is with uploading | ⟨b,inside,own⟩ | ⟨g,inside,own⟩
      · exact .inl (by rwa [Uploading,uploads])
      · by_cases same : ownKey b = ownKey old
        · have is : some b = some old := (mem_find inside same).symm.trans (mem_iff_find.mp (find_mem found))
          obtain ⟨g,noted,key,_⟩ := added_noted db old.storageKey false now
          exact .inr (.inr ⟨g,garbage ▸ noted,(key.trans (congrArg BlobRow.storageKey (Option.some.inj is).symm)).trans own⟩)
        · refine .inr (.inl ⟨b,?_,own⟩)
          rw [blobs]
          exact mem_delete.mpr ⟨inside,decide_eq_false same⟩
      · exact .inr (.inr ⟨g,garbage ▸ added_keeps inside,own⟩)
    · rcases is with uploading | ⟨g,inside,own⟩
      · exact .inl (by rwa [Uploading,uploads])
      · exact .inr ⟨g,garbage ▸ added_keeps inside,own⟩
    · rcases is with ⟨b,inside,own⟩ | ⟨g,inside,own,kind⟩
      · rw [blobs] at inside
        exact .inl ⟨b,(mem_delete.mp inside).1,own⟩
      · rw [garbage] at inside
        rcases added_row inside with before | rfl
        · exact .inr ⟨g,before,own,kind⟩
        · exact .inl ⟨old,find_mem found,own⟩

-- Of the rows of a settled key only one that is not kept for retries goes.
theorem settle_filing (db : D1) (row : GarbageRow) (now : Nat) (published : Option String) :
    Filing db (settle db row now) published (if row.retryForever then none else some row.storageKey) := by
  unfold settle
  cases row.retryForever with
  | true =>
      rw [if_pos rfl,if_pos rfl]
      let change : GarbageRow → GarbageRow := fun g => if g.storageKey = row.storageKey then {g with nextAttempt := now + retryInterval} else g
      have same : ∀ g, (change g).storageKey = g.storageKey ∧ (change g).retryForever = g.retryForever := by
        intro g
        dsimp only [change]
        split <;> exact ⟨rfl,rfl⟩
      have notes : ∀ g ∈ db.garbage.rows, change g ∈ (db.garbage.update (fun g => g.storageKey = row.storageKey)
          (fun g => {g with nextAttempt := now + retryInterval}) (fun _ => rfl)).rows := by
        intro g inside
        refine mem_update.mpr ⟨g,inside,?_⟩
        simp only [change,decide_eq_true_eq]
      refine ⟨fun key is => .inl ?_,fun key is => .inl ?_,fun key is => .inl ?_⟩
      · exact is.imp_right (Or.imp_right (fun ⟨g,inside,own⟩ => ⟨change g,notes g inside,(same g).1.trans own⟩))
      · exact is.imp_right (fun ⟨g,inside,own,kind⟩ => ⟨change g,notes g inside,(same g).1.trans own,(same g).2.trans kind⟩)
      · refine is.imp_right (fun ⟨g,inside,own,kind⟩ => ?_)
        obtain ⟨old,before,is⟩ := List.mem_map.mp inside
        have both : g.storageKey = old.storageKey ∧ g.retryForever = old.retryForever := by
          rw [← is]
          split <;> exact ⟨rfl,rfl⟩
        exact ⟨old,before,both.1.symm.trans own,both.2.symm.trans kind⟩
  | false =>
      rw [if_neg (by decide),if_neg (by decide)]
      have stays : ∀ g ∈ db.garbage.rows, g.storageKey ≠ row.storageKey → g ∈ (db.garbage.delete (fun g => g.storageKey = row.storageKey)).rows :=
        fun g inside other => mem_delete.mpr ⟨inside,decide_eq_false other⟩
      refine ⟨fun key is => ?_,fun key is => ?_,fun key is => .inl ?_⟩
      · rcases is with uploading | stored | ⟨g,inside,own⟩
        · exact .inl (.inl uploading)
        · exact .inl (.inr (.inl stored))
        · by_cases gone : row.storageKey = key
          · exact .inr (congrArg some gone)
          · exact .inl (.inr (.inr ⟨g,stays g inside (fun same => gone (same.symm.trans own)),own⟩))
      · rcases is with uploading | ⟨g,inside,own,kind⟩
        · exact .inl (.inl uploading)
        · by_cases gone : row.storageKey = key
          · exact .inr (.inr (congrArg some gone))
          · exact .inl (.inr ⟨g,stays g inside (fun same => gone (same.symm.trans own)),own,kind⟩)
      · exact is.imp_right (fun ⟨g,inside,own,kind⟩ => ⟨g,(mem_delete.mp inside).1,own,kind⟩)

theorem notes_keep (rows : List UploadRow) {g : GarbageRow} (inside : g ∈ db.garbage.rows) :
    g ∈ (rows.foldl (fun db u => addGarbage db u.storageKey true now) db).garbage.rows := by
  induction rows generalizing db with
  | nil => exact inside
  | cons u rest ih => exact ih (added_keeps inside)

theorem noted_filing (rows : List UploadRow) (apart : Apart db) (uploading : ∀ u ∈ rows, u ∈ db.uploads.rows) (now : Nat) (released : Option String) :
    Filing db (rows.foldl (fun db u => addGarbage db u.storageKey true now) db) none released ∧
      ∀ u ∈ rows, Noted (rows.foldl (fun db u => addGarbage db u.storageKey true now) db) u.storageKey true := by
  induction rows generalizing db with
  | nil => exact ⟨filing_refl db _ _,fun u inside => by cases inside⟩
  | cons u rest ih =>
      obtain ⟨first,g,noted,own,kind⟩ := note_filing apart ⟨u,uploading u List.mem_cons_self,rfl⟩ now none released
      have apart' : Apart (addGarbage db u.storageKey true now) := by
        intro key published
        rcases first.published key published with old | ⟨new,_⟩
        · exact apart key old
        · cases new
      obtain ⟨more,others⟩ := ih apart' (fun x inside => uploading x (List.mem_cons_of_mem _ inside))
      have blobs : (rest.foldl (fun db u => addGarbage db u.storageKey true now) (addGarbage db u.storageKey true now)).blobs = db.blobs :=
        (noted_rows rest (addGarbage db u.storageKey true now) now).1.blobs
      refine ⟨filing_trans first more (fun key stored => ?_),fun x inside => ?_⟩
      · rw [Stored,List.foldl_cons,blobs]
        exact stored
      · rcases List.mem_cons.mp inside with rfl | later
        · exact ⟨g,notes_keep rest noted,own,kind⟩
        · exact others x later

theorem dropped_filing (rows : List UploadRow) (fit : Fit quota db) (noted : ∀ u ∈ rows, Noted db u.storageKey true)
    (done : rows.foldlM (fun db u => deleteUpload db u.storageKey) db = .ok db') (published released : Option String) :
    Filing db db' published released := by
  induction rows generalizing db with
  | nil =>
      cases done
      exact filing_refl _ _ _
  | cons u rest ih =>
      obtain ⟨mid,first,more⟩ := bind_done done
      have dropped := delete_upload_done fit.balanced first
      have fit' := (release_fit fit first none none 0 0).1
      have filing := release_filing dropped (fun _ => noted u List.mem_cons_self) published released
      have garbage := dropped.beside.garbage
      have blobs : db'.blobs = mid.blobs := (dropped_fit rest fit' more).2.1
      refine filing_trans filing (ih fit' (fun x inside => ?_) more) (fun key stored => by rwa [Stored,blobs])
      rw [Noted,garbage]
      exact noted x (List.mem_cons_of_mem _ inside)

-- The uploads that come before one in the order of a statement.
def ahead (rank : String → Nat) (db : D1) (u : UploadRow) : List UploadRow :=
  db.uploads.rows.filter (fun x => before (·.expiresAt) (·.storageKey) rank x u)

-- What makes the two statements of a reconcile batch pick the same uploads: none
-- expires between their readings of the clock unless eight had before, and ties
-- that the limit cuts fall alike.
structure Steady (rank rank' : String → Nat) (now later : Nat) (db : D1) : Prop where
  expiring : ∀ u ∈ db.uploads.rows, now < u.expiresAt → u.expiresAt ≤ later → 8 ≤ (db.uploads.rows.filter (fun x => x.expiresAt ≤ now)).length
  ties : ∀ u ∈ db.uploads.rows, u.expiresAt ≤ now → (ahead rank' db u).length < 8 → (ahead rank db u).length < 8

theorem before_time {ρ : Type} {time : ρ → Nat} {name : ρ → String} {rank : String → Nat} {x y : ρ} (first : before time name rank x y = true) :
    time x ≤ time y := by
  rcases Bool.or_eq_true_iff.mp first with less | tie
  · exact Nat.le_of_lt (of_decide_eq_true less)
  · exact Nat.le_of_eq (of_decide_eq_true (Bool.and_eq_true_iff.mp tie).1)

theorem time_before {ρ : Type} {time : ρ → Nat} {name : ρ → String} {rank : String → Nat} {x y : ρ} (less : time x < time y) :
    before time name rank x y = true :=
  Bool.or_eq_true_iff.mpr (.inl (decide_eq_true less))

theorem steady_picks {rank rank' : String → Nat} {u : UploadRow} (steady : Steady rank rank' now later db)
    (picked : u ∈ expiredUploads rank' later db) : u ∈ expiredUploads rank now db := by
  obtain ⟨inside,due⟩ := List.mem_filter.mp picked
  obtain ⟨due,few⟩ := Bool.and_eq_true_iff.mp due
  have due : u.expiresAt ≤ later := of_decide_eq_true due
  have few := of_decide_eq_true few
  by_cases expired : u.expiresAt ≤ now
  · -- Whatever comes before it has expired at both readings.
    have earlier : ∀ (rank : String → Nat) (limit : Nat), u.expiresAt ≤ limit → db.uploads.rows.filter
        (fun x => decide (x.expiresAt ≤ limit) && before (·.expiresAt) (·.storageKey) rank x u) = ahead rank db u := by
      intro rank limit within
      refine List.filter_congr (fun x _ => ?_)
      cases first : before (·.expiresAt) (·.storageKey) rank x u with
      | false => exact Bool.and_false _
      | true =>
          have order := before_time first
          rw [Bool.and_true,decide_eq_true_eq]
          omega
    rw [earlier rank' later due] at few
    refine List.mem_filter.mpr ⟨inside,Bool.and_eq_true_iff.mpr ⟨decide_eq_true expired,decide_eq_true ?_⟩⟩
    rw [earlier rank now expired]
    exact steady.ties u inside expired few
  · -- Eight that had expired come before it, so that the second statement leaves it.
    exfalso
    have many := steady.expiring u inside (by omega) due
    have all : (db.uploads.rows.filter (fun x => x.expiresAt ≤ now)).length ≤ (db.uploads.rows.filter
        (fun x => decide (x.expiresAt ≤ later) && before (·.expiresAt) (·.storageKey) rank' x u)).length := by
      refine (List.monotone_filter_right _ (fun x old => ?_)).length_le
      have old : x.expiresAt ≤ now := of_decide_eq_true old
      have first : before (·.expiresAt) (·.storageKey) rank' x u = true := time_before (show x.expiresAt < u.expiresAt by omega)
      rw [first,Bool.and_true]
      exact decide_eq_true (by omega)
    exact Nat.not_lt.mpr (Nat.le_trans many all) few

theorem collect_filing {rank rank' : String → Nat} (fit : Fit quota db) (apart : Apart db)
    (steady : Steady rank rank' now later db) (done : collect db rank rank' now later = .ok (db',returned)) (released : Option String) :
    Filing db db' none released := by
  obtain ⟨last,dropping,is⟩ := bind_done done
  cases is
  obtain ⟨filing,notes⟩ := noted_filing (expiredUploads rank now db) apart (fun u inside => (expired_due inside).1) now released
  have beside := (noted_rows (expiredUploads rank now db) db now).1
  have fit' := noted_fit (expiredUploads rank now db) fit now
  have picks : expiredUploads rank' later ((expiredUploads rank now db).foldl (fun db u => addGarbage db u.storageKey true now) db) =
      expiredUploads rank' later db := by
    rw [expiredUploads,beside.uploads]
    rfl
  have second := dropped_filing _ fit' (fun u inside => notes u (steady_picks steady (picks ▸ inside))) dropping none released
  have blobs := (dropped_fit _ fit' dropping).2.1
  exact filing_trans filing second (fun key stored => by rwa [Stored,blobs])

end ZkNote.BlobRecords
