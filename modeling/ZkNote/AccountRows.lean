import ZkNote.AccountServer
import ZkNote.TableParts

namespace ZkNote.AccountRows
open Protocol KeyedTable ServerStore ServerBlobs SshAuth AccountServer

variable {a b : String} {crates : Crates} {ssh : SshCrates} {now : Nat}

-- The rows of one account.
def ownStore (account : String) (db : ServerDb) : ServerDb :=
  ⟨db.accounts.of (·.id) account,db.objects.of (·.accountId) account,db.history.of (·.accountId) account,
    db.sequences.of (·.accountId) account,db.processed.of (·.accountId) account⟩

-- Login challenges belong to no account, and nothing here reads them.
def ownAuth (account : String) (db : AuthDb) : AuthDb :=
  ⟨db.accounts.of (·.id) account,db.devices.of (·.accountId) account,db.sessions.of (·.accountId) account,
    db.credentials.of (·.accountId) account,db.challenges⟩

def ownBlobs (account : String) (blobs : BlobTable) : BlobTable := blobs.of (·.accountId) account

def ownRows (account : String) (s : Server) : Server :=
  ⟨ownAuth account s.toAuthDb,s.objects.of (·.accountId) account,s.history.of (·.accountId) account,s.sequences.of (·.accountId) account,
    s.processed.of (·.accountId) account,ownBlobs account s.blobs⟩

@[simp] theorem rows_store (s : Server) : (ownRows a s).store = ownStore a s.store := rfl
@[simp] theorem rows_auth (s : Server) : (ownRows a s).toAuthDb = ownAuth a s.toAuthDb := rfl
@[simp] theorem rows_blobs (s : Server) : (ownRows a s).blobs = ownBlobs a s.blobs := rfl

theorem rows_withStore (s : Server) (db : ServerDb) : ownRows a (s.withStore db) = (ownRows a s).withStore (ownStore a db) := rfl
theorem rows_withAuth (s : Server) (db : AuthDb) : ownRows a (s.withAuth db) = (ownRows a s).withAuth (ownAuth a db) := rfl
theorem rows_withBlobs (s : Server) (blobs : BlobTable) : ownRows a {s with blobs := blobs} = {ownRows a s with blobs := ownBlobs a blobs} := rfl

theorem same_store {s : Server} {db : ServerDb} (same : ownStore a db = ownStore a s.store) : ownRows a (s.withStore db) = ownRows a s := by
  rw [rows_withStore,same]
  rfl

theorem same_auth {s : Server} {db : AuthDb} (same : ownAuth a db = ownAuth a s.toAuthDb) : ownRows a (s.withAuth db) = ownRows a s := by
  rw [rows_withAuth,same]
  rfl

theorem same_blobs {s : Server} {blobs : BlobTable} (same : ownBlobs a blobs = ownBlobs a s.blobs) :
    ownRows a {s with blobs := blobs} = ownRows a s := by
  rw [rows_withBlobs,same]
  rfl

-- An account's object statements see and change its own rows only.
theorem ensure_own (db : ServerDb) : ServerStore.ensureAccount (ownStore a db) a = ownStore a (ServerStore.ensureAccount db a) := by
  have found : (ownStore a db).accounts.find a = db.accounts.find a := of_find (fun _ _ same => same)
  have added : (ownStore a db).accounts.upsert ⟨a,"active"⟩ = (db.accounts.upsert ⟨a,"active"⟩).of (·.id) a :=
    (of_upsert_own (fun _ _ same => same) rfl).symm
  unfold ServerStore.ensureAccount
  rw [found]
  cases db.accounts.find a with
  | some row => rfl
  | none =>
      simp only [added]
      rfl

theorem ensure_other (db : ServerDb) (different : b ≠ a) : ownStore a (ServerStore.ensureAccount db b) = ownStore a db := by
  unfold ServerStore.ensureAccount
  cases db.accounts.find b with
  | some row => rfl
  | none =>
      have kept : (db.accounts.upsert ⟨b,"active"⟩).of (·.id) a = db.accounts.of (·.id) a := of_upsert_other (fun _ _ same => same) different
      simp only [ownStore,kept]

theorem allocate_own (db : ServerDb) :
    allocateSequenceInTx (ownStore a db) a = ((allocateSequenceInTx db a).1,ownStore a (allocateSequenceInTx db a).2) := by
  unfold allocateSequenceInTx
  rw [ensure_own]
  generalize ServerStore.ensureAccount db a = db
  have found : (ownStore a db).sequences.find a = db.sequences.find a := of_find (fun _ _ same => same)
  have counted : ∀ row : SequenceRow, row.accountId = a → (ownStore a db).sequences.upsert row = (db.sequences.upsert row).of (·.accountId) a :=
    fun row own => (of_upsert_own (fun _ _ same => same) own).symm
  simp only [found]
  cases held : db.sequences.find a with
  | none =>
      simp only [counted ⟨a,1⟩ rfl]
      rfl
  | some row =>
      have own : row.accountId = a := find_key held
      simp only [counted ⟨row.accountId,row.currentSeq+1⟩ own]
      rfl

theorem allocate_other (db : ServerDb) (different : b ≠ a) : ownStore a (allocateSequenceInTx db b).2 = ownStore a db := by
  rw [← ensure_other db different]
  unfold allocateSequenceInTx
  generalize ServerStore.ensureAccount db b = db
  have kept : ∀ row : SequenceRow, row.accountId = b → (db.sequences.upsert row).of (·.accountId) a = db.sequences.of (·.accountId) a :=
    fun row theirs => of_upsert_other (fun _ _ same => same) (theirs ▸ different)
  cases held : db.sequences.find b with
  | none => simp only [held,ownStore,kept ⟨b,1⟩ rfl]
  | some row =>
      have theirs : row.accountId = b := find_key held
      simp only [held,ownStore,kept ⟨row.accountId,row.currentSeq+1⟩ theirs]

theorem write_own (db : ServerDb) (row : EncryptedObjectRow) (own : row.accountId = a) :
    writeObject (ownStore a db) row = (writeObject db row).map (ownStore a) := by
  have taken : (ownStore a db).objects.rows.any (fun r => r.accountId = row.accountId ∧ r.serverSeq = row.serverSeq ∧ r.objectId ≠ row.objectId) =
      db.objects.rows.any (fun r => r.accountId = row.accountId ∧ r.serverSeq = row.serverSeq ∧ r.objectId ≠ row.objectId) :=
    of_any (fun r _ hit => (of_decide_eq_true hit).1.trans own)
  have placed : (ownStore a db).objects.upsert row = (db.objects.upsert row).of (·.accountId) a :=
    (of_upsert_own (fun _ _ same => congrArg Prod.fst same) own).symm
  unfold writeObject
  rw [taken,placed]
  split <;> rfl

theorem write_other {db next : ServerDb} {row : EncryptedObjectRow} (theirs : row.accountId ≠ a) (written : writeObject db row = some next) :
    ownStore a next = ownStore a db := by
  have kept : (db.objects.upsert row).of (·.accountId) a = db.objects.of (·.accountId) a :=
    of_upsert_other (fun _ _ same => congrArg Prod.fst same) theirs
  rw [write_cases written]
  simp only [ownStore,kept]

def ownOutcome (account : String) (r : PushOutcome × ServerDb) : PushOutcome × ServerDb := (r.1,ownStore account r.2)

theorem accept_own (db : ServerDb) (o m : String) (request : PushRequest) (revision : Nat) :
    acceptInTx crates (ownStore a db) a o m request revision = (acceptInTx crates db a o m request revision).map (ownOutcome a) := by
  unfold acceptInTx
  rw [allocate_own]
  simp only
  rw [write_own (a := a) _ _ rfl]
  cases written : writeObject (allocateSequenceInTx db a).2 _ with
  | none => rfl
  | some full =>
      have filed : ∀ done : ProcessedMutationRow, done.accountId = a →
          (ownStore a full).processed.insert done = (full.processed.insert done).map (·.of (·.accountId) a) :=
        fun done own => of_insert_own (fun _ _ same => congrArg Prod.fst same) own
      simp only [Option.map_some]
      rw [filed _ rfl]
      cases full.processed.insert _ <;> rfl

theorem accept_other {db next : ServerDb} {o m : String} {request : PushRequest} {revision : Nat} {outcome : PushOutcome} (different : b ≠ a)
    (accepted : acceptInTx crates db b o m request revision = .ok (outcome,next)) : ownStore a next = ownStore a db := by
  obtain ⟨row,full,done,processed,home,_,written,theirs,filed,rfl⟩ := accept_cases accepted
  have kept : processed.of (·.accountId) a = full.processed.of (·.accountId) a :=
    of_insert_other (theirs ▸ different : done.accountId ≠ a) filed
  calc ownStore a {full with processed := processed}
      _ = ownStore a full := by simp only [ownStore,kept]
      _ = ownStore a (allocateSequenceInTx db b).2 := write_other (home ▸ different) written
      _ = ownStore a db := allocate_other db different

theorem tx_own (db : ServerDb) (request : PushRequest) :
    pushMutationInTx crates (ownStore a db) a request = (pushMutationInTx crates db a request).map (ownOutcome a) := by
  have processed : ∀ m, (ownStore a db).processed.find (a,m) = db.processed.find (a,m) := fun _ => of_find (fun _ _ same => congrArg Prod.fst same)
  have objects : ∀ o, (ownStore a db).objects.find (a,o) = db.objects.find (a,o) := fun _ => of_find (fun _ _ same => congrArg Prod.fst same)
  unfold pushMutationInTx
  cases crates.parseUuid request.objectId with
  | error e => rfl
  | ok o =>
      cases crates.parseUuid request.mutationId with
      | error e => rfl
      | ok m =>
          simp only [processed,objects]
          cases db.processed.find (a,m) with
          | some row => rfl
          | none =>
              cases found : db.objects.find (a,o) with
              | none =>
                  simp only
                  split
                  · rfl
                  · exact accept_own db o m request 1
              | some current =>
                  have own : current.accountId = a := congrArg Prod.fst (find_key found)
                  have filed : (ownStore a db).history.insert (historyOf current) =
                      (db.history.insert (historyOf current)).map (·.of (·.accountId) a) :=
                    of_insert_own (fun _ _ same => congrArg Prod.fst same) own
                  simp only
                  split
                  · rfl
                  · rw [filed]
                    cases db.history.insert (historyOf current) with
                    | none => rfl
                    | some history => exact accept_own {db with history := history} o m request (current.revision+1)

theorem tx_other {db next : ServerDb} {request : PushRequest} {outcome : PushOutcome} (different : b ≠ a)
    (ran : pushMutationInTx crates db b request = .ok (outcome,next)) : ownStore a next = ownStore a db := by
  rcases tx_cases ran with rfl | ⟨o,m,revision,history,_,archived,accepted⟩
  · rfl
  have kept : history.of (·.accountId) a = db.history.of (·.accountId) a := by
    rcases archived with rfl | ⟨current,theirs,filed⟩
    · rfl
    · exact of_insert_other (theirs ▸ different : current.accountId ≠ a) filed
  rw [accept_other different accepted]
  simp only [ownStore,kept]

theorem push_own (db : ServerDb) (request : PushRequest) :
    pushMutation crates (ownStore a db) a request = ((pushMutation crates db a request).1,ownStore a (pushMutation crates db a request).2) := by
  unfold pushMutation
  simp only [ensure_own,tx_own]
  cases pushMutationInTx crates (ServerStore.ensureAccount db a) a request with
  | error e => rfl
  | ok ended =>
      obtain ⟨outcome,next⟩ := ended
      cases outcome <;> rfl

theorem push_other (db : ServerDb) (request : PushRequest) (different : b ≠ a) :
    ownStore a (pushMutation crates db b request).2 = ownStore a db := by
  rw [← ensure_other db different]
  unfold pushMutation
  simp only
  split
  · rfl
  · rename_i ran
    exact tx_other different ran
  · rfl

theorem pull_own (db : ServerDb) (after limit : Nat) :
    pullChanges (ownStore a db) a after limit = ((pullChanges db a after limit).1,ownStore a (pullChanges db a after limit).2) := by
  have rows : ∀ db after, rowsAfter (ownStore a db) a after = rowsAfter db a after := by
    intro db after
    unfold rowsAfter
    congr 1
    exact of_filter (fun r _ hit => (of_decide_eq_true hit).1)
  simp only [pullChanges,ensure_own,rows]

theorem pull_other (db : ServerDb) (after limit : Nat) (different : b ≠ a) : ownStore a (pullChanges db b after limit).2 = ownStore a db :=
  ensure_other db different

-- So do its blob statements; the quota counts its own blobs.
theorem usage_own (blobs : BlobTable) : getAccountBlobUsage (ownBlobs a blobs) a = getAccountBlobUsage blobs a := by
  unfold getAccountBlobUsage
  congr 2
  exact of_filter (fun r _ hit => of_decide_eq_true hit)

theorem blob_own (blobs : BlobTable) (id : String) : (ownBlobs a blobs).find (a,id) = blobs.find (a,id) :=
  of_find (fun _ _ same => congrArg Prod.fst same)

theorem table_put_own (blobs : BlobTable) (id : String) (data : List UInt8) (quota max : Nat) :
    ServerBlobs.putBlob (ownBlobs a blobs) a id data quota max =
      (ServerBlobs.putBlob blobs a id data quota max).map (fun r => (r.1,ownBlobs a r.2)) := by
  have placed : (ownBlobs a blobs).upsert ⟨a,id,data.length,data⟩ = ownBlobs a (blobs.upsert ⟨a,id,data.length,data⟩) :=
    (of_upsert_own (fun _ _ same => congrArg Prod.fst same) rfl).symm
  unfold ServerBlobs.putBlob
  rw [usage_own,blob_own,placed]
  split
  · rfl
  · simp only
    split <;> rfl

theorem table_put_other {blobs next : BlobTable} {id : String} {data : List UInt8} {quota max size : Nat} (different : b ≠ a)
    (stored : ServerBlobs.putBlob blobs b id data quota max = .ok (size,next)) : ownBlobs a next = ownBlobs a blobs := by
  unfold ServerBlobs.putBlob at stored
  split at stored
  · cases stored
  · simp only at stored
    split at stored
    · cases stored
    · cases stored
      exact of_upsert_other (fun _ _ same => congrArg Prod.fst same) different

theorem account_own (s : Server) : (ownRows a s).ensureAccount a = ownRows a (s.ensureAccount a) := by
  rw [Server.ensureAccount,Server.ensureAccount,rows_withStore,rows_store,ensure_own]

theorem account_other (s : Server) (different : b ≠ a) : ownRows a (s.ensureAccount b) = ownRows a s := same_store (ensure_other s.store different)

theorem put_own (s : Server) (id : String) (data : List UInt8) (quota max : Nat) :
    AccountServer.putBlob a id data quota max (ownRows a s) =
      ((AccountServer.putBlob a id data quota max s).1,ownRows a (AccountServer.putBlob a id data quota max s).2) := by
  unfold AccountServer.putBlob
  split
  · rfl
  · rw [rows_blobs,table_put_own,account_own]
    cases ServerBlobs.putBlob s.blobs a id data quota max <;> rfl

theorem put_other (s : Server) (id : String) (data : List UInt8) (quota max : Nat) (different : b ≠ a) :
    ownRows a (AccountServer.putBlob b id data quota max s).2 = ownRows a s := by
  unfold AccountServer.putBlob
  split
  · rfl
  · rw [← account_other s different]
    cases stored : ServerBlobs.putBlob s.blobs b id data quota max with
    | error failure => rfl
    | ok result =>
        have kept : ownBlobs a result.2 = ownBlobs a (s.ensureAccount b).blobs := table_put_other different stored
        exact same_blobs kept

theorem delete_own (blobs : BlobTable) (id : String) :
    deleteBlob (ownBlobs a blobs) a id = ((deleteBlob blobs a id).1,ownBlobs a (deleteBlob blobs a id).2) := by
  unfold deleteBlob
  rw [blob_own]
  cases blobs.find (a,id) with
  | none => rfl
  | some row => exact Prod.ext rfl (of_delete _).symm

theorem delete_other (blobs : BlobTable) (id : String) (different : b ≠ a) : ownBlobs a (deleteBlob blobs b id).2 = ownBlobs a blobs := by
  unfold deleteBlob
  cases blobs.find (b,id) with
  | none => rfl
  | some row =>
      apply of_delete_other
      intro r gone own
      exact different ((congrArg Prod.fst (of_decide_eq_true gone)).symm.trans own)

end ZkNote.AccountRows
