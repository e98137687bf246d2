import ZkNote.IndexedDb
import ZkNote.Runs
import ZkNote.StableSort

namespace ZkNote.StorageBackends
open Protocol KeyedTable LocalStorage IndexedDb StableSort Runs

-- The queue of the in-memory storage is a vector in the order of its pushes.
namespace MemoryStorage

def enqueueMutation (queue : List PendingMutation) (mutation : PendingMutation) : Except StorageError (List PendingMutation) :=
  if queue.any (fun m => m.mutationId = mutation.mutationId) then .error (.alreadyExists "pending_mutation" mutation.mutationId)
  else .ok (queue ++ [mutation])

def listPendingMutations (queue : List PendingMutation) : List PendingMutation := queue

def removeMutation (queue : List PendingMutation) (mutationId : String) : Bool × List PendingMutation :=
  match queue.findIdx? (fun m => m.mutationId = mutationId) with
  | some position => (true,queue.eraseIdx position)
  | none => (false,queue)

def updateMutationStatus (queue : List PendingMutation) (mutationId : String) (status : MutationStatus) (retryCount : UInt32) :
    Except StorageError (List PendingMutation) :=
  match queue.findIdx? (fun m => m.mutationId = mutationId) with
  | some position => .ok (queue.modify position (fun m => {m with status := status,retryCount := retryCount}))
  | none => .error (.notFound "pending_mutation" mutationId)

def pendingMutationCount (queue : List PendingMutation) : Nat := queue.length

end MemoryStorage

inductive QueueCall where
  | enqueue (mutation : PendingMutation)
  | updateStatus (mutationId : String) (status : MutationStatus) (retryCount : UInt32)
  | remove (mutationId : String)
  deriving DecidableEq, Repr

-- The three backends side by side; a call that fails leaves its backend alone.
structure Backends where
  memory : List PendingMutation
  sqlite : Storage
  web : WebDb

def Backends.new : Backends := ⟨[],.new,.new⟩

def kept {ε α : Type} (result : Except ε α) (before : α) : α := result.toOption.getD before

def QueueCall.run : QueueCall → Backends → Option Backends
  | .enqueue mutation,b => some
    ⟨kept (MemoryStorage.enqueueMutation b.memory mutation) b.memory,kept (b.sqlite.enqueueMutation mutation) b.sqlite,
      b.web.enqueueMutation mutation⟩
  | .updateStatus id status retryCount,b => some
    ⟨kept (MemoryStorage.updateMutationStatus b.memory id status retryCount) b.memory,
      kept (b.sqlite.updateMutationStatus id status retryCount) b.sqlite,
      kept (b.web.updateMutationStatus id status (some retryCount)) b.web⟩
  | .remove id,b => some
    ⟨(MemoryStorage.removeMutation b.memory id).2,b.sqlite.removeMutation id,(b.web.removeMutation id).2⟩

-- An id that is still queued is not enqueued again for another mutation.
def QueueCall.Fresh : QueueCall → Backends → Prop
  | .enqueue mutation,b => ∀ held ∈ b.memory, held.mutationId = mutation.mutationId → held = mutation
  | _,_ => True

instance (call : QueueCall) (b : Backends) : Decidable (call.Fresh b) :=
  match call with
  | .enqueue mutation => inferInstanceAs (Decidable (∀ held ∈ b.memory, held.mutationId = mutation.mutationId → held = mutation))
  | .updateStatus _ _ _ => inferInstanceAs (Decidable True)
  | .remove _ => inferInstanceAs (Decidable True)

structure SameRows (b : Backends) : Prop where
  sqlite : b.sqlite.mutations.rows = b.memory
  web : b.web.mutations = b.sqlite.mutations

variable {b next : Backends} {t : Table String PendingMutation (·.mutationId)}

theorem find_position (t : Table String PendingMutation (·.mutationId)) (id : String) :
    (t.rows.findIdx? (fun m => m.mutationId = id) = none ∧ t.find id = none) ∨
      ∃ before m after, t.rows = before ++ m :: after ∧ m.mutationId = id ∧ t.find id = some m ∧
        (∀ x ∈ before, x.mutationId ≠ id) ∧ (∀ x ∈ after, x.mutationId ≠ id) ∧
        t.rows.findIdx? (fun m => m.mutationId = id) = some before.length := by
  cases found : t.find id with
  | none =>
      left
      refine ⟨?_,rfl⟩
      rw [List.findIdx?_eq_none_iff]
      intro x inside
      have absent := find_none_iff.mp found
      simpa using fun same : x.mutationId = id => absent (same ▸ List.mem_map_of_mem inside)
  | some m =>
      right
      have is := find_key found
      obtain ⟨before,after,rows⟩ := List.append_of_mem (find_mem found)
      have unique := t.unique
      rw [rows,List.map_append,List.map_cons,List.nodup_append] at unique
      obtain ⟨_,behind,apart⟩ := unique
      have first : ∀ x ∈ before, x.mutationId ≠ id := by
        intro x inside same
        exact apart x.mutationId (List.mem_map_of_mem inside) m.mutationId (by simp) (same.trans is.symm)
      have last : ∀ x ∈ after, x.mutationId ≠ id := by
        intro x inside same
        exact (List.nodup_cons.mp behind).1 (is.trans same.symm ▸ List.mem_map_of_mem inside)
      refine ⟨before,m,after,rows,is,rfl,first,last,?_⟩
      rw [rows,List.findIdx?_append]
      have none : before.findIdx? (fun m => m.mutationId = id) = none := by
        rw [List.findIdx?_eq_none_iff]
        intro x inside
        simpa using first x inside
      simp [none,List.findIdx?_cons,is]

theorem place_at (rows : t.rows = before ++ m :: after) (same : r.mutationId = m.mutationId)
    (first : ∀ x ∈ before, x.mutationId ≠ m.mutationId) (last : ∀ x ∈ after, x.mutationId ≠ m.mutationId) :
    (t.upsert r).rows = before ++ r :: after := by
  have held : r.mutationId ∈ t.rows.map (·.mutationId) := by rw [rows,same]; simp
  have stay : ∀ side : List PendingMutation, (∀ x ∈ side, x.mutationId ≠ m.mutationId) →
      side.map (fun x => if x.mutationId = r.mutationId then r else x) = side := by
    intro side other
    conv_rhs => rw [← List.map_id side]
    apply List.map_congr_left
    intro x inside
    rw [if_neg (same ▸ other x inside),id]
  simp only [Table.upsert,place,if_pos held]
  rw [rows,List.map_append,List.map_cons,stay before first,stay after last,if_pos same.symm]

theorem enqueue_same (same : SameRows b) (fresh : QueueCall.Fresh (.enqueue m) b) (ran : QueueCall.run (.enqueue m) b = some next) :
    SameRows next := by
  obtain ⟨sqlite,web⟩ := same
  cases ran
  cases found : b.sqlite.mutations.find m.mutationId with
  | none =>
      have absent : b.memory.any (fun x => x.mutationId = m.mutationId) = false := by
        rw [List.any_eq_false]
        intro x inside
        have apart := find_none_iff.mp found
        rw [sqlite] at apart
        simpa using fun equal : x.mutationId = m.mutationId => apart (equal ▸ List.mem_map_of_mem inside)
      have inserted := insert_fresh found
      refine ⟨?_,?_⟩
      · simp only [kept,MemoryStorage.enqueueMutation,absent,Storage.enqueueMutation,inserted,Except.toOption,Option.getD_some,
          Bool.false_eq_true,if_false]
        rw [upsert_fresh_rows found,sqlite]
      · simp only [kept,Storage.enqueueMutation,inserted,Except.toOption,Option.getD_some,WebDb.enqueueMutation,web]
  | some held =>
      have is := find_key found
      have inside : held ∈ b.memory := sqlite ▸ find_mem found
      have equal : held = m := fresh held inside is
      subst equal
      have present : b.memory.any (fun x => x.mutationId = held.mutationId) = true :=
        List.any_eq_true.mpr ⟨held,inside,by simp⟩
      have refused : b.sqlite.mutations.insert held = none := by
        have key : held.mutationId ∈ b.sqlite.mutations.rows.map (·.mutationId) := List.mem_map_of_mem (find_mem found)
        rw [Table.insert,if_pos key]
      refine ⟨?_,?_⟩
      · simpa [kept,MemoryStorage.enqueueMutation,present,Storage.enqueueMutation,refused,Except.toOption] using sqlite
      · simp only [kept,Storage.enqueueMutation,refused,Except.toOption,Option.getD_none,WebDb.enqueueMutation,web]
        exact upsert_same found

theorem update_same (same : SameRows b) (ran : QueueCall.run (.updateStatus mutationId status retryCount) b = some next) :
    SameRows next := by
  obtain ⟨sqlite,web⟩ := same
  cases ran
  rcases find_position b.sqlite.mutations mutationId with ⟨nowhere,none⟩ | ⟨before,m,after,rows,is,found,first,last,position⟩
  · have unheld : b.web.getMutation mutationId = .none := by rw [WebDb.getMutation,web]; exact none
    rw [sqlite] at nowhere
    refine ⟨?_,?_⟩
    · simpa [kept,MemoryStorage.updateMutationStatus,nowhere,Storage.updateMutationStatus,none,Except.toOption] using sqlite
    · simpa [kept,Storage.updateMutationStatus,none,WebDb.updateMutationStatus,unheld,Except.toOption] using web
  · have held : b.web.getMutation mutationId = some m := by rw [WebDb.getMutation,web]; exact found
    rw [sqlite] at position
    have memory : b.memory = before ++ m :: after := sqlite ▸ rows
    subst is
    have placed := place_at (r := {m with status := status,retryCount := retryCount}) rows rfl first last
    refine ⟨?_,?_⟩
    · simp only [kept,MemoryStorage.updateMutationStatus,position,Storage.updateMutationStatus,found,Except.toOption,Option.getD_some]
      rw [placed,memory,List.modify_eq_take_cons_drop (by simp)]
      simp
    · simp only [kept,Storage.updateMutationStatus,found,WebDb.updateMutationStatus,held,Except.toOption,Option.getD_some,
        WebDb.enqueueMutation,web,WebDb.restatus]

theorem remove_same (same : SameRows b) (ran : QueueCall.run (.remove mutationId) b = some next) : SameRows next := by
  obtain ⟨sqlite,web⟩ := same
  cases ran
  rcases find_position b.sqlite.mutations mutationId with ⟨nowhere,none⟩ | ⟨before,m,after,rows,is,found,first,last,position⟩
  · have unheld : b.web.getMutation mutationId = .none := by rw [WebDb.getMutation,web]; exact none
    have stay := delete_absent none
    rw [sqlite] at nowhere
    refine ⟨?_,?_⟩
    · simp only [MemoryStorage.removeMutation,nowhere,Storage.removeMutation,stay,sqlite]
    · simp only [WebDb.removeMutation,unheld,Storage.removeMutation,stay,web]
  · have held : b.web.getMutation mutationId = some m := by rw [WebDb.getMutation,web]; exact found
    rw [sqlite] at position
    refine ⟨?_,?_⟩
    · have kept : ∀ side : List PendingMutation, (∀ x ∈ side, x.mutationId ≠ mutationId) →
          side.filter (fun x => !decide (x.mutationId = mutationId)) = side := by
        intro side other
        rw [List.filter_eq_self]
        intro x inside
        simp [other x inside]
      have memory : b.memory = before ++ m :: after := sqlite ▸ rows
      simp only [MemoryStorage.removeMutation,position,Storage.removeMutation,Table.delete]
      rw [rows,memory,List.filter_append,List.filter_cons,kept before first,kept after last]
      simp [is,List.eraseIdx_append_of_length_le]
    · simp only [WebDb.removeMutation,held,Storage.removeMutation,web]

theorem call_same (call : QueueCall) (same : SameRows b) (fresh : call.Fresh b) (ran : call.run b = some next) : SameRows next := by
  cases call with
  | enqueue m => exact enqueue_same same fresh ran
  | updateStatus mutationId status retryCount => exact update_same same ran
  | remove mutationId => exact remove_same same ran

-- The queue in the order of enqueueing, as each backend orders its listing: all
-- entries wait, the clock did not go back, and neither did the collation; where
-- it ties, the expected revision did not go back, and where that ties too, the
-- ids ascend.
structure InStep (collation : Collation) (queue : List PendingMutation) : Prop where
  waiting : ∀ m ∈ queue, m.status = .pending
  clock : queue.Pairwise (fun a b => a.createdAt ≤ b.createdAt)
  collated : queue.Pairwise (Then (listedBefore collation) byKey)

-- The three listings are the queue in the order of enqueueing, and the counts agree.
structure Agree (collation : Collation) (b : Backends) : Prop where
  sqliteList : b.sqlite.listPendingMutations = MemoryStorage.listPendingMutations b.memory
  webList : b.web.listPendingMutations collation = MemoryStorage.listPendingMutations b.memory
  sqliteCount : b.sqlite.pendingMutationCount = MemoryStorage.pendingMutationCount b.memory
  webCount : b.web.pendingMutationCount collation = MemoryStorage.pendingMutationCount b.memory

theorem created_iff (queue : List PendingMutation) :
    queue.insertionSort (fun a b => a.createdAt ≤ b.createdAt) = queue ↔ queue.Pairwise (fun a b => a.createdAt ≤ b.createdAt) := by
  have : Std.Total (fun a b : PendingMutation => a.createdAt ≤ b.createdAt) := ⟨fun _ _ => le_total _ _⟩
  have : IsTrans PendingMutation (fun a b => a.createdAt ≤ b.createdAt) := ⟨fun _ _ _ => le_trans⟩
  exact sorted_iff

theorem web_listed (collation : Collation) (db : WebDb) (target : List PendingMutation)
    (perm : target.Perm (db.mutations.rows.filter (fun m => m.status = .pending))) :
    db.listPendingMutations collation = target ↔ target.Pairwise (Then (listedBefore collation) byKey) := by
  have ordered : (db.allMutations.filter (fun m => m.status = .pending)).Pairwise byKey :=
    (List.pairwise_insertionSort byKey _).filter _
  have all : db.allMutations.Perm db.mutations.rows := List.perm_insertionSort byKey _
  have ids : (db.allMutations.map (·.mutationId)).Nodup := (all.map _).nodup_iff.mpr db.mutations.unique
  refine resorted_iff ordered (ids.of_map.filter _) (perm.trans (all.symm.filter _)) ?_
  intro x first y second forth back
  exact List.inj_on_of_nodup_map ids (List.mem_of_mem_filter first) (List.mem_of_mem_filter second) (key_antisymm forth back)

theorem web_lists_pending (collation : Collation) (db : WebDb) :
    (db.listPendingMutations collation).Perm (db.mutations.rows.filter (fun m => m.status = .pending)) :=
  (List.perm_insertionSort _ _).trans ((List.perm_insertionSort byKey _).filter _)

theorem web_counts_pending (collation : Collation) (db : WebDb) :
    db.pendingMutationCount collation = (db.mutations.rows.filter (fun m => m.status = .pending)).length := by
  have pending : ∀ m ∈ db.listPendingMutations collation, m.status = .pending := by
    intro m inside
    simpa using (List.mem_filter.mp ((web_lists_pending collation db).subset inside)).2
  unfold WebDb.pendingMutationCount
  rw [List.filter_eq_self.mpr (fun m inside => by simp [pending m inside])]
  exact (web_lists_pending collation db).length_eq

theorem agree_iff (collation : Collation) (same : SameRows b) : Agree collation b ↔ InStep collation b.memory := by
  obtain ⟨sqlite,web⟩ := same
  have rows : b.web.mutations.rows = b.memory := by rw [web,sqlite]
  have clock := created_iff b.memory
  constructor
  · rintro ⟨sqliteList,webList,_,_⟩
    have perm : b.memory.Perm (b.memory.filter (fun m => m.status = .pending)) := by
      have listed := web_lists_pending collation b.web
      rwa [webList,rows] at listed
    have waiting : ∀ m ∈ b.memory, m.status = .pending := by
      intro m inside
      simpa using (List.mem_filter.mp (perm.subset inside)).2
    refine ⟨waiting,?_,?_⟩
    · rw [← sqlite] at clock ⊢
      exact clock.mp (sqliteList.trans sqlite.symm)
    · exact (web_listed collation b.web b.memory (rows.symm ▸ perm)).mp webList
  · rintro ⟨waiting,ordered,collated⟩
    have whole : b.memory.filter (fun m => m.status = .pending) = b.memory :=
      List.filter_eq_self.mpr (fun m inside => by simp [waiting m inside])
    refine ⟨?_,?_,?_,?_⟩
    · simp only [Storage.listPendingMutations,sqlite,MemoryStorage.listPendingMutations]
      exact clock.mpr ordered
    · exact (web_listed collation b.web b.memory (by rw [rows,whole])).mpr collated
    · simp only [Storage.pendingMutationCount,sqlite,MemoryStorage.pendingMutationCount]
    · rw [web_counts_pending,rows,whole]
      rfl

-- After any calls that reuse no queued id, the backends agree exactly when the
-- queue is in step.
theorem backends_agree_iff (collation : Collation) (calls : List QueueCall)
    (fresh : Along QueueCall.run QueueCall.Fresh calls .new) (ran : runAll QueueCall.run calls .new = some b) :
    Agree collation b ↔ InStep collation b.memory := by
  apply agree_iff
  exact run_keeps SameRows (fun call _ _ same fresh ran => call_same call same fresh ran) calls fresh ⟨rfl,rfl⟩ ran

-- A collation by code units, which orders digits as every locale does.
def Collation.plain : Collation where
  localeCompare a b := if codeUnits a = codeUnits b then .eq else if keyLe a b then .lt else .gt
  swapped a b := by
    by_cases same : codeUnits a = codeUnits b
    · rw [if_pos same,if_pos same.symm]; rfl
    · rw [if_neg same,if_neg (fun equal => same equal.symm)]
      by_cases less : keyLe a b
      · have one : ¬keyLe b a := fun back => same (units_antisymm less back)
        rw [if_pos less,if_neg one]; rfl
      · have back : keyLe b a := (units_total _ _).resolve_left less
        rw [if_neg less,if_pos back]; rfl
  transitive a b c := by
    have notGt : ∀ x y, (if codeUnits x = codeUnits y then Ordering.eq else if keyLe x y then .lt else .gt) ≠ .gt ↔ keyLe x y := by
      intro x y
      by_cases same : codeUnits x = codeUnits y
      · have reflexive : keyLe x y := by
          unfold keyLe
          rw [same]
          exact (units_total _ _).elim id id
        simp [same,reflexive]
      · by_cases less : keyLe x y <;> simp [same,less]
    rw [notGt,notGt,notGt]
    exact units_trans

-- Two edits of one note, the second with a later time and the revision of the first.
def twoEdits : List QueueCall :=
  [.enqueue (queued change1 firstNote 0 .pending "aaaa" "t1"),.enqueue (queued change2 firstNote 1 .pending "bbbb" "t2")]

theorem two_edits_agree : ∃ b, runAll QueueCall.run twoEdits .new = some b ∧ Agree Collation.plain b := by
  obtain ⟨b,ran⟩ := Option.isSome_iff_exists.mp (show (runAll QueueCall.run twoEdits .new).isSome = true by decide)
  have memory : (runAll QueueCall.run twoEdits .new).map (·.memory) =
      some [queued change1 firstNote 0 .pending "aaaa" "t1",queued change2 firstNote 1 .pending "bbbb" "t2"] := by decide
  rw [ran] at memory
  have memory : b.memory = _ := Option.some.inj memory
  refine ⟨b,ran,(backends_agree_iff Collation.plain twoEdits (by decide) ran).mpr ?_⟩
  rw [memory]
  exact ⟨by decide,by decide,by simp [Then,listedBefore,byKey]; decide⟩

-- The clock went back between two edits; a cycle stopped while one was in flight.
theorem backends_disagree :
    (∃ b, runAll QueueCall.run [.enqueue (queued change1 firstNote 0 .pending "aaaa" "t2"),
        .enqueue (queued change2 firstNote 1 .pending "bbbb" "t1")] .new = some b ∧
      b.memory.map (·.mutationId) = [change1,change2] ∧
      b.sqlite.listPendingMutations.map (·.mutationId) = [change2,change1] ∧
      (b.web.listPendingMutations Collation.plain).map (·.mutationId) = [change2,change1]) ∧
    ∃ b, runAll QueueCall.run (twoEdits ++ [.updateStatus change1 .inFlight 1]) .new = some b ∧
      b.memory.map (·.mutationId) = [change1,change2] ∧ MemoryStorage.pendingMutationCount b.memory = 2 ∧
      (b.web.listPendingMutations Collation.plain).map (·.mutationId) = [change2] ∧
      b.web.pendingMutationCount Collation.plain = 1 := by
  refine ⟨⟨_,rfl,?_⟩,⟨_,rfl,?_⟩⟩ <;> decide

end ZkNote.StorageBackends
