import ZkNote.ServerStore

namespace ZkNote.ServerHistory
open Protocol KeyedTable ServerStore

variable {crates : Crates}

-- The abstract server: one append-only log of accepted pushes. Ids are in the
-- canonical spelling the tables use; the request is the one that was sent.
structure Acceptance where
  accountId : String
  objectId : String
  mutationId : String
  request : PushRequest
  revision : Nat
  seq : Nat
  deriving DecidableEq, Repr

def headOf (e : Acceptance) : EncryptedObjectRow :=
  ⟨e.accountId,e.objectId,e.request.objectKind,e.revision,e.seq,e.request.envelope.envelopeVersion,
    e.request.envelope.wrappedKey,e.request.envelope.payload,e.request.isDeleted⟩

def responseOf (e : Acceptance) : PushResponse := ⟨e.request.objectId,e.revision,e.seq⟩

def processedOf (crates : Crates) (e : Acceptance) : ProcessedMutationRow :=
  ⟨e.accountId,e.mutationId,e.objectId,e.revision,e.seq,responseOf e,some (computeMutationRequestHash crates e.request)⟩

def ofAccount (log : List Acceptance) (accountId : String) : List Acceptance :=
  log.filter (fun e => e.accountId = accountId)

def ofObject (log : List Acceptance) (accountId objectId : String) : List Acceptance :=
  log.filter (fun e => e.accountId = accountId ∧ e.objectId = objectId)

def ofMutation (log : List Acceptance) (accountId mutationId : String) : Option Acceptance :=
  log.find? (fun e => e.accountId = accountId ∧ e.mutationId = mutationId)

structure Parsed (crates : Crates) (request : PushRequest) (o m : String) : Prop where
  object : crates.parseUuid request.objectId = .ok o
  mutation : crates.parseUuid request.mutationId = .ok m

-- The four tables hold what the log says and nothing else.
structure Represents (crates : Crates) (log : List Acceptance) (db : ServerDb) : Prop where
  head : ∀ a o, db.objects.find (a,o) = (ofObject log a o).getLast?.map headOf
  history : ∀ a o, db.history.rows.filter (fun r => r.accountId = a ∧ r.objectId = o) =
    (ofObject log a o).dropLast.map (fun e => historyOf (headOf e))
  revisions : ∀ a o, (ofObject log a o).map (·.revision) = List.range' 1 (ofObject log a o).length
  sequence : ∀ a, currentSequence db a = (ofAccount log a).length
  seqs : ∀ a, (ofAccount log a).map (·.seq) = List.range' 1 (ofAccount log a).length
  processed : ∀ a m, db.processed.find (a,m) = (ofMutation log a m).map (processedOf crates)
  ids : (log.map (fun e => (e.accountId,e.mutationId))).Nodup
  known : ∀ e ∈ log, ∃ row, db.accounts.find e.accountId = some row
  parsed : ∀ e ∈ log, Parsed crates e.request e.objectId e.mutationId
  based : ∀ e ∈ log, e.revision = e.request.expectedRevision+1

theorem initial_represents : Represents crates [] .newInMemory := by
  refine ⟨?_,?_,?_,?_,?_,?_,by simp,by simp,by simp,by simp⟩ <;> intros <;> rfl

@[simp] theorem ensure_objects (db : ServerDb) (a : String) : (ensureAccount db a).objects = db.objects := by
  unfold ensureAccount; split <;> rfl
@[simp] theorem ensure_history (db : ServerDb) (a : String) : (ensureAccount db a).history = db.history := by
  unfold ensureAccount; split <;> rfl
@[simp] theorem ensure_sequences (db : ServerDb) (a : String) : (ensureAccount db a).sequences = db.sequences := by
  unfold ensureAccount; split <;> rfl
@[simp] theorem ensure_processed (db : ServerDb) (a : String) : (ensureAccount db a).processed = db.processed := by
  unfold ensureAccount; split <;> rfl
@[simp] theorem ensure_current (db : ServerDb) (a b : String) :
    currentSequence (ensureAccount db a) b = currentSequence db b := by
  simp [currentSequence]

theorem ensure_known (db : ServerDb) (a b : String) (known : (∃ row, db.accounts.find b = some row) ∨ a = b) :
    ∃ row, (ensureAccount db a).accounts.find b = some row := by
  cases found : db.accounts.find a with
  | some held =>
      rcases known with ⟨row,known⟩ | rfl
      · exact ⟨row,by simpa [ensureAccount,found] using known⟩
      · exact ⟨held,by simp [ensureAccount,found]⟩
  | none =>
      simp only [ensureAccount,found,find_upsert]
      by_cases same : a = b
      · exact ⟨_,if_pos same⟩
      · rcases known with ⟨row,known⟩ | equal
        · exact ⟨row,by rw [if_neg same]; exact known⟩
        · exact absurd equal same

theorem ensure_noop (known : db.accounts.find a = some row) : ensureAccount db a = db := by
  simp [ensureAccount,known]

theorem represents_ensured (rep : Represents crates log db) (a : String) :
    Represents crates log (ensureAccount db a) := by
  obtain ⟨head,history,revisions,sequence,seqs,processed,ids,known,parsed,based⟩ := rep
  refine ⟨?_,?_,revisions,?_,seqs,?_,ids,?_,parsed,based⟩
  · simpa using head
  · simpa using history
  · simpa only [ensure_current] using sequence
  · simpa using processed
  · intro e member
    obtain ⟨row,found⟩ := known e member
    exact ensure_known db a e.accountId (.inl ⟨_,found⟩)

theorem ofObject_append (log : List Acceptance) (e : Acceptance) (a o : String) :
    ofObject (log ++ [e]) a o = ofObject log a o ++ if e.accountId = a ∧ e.objectId = o then [e] else [] := by
  unfold ofObject
  rw [List.filter_append]
  by_cases same : e.accountId = a ∧ e.objectId = o <;> simp [same]

theorem ofAccount_append (log : List Acceptance) (e : Acceptance) (a : String) :
    ofAccount (log ++ [e]) a = ofAccount log a ++ if e.accountId = a then [e] else [] := by
  unfold ofAccount
  rw [List.filter_append]
  by_cases same : e.accountId = a <;> simp [same]

theorem ofMutation_append (log : List Acceptance) (e : Acceptance) (a m : String) :
    ofMutation (log ++ [e]) a m =
      (ofMutation log a m).or (if e.accountId = a ∧ e.mutationId = m then some e else none) := by
  unfold ofMutation
  rw [List.find?_append]
  by_cases same : e.accountId = a ∧ e.mutationId = m <;> simp [same]

theorem ofMutation_mem (found : ofMutation log a m = some e) :
    e ∈ log ∧ e.accountId = a ∧ e.mutationId = m := by
  refine ⟨List.mem_of_find?_eq_some found,?_⟩
  simpa using List.find?_some found

theorem mem_ofObject : e ∈ ofObject log a o ↔ e ∈ log ∧ e.accountId = a ∧ e.objectId = o := by
  simp [ofObject]

theorem mem_ofAccount : e ∈ ofAccount log a ↔ e ∈ log ∧ e.accountId = a := by
  simp [ofAccount]

theorem represented_seq_bound (rep : Represents crates log db) (member : e ∈ log) :
    1 ≤ e.seq ∧ e.seq ≤ currentSequence db e.accountId := by
  have inside : e.seq ∈ (ofAccount log e.accountId).map (·.seq) :=
    List.mem_map_of_mem (mem_ofAccount.mpr ⟨member,rfl⟩)
  rw [rep.seqs,List.mem_range'_1] at inside
  rw [rep.sequence]
  omega

theorem represented_revision_bound (rep : Represents crates log db) (member : e ∈ log) :
    1 ≤ e.revision ∧ e.revision ≤ (ofObject log e.accountId e.objectId).length := by
  have inside : e.revision ∈ (ofObject log e.accountId e.objectId).map (·.revision) :=
    List.mem_map_of_mem (mem_ofObject.mpr ⟨member,rfl,rfl⟩)
  rw [rep.revisions,List.mem_range'_1] at inside
  omega

-- The head's revision counts the acceptances of its object.
theorem last_revision (rep : Represents crates log db) (last : (ofObject log a o).getLast? = some e) :
    e.revision = (ofObject log a o).length := by
  have mapped := congrArg List.getLast? (rep.revisions a o)
  rw [List.getLast?_map,last] at mapped
  cases count : (ofObject log a o).length with
  | zero => rw [count] at mapped; simp at mapped
  | succ n =>
      rw [count,List.range'_concat,List.getLast?_append] at mapped
      simp at mapped
      omega

theorem last_mem (last : (ofObject log a o).getLast? = some e) :
    e ∈ log ∧ e.accountId = a ∧ e.objectId = o :=
  mem_ofObject.mp (List.mem_of_getLast? last)

theorem head_mem (rep : Represents crates log db) (member : r ∈ db.objects.rows) :
    ∃ e ∈ log, r = headOf e := by
  have found := mem_iff_find.mp member
  rw [rep.head] at found
  obtain ⟨e,last,rfl⟩ := Option.map_eq_some_iff.mp found
  exact ⟨e,(last_mem last).1,rfl⟩

theorem history_mem (rep : Represents crates log db) (member : r ∈ db.history.rows) :
    ∃ e ∈ (ofObject log r.accountId r.objectId).dropLast, r = historyOf (headOf e) := by
  have inside : r ∈ db.history.rows.filter (fun x => x.accountId = r.accountId ∧ x.objectId = r.objectId) := by
    simp [member]
  rw [rep.history] at inside
  obtain ⟨e,dropped,equal⟩ := List.mem_map.mp inside
  exact ⟨e,dropped,equal.symm⟩

-- A row of the history is strictly older than the head of its object.
theorem dropped_revision (rep : Represents crates log db) (member : e ∈ (ofObject log a o).dropLast) :
    e.revision < (ofObject log a o).length := by
  have mapped := congrArg List.dropLast (rep.revisions a o)
  rw [← List.map_dropLast] at mapped
  have inside : e.revision ∈ (List.range' 1 (ofObject log a o).length).dropLast :=
    mapped ▸ List.mem_map_of_mem member
  cases count : (ofObject log a o).length with
  | zero => rw [count] at inside; simp at inside
  | succ n =>
      rw [count,List.range'_concat,List.dropLast_concat,List.mem_range'_1] at inside
      omega

theorem allocate_eq (db : ServerDb) (a : String) :
    allocateSequenceInTx db a = (currentSequence db a+1,
      {ensureAccount db a with sequences := db.sequences.upsert ⟨a,currentSequence db a+1⟩}) := by
  unfold allocateSequenceInTx
  simp only [ensure_sequences]
  cases found : db.sequences.find a with
  | none => simp [currentSequence,found]
  | some row =>
      have is := find_key found
      simp only [currentSequence,found,Option.map_some,Option.getD_some]
      rw [← is]

-- The tables after one acceptance, the history row apart.
def settle (crates : Crates) (db : ServerDb) (e : Acceptance) : ServerDb :=
  {ensureAccount db e.accountId with
    sequences := db.sequences.upsert ⟨e.accountId,e.seq⟩
    objects := db.objects.upsert (headOf e)
    processed := db.processed.upsert (processedOf crates e)}

theorem accept_eq (db : ServerDb) (a o m : String) (request : PushRequest) (revision : Nat)
    (bounded : ∀ r ∈ db.objects.rows, r.accountId = a → r.serverSeq ≤ currentSequence db a)
    (fresh : db.processed.find (a,m) = none) :
    acceptInTx crates db a o m request revision =
      .ok (.success ⟨request.objectId,revision,currentSequence db a+1⟩,
        settle crates db ⟨a,o,m,request,revision,currentSequence db a+1⟩) := by
  unfold acceptInTx
  rw [allocate_eq]
  have free : db.objects.rows.any (fun r => r.accountId = a ∧ r.serverSeq = currentSequence db a+1 ∧ r.objectId ≠ o) = false := by
    rw [List.any_eq_false]
    intro r member taken
    have taken : r.accountId = a ∧ r.serverSeq = currentSequence db a+1 ∧ r.objectId ≠ o := by simpa using taken
    have bound := bounded r member taken.1
    omega
  simp only [writeObject,ensure_objects,free,Bool.false_eq_true,if_false,ensure_processed]
  rw [insert_fresh fresh]
  rfl

-- What a push does on tables that represent a log, one lemma for each end.
theorem push_replayed (rep : Represents crates log db) (parsed : Parsed crates request o m)
    (old : ofMutation log a m = some e) :
    pushMutation crates db a request =
      (.ok (replayOutcome (processedOf crates e) o (computeMutationRequestHash crates request) request),ensureAccount db a) := by
  have row : (ensureAccount db a).processed.find (a,m) = some (processedOf crates e) := by
    rw [ensure_processed,rep.processed,old]; rfl
  simp only [pushMutation,pushMutationInTx,parsed.object,parsed.mutation,row]
  cases replayOutcome (processedOf crates e) o (computeMutationRequestHash crates request) request <;> rfl

theorem push_conflicting (rep : Represents crates log db) (parsed : Parsed crates request o m)
    (fresh : ofMutation log a m = none) (last : (ofObject log a o).getLast? = some e)
    (stale : request.expectedRevision ≠ e.revision) :
    pushMutation crates db a request =
      (.ok (.conflict (conflictWith (headOf e) request)),ensureAccount db a) := by
  have row : (ensureAccount db a).processed.find (a,m) = none := by
    rw [ensure_processed,rep.processed,fresh]; rfl
  have current : (ensureAccount db a).objects.find (a,o) = some (headOf e) := by
    rw [ensure_objects,rep.head,last]; rfl
  have stale : request.expectedRevision ≠ (headOf e).revision := stale
  simp only [pushMutation,pushMutationInTx,parsed.object,parsed.mutation,row,current,stale,ne_eq,not_false_eq_true,if_true]

theorem push_missing (rep : Represents crates log db) (parsed : Parsed crates request o m)
    (fresh : ofMutation log a m = none) (absent : (ofObject log a o).getLast? = none)
    (stale : request.expectedRevision ≠ 0) :
    pushMutation crates db a request =
      (.ok (.objectNotFound s!"object '{request.objectId}' not found, expected revision {request.expectedRevision}"),
        ensureAccount db a) := by
  have row : (ensureAccount db a).processed.find (a,m) = none := by
    rw [ensure_processed,rep.processed,fresh]; rfl
  have current : (ensureAccount db a).objects.find (a,o) = none := by
    rw [ensure_objects,rep.head,absent]; rfl
  simp only [pushMutation,pushMutationInTx,parsed.object,parsed.mutation,row,current,stale,ne_eq,not_false_eq_true,if_true]

-- The head of an object and, by its count, the revision the next push must expect.
def headRevision (log : List Acceptance) (a o : String) : Nat := (ofObject log a o).length

def nextAcceptance (log : List Acceptance) (a o m : String) (request : PushRequest) : Acceptance :=
  ⟨a,o,m,request,headRevision log a o+1,(ofAccount log a).length+1⟩

theorem last_none (empty : headRevision log a o = 0) : (ofObject log a o).getLast? = none := by
  rw [List.getLast?_eq_none_iff]; exact List.length_eq_zero_iff.mp empty

theorem last_some (positive : headRevision log a o ≠ 0) : ∃ e, (ofObject log a o).getLast? = some e := by
  cases last : (ofObject log a o).getLast? with
  | some e => exact ⟨e,rfl⟩
  | none =>
      rw [List.getLast?_eq_none_iff] at last
      exact absurd (by simp [headRevision,last]) positive

theorem last_present (last : (ofObject log a o).getLast? = some e) : headRevision log a o ≠ 0 := by
  intro zero
  rw [last_none zero] at last
  cases last

-- The head revision as the tables show it.
def headAt (db : ServerDb) (account o : String) : Nat := ((db.objects.find (account,o)).map (·.revision)).getD 0

theorem head_at_eq (rep : Represents crates log db) (o : String) : headAt db account o = headRevision log account o := by
  unfold headAt
  rw [rep.head]
  cases last : (ofObject log account o).getLast? with
  | none =>
      rw [List.getLast?_eq_none_iff] at last
      simp [headRevision,last]
  | some e => exact last_revision rep last

theorem represented_heads_bounded (rep : Represents crates log db) :
    ∀ r ∈ db.objects.rows, r.accountId = a → r.serverSeq ≤ currentSequence db a := by
  rintro r member rfl
  obtain ⟨e,inside,rfl⟩ := head_mem rep member
  exact (represented_seq_bound rep inside).2

-- The tables after the next acceptance: the old head moves to the history.
def archive (db : ServerDb) (a o : String) : ServerDb :=
  match db.objects.find (a,o) with
  | none => db
  | some current => {db with history := db.history.upsert (historyOf current)}

theorem history_free (rep : Represents crates log db) (last : (ofObject log a o).getLast? = some e) :
    db.history.find ((historyOf (headOf e)).accountId,(historyOf (headOf e)).objectId,(historyOf (headOf e)).revision) = none := by
  have owner := last_mem last
  apply find_none_iff.mpr
  intro member
  obtain ⟨r,inside,keyed⟩ := List.mem_map.mp member
  obtain ⟨old,dropped,rfl⟩ := history_mem rep inside
  have fields : old.accountId = e.accountId ∧ old.objectId = e.objectId ∧ old.revision = e.revision := by
    simpa [historyOf,headOf] using keyed
  have older := dropped_revision rep dropped
  simp only [historyOf,headOf,fields.1,fields.2.1,owner.2.1,owner.2.2,fields.2.2,last_revision rep last] at older
  exact Nat.lt_irrefl _ older

theorem push_accepted (rep : Represents crates log db) (parsed : Parsed crates request o m)
    (fresh : ofMutation log a m = none) (current : request.expectedRevision = headRevision log a o) :
    pushMutation crates db a request =
      (.ok (.success (responseOf (nextAcceptance log a o m request))),
        settle crates (archive (ensureAccount db a) a o) (nextAcceptance log a o m request)) := by
  have ensured := represents_ensured rep a
  have row : (ensureAccount db a).processed.find (a,m) = none := by
    rw [ensured.processed,fresh]; rfl
  have bounded := represented_heads_bounded (a := a) ensured
  by_cases none : headRevision log a o = 0
  · have absent : (ensureAccount db a).objects.find (a,o) = Option.none := by
      rw [ensured.head,last_none none]; rfl
    have zero : request.expectedRevision = 0 := current.trans none
    simp only [pushMutation,pushMutationInTx,parsed.object,parsed.mutation,row,absent,zero,ne_eq,not_true,if_false]
    rw [accept_eq _ a o m request 1 bounded row]
    simp only [archive,absent,nextAcceptance,responseOf,none,ensured.sequence]
  · obtain ⟨e,last⟩ := last_some none
    have found : (ensureAccount db a).objects.find (a,o) = some (headOf e) := by
      rw [ensured.head,last]; rfl
    have count : (headOf e).revision = headRevision log a o := last_revision ensured last
    have inserted := insert_fresh (history_free ensured last)
    have equal : request.expectedRevision = (headOf e).revision := current.trans count.symm
    have same : currentSequence {ensureAccount db a with history := (ensureAccount db a).history.upsert (historyOf (headOf e))} a =
        (ofAccount log a).length := ensured.sequence a
    simp only [pushMutation,pushMutationInTx,parsed.object,parsed.mutation,row,found,equal,ne_eq,not_true,if_false,inserted]
    rw [accept_eq {ensureAccount db a with history := (ensureAccount db a).history.upsert (historyOf (headOf e))}
      a o m request _ bounded row]
    simp only [archive,found,nextAcceptance,responseOf,count,same]

@[simp] theorem archive_objects (db : ServerDb) (a o : String) : (archive db a o).objects = db.objects := by
  unfold archive; split <;> rfl
@[simp] theorem archive_sequences (db : ServerDb) (a o : String) : (archive db a o).sequences = db.sequences := by
  unfold archive; split <;> rfl
@[simp] theorem archive_processed (db : ServerDb) (a o : String) : (archive db a o).processed = db.processed := by
  unfold archive; split <;> rfl

theorem settle_head (rep : Represents crates log db) (a o m : String) (request : PushRequest) (b p : String) :
    (settle crates (archive db a o) (nextAcceptance log a o m request)).objects.find (b,p) =
      (ofObject (log ++ [nextAcceptance log a o m request]) b p).getLast?.map headOf := by
  rw [ofObject_append]
  simp only [settle,archive_objects,find_upsert]
  by_cases same : a = b ∧ o = p
  · obtain ⟨rfl,rfl⟩ := same
    simp [headOf,nextAcceptance]
  · have apart : ¬((headOf (nextAcceptance log a o m request)).accountId,(headOf (nextAcceptance log a o m request)).objectId) = (b,p) := by
      simpa [headOf,nextAcceptance] using same
    rw [if_neg apart,rep.head]
    simp [nextAcceptance,same]

theorem archive_history (rep : Represents crates log db) (a o b p : String) :
    (archive db a o).history.rows.filter (fun r => r.accountId = b ∧ r.objectId = p) =
      (ofObject log b p).dropLast.map (fun e => historyOf (headOf e)) ++
        if a = b ∧ o = p then ((ofObject log a o).getLast?.map (fun e => historyOf (headOf e))).toList else [] := by
  unfold archive
  rw [rep.head]
  cases last : (ofObject log a o).getLast? with
  | none => simpa using rep.history b p
  | some e =>
      have owner := last_mem last
      have rows := upsert_fresh_rows (history_free rep last)
      simp only [Option.map_some,rows,List.filter_append,rep.history b p]
      congr 1
      by_cases same : a = b ∧ o = p
      · simp [same,historyOf,headOf,owner.2.1,owner.2.2]
      · have apart : ¬(e.accountId = b ∧ e.objectId = p) := by rwa [owner.2.1,owner.2.2]
        simp [same,historyOf,headOf,apart]

theorem settle_history (rep : Represents crates log db) (a o m : String) (request : PushRequest) (b p : String) :
    (settle crates (archive db a o) (nextAcceptance log a o m request)).history.rows.filter
        (fun r => r.accountId = b ∧ r.objectId = p) =
      (ofObject (log ++ [nextAcceptance log a o m request]) b p).dropLast.map (fun e => historyOf (headOf e)) := by
  rw [ofObject_append]
  simp only [settle,ensure_history,archive_history rep]
  by_cases same : a = b ∧ o = p
  · obtain ⟨rfl,rfl⟩ := same
    simp only [nextAcceptance,and_self,if_true,List.dropLast_concat]
    -- the list is its all-but-last part followed by its last element
    cases last : (ofObject log a o).getLast? with
    | none =>
        rw [List.getLast?_eq_none_iff] at last
        simp [last]
    | some e =>
        have split := List.dropLast_append_getLast? e last
        conv_rhs => rw [← split]
        simp
  · simp [nextAcceptance,same]

theorem settle_revisions (rep : Represents crates log db) (a o m : String) (request : PushRequest) (b p : String) :
    (ofObject (log ++ [nextAcceptance log a o m request]) b p).map (·.revision) =
      List.range' 1 (ofObject (log ++ [nextAcceptance log a o m request]) b p).length := by
  rw [ofObject_append]
  by_cases same : a = b ∧ o = p
  · obtain ⟨rfl,rfl⟩ := same
    simp only [nextAcceptance,and_self,if_true,List.map_append,List.map_cons,List.map_nil,List.length_append,
      List.length_cons,List.length_nil,rep.revisions,headRevision]
    rw [List.range'_1_concat,Nat.add_comm 1]
  · simpa [nextAcceptance,same] using rep.revisions b p

theorem settle_seqs (rep : Represents crates log db) (a o m : String) (request : PushRequest) (b : String) :
    (ofAccount (log ++ [nextAcceptance log a o m request]) b).map (·.seq) =
      List.range' 1 (ofAccount (log ++ [nextAcceptance log a o m request]) b).length := by
  rw [ofAccount_append]
  by_cases same : a = b
  · subst same
    simp only [nextAcceptance,if_true,List.map_append,List.map_cons,List.map_nil,List.length_append,
      List.length_cons,List.length_nil,rep.seqs]
    rw [List.range'_1_concat,Nat.add_comm 1]
  · simpa [nextAcceptance,same] using rep.seqs b

theorem settle_sequence (rep : Represents crates log db) (a o m : String) (request : PushRequest) (b : String) :
    currentSequence (settle crates (archive db a o) (nextAcceptance log a o m request)) b =
      (ofAccount (log ++ [nextAcceptance log a o m request]) b).length := by
  rw [ofAccount_append]
  have before := rep.sequence b
  by_cases same : a = b
  · subst same
    simp [currentSequence,settle,nextAcceptance]
  · simpa [currentSequence,settle,find_upsert,nextAcceptance,same] using before

theorem settle_processed (rep : Represents crates log db) (fresh : ofMutation log a m = none) (o : String)
    (request : PushRequest) (b n : String) :
    (settle crates (archive db a o) (nextAcceptance log a o m request)).processed.find (b,n) =
      (ofMutation (log ++ [nextAcceptance log a o m request]) b n).map (processedOf crates) := by
  rw [ofMutation_append]
  simp only [settle,archive_processed,find_upsert]
  by_cases same : a = b ∧ m = n
  · obtain ⟨rfl,rfl⟩ := same
    simp [processedOf,nextAcceptance,fresh]
  · have apart : ¬((processedOf crates (nextAcceptance log a o m request)).accountId,
        (processedOf crates (nextAcceptance log a o m request)).mutationId) = (b,n) := by
      simpa [processedOf,nextAcceptance] using same
    rw [if_neg apart,rep.processed]
    simp [nextAcceptance,same]

theorem ofMutation_none : ofMutation log a m = none ↔ (a,m) ∉ log.map (fun e => (e.accountId,e.mutationId)) := by
  simp [ofMutation,List.find?_eq_none]

theorem settle_ids (rep : Represents crates log db) (fresh : ofMutation log a m = none) (o : String)
    (request : PushRequest) :
    ((log ++ [nextAcceptance log a o m request]).map (fun e => (e.accountId,e.mutationId))).Nodup := by
  rw [List.map_append,List.nodup_append]
  refine ⟨rep.ids,by simp,?_⟩
  intro x before y last equal
  simp only [List.map_cons,List.map_nil,List.mem_singleton,nextAcceptance] at last
  exact ofMutation_none.mp fresh (last ▸ equal ▸ before)

theorem settle_known (rep : Represents crates log db) (o m : String) (request : PushRequest) :
    ∀ e ∈ log ++ [nextAcceptance log a o m request],
      ∃ row, (settle crates (archive db a o) (nextAcceptance log a o m request)).accounts.find e.accountId = some row := by
  have accounts : (archive db a o).accounts = db.accounts := by unfold archive; split <;> rfl
  intro e member
  rcases List.mem_append.mp member with before | last
  · obtain ⟨row,found⟩ := rep.known e before
    exact ensure_known _ _ _ (.inl ⟨_,accounts.symm ▸ found⟩)
  · rw [List.mem_singleton.mp last]
    exact ensure_known _ _ _ (.inr rfl)

theorem settle_parsed (rep : Represents crates log db) (parsed : Parsed crates request o m) :
    ∀ e ∈ log ++ [nextAcceptance log a o m request], Parsed crates e.request e.objectId e.mutationId := by
  intro e member
  rcases List.mem_append.mp member with before | last
  · exact rep.parsed e before
  · rw [List.mem_singleton.mp last]; exact parsed

theorem settle_based (rep : Represents crates log db) (current : request.expectedRevision = headRevision log a o) :
    ∀ e ∈ log ++ [nextAcceptance log a o m request], e.revision = e.request.expectedRevision+1 := by
  intro e member
  rcases List.mem_append.mp member with before | last
  · exact rep.based e before
  · rw [List.mem_singleton.mp last]
    simp only [nextAcceptance,current]

theorem settle_represents (rep : Represents crates log db) (fresh : ofMutation log a m = none)
    (parsed : Parsed crates request o m) (current : request.expectedRevision = headRevision log a o) :
    Represents crates (log ++ [nextAcceptance log a o m request])
      (settle crates (archive (ensureAccount db a) a o) (nextAcceptance log a o m request)) := by
  have ensured := represents_ensured rep a
  exact ⟨settle_head ensured a o m request,settle_history ensured a o m request,settle_revisions rep a o m request,
    settle_sequence ensured a o m request,settle_seqs rep a o m request,settle_processed ensured fresh o request,
    settle_ids rep fresh o request,settle_known ensured o m request,settle_parsed rep parsed,
    settle_based rep current⟩

-- What one call adds to the log: a success that the processed table did not
-- already answer.
def acceptance (crates : Crates) (db : ServerDb) (a : String) (request : PushRequest) : Option Acceptance :=
  match crates.parseUuid request.objectId,crates.parseUuid request.mutationId,(pushMutation crates db a request).1 with
  | .ok o,.ok m,.ok (.success response) =>
    if db.processed.find (a,m) = none then some ⟨a,o,m,request,response.revision,response.serverSeq⟩ else none
  | _,_,_ => none

-- Every end of a call on represented tables.
inductive Ends (crates : Crates) (log : List Acceptance) (db : ServerDb) (a : String) (request : PushRequest) :
    Option Acceptance → Except DbError PushOutcome × ServerDb → Prop where
  | malformed (bad : ∀ o m, ¬Parsed crates request o m) (e : DbError) :
      Ends crates log db a request none (.error e,ensureAccount db a)
  | replayed (parsed : Parsed crates request o m) (old : ofMutation log a m = some e) :
      Ends crates log db a request none
        (.ok (replayOutcome (processedOf crates e) o (computeMutationRequestHash crates request) request),ensureAccount db a)
  | conflicting (parsed : Parsed crates request o m) (fresh : ofMutation log a m = none)
      (last : (ofObject log a o).getLast? = some e) (stale : request.expectedRevision ≠ e.revision) :
      Ends crates log db a request none (.ok (.conflict (conflictWith (headOf e) request)),ensureAccount db a)
  | missing (parsed : Parsed crates request o m) (fresh : ofMutation log a m = none)
      (absent : headRevision log a o = 0) (stale : request.expectedRevision ≠ 0) (message : String) :
      Ends crates log db a request none (.ok (.objectNotFound message),ensureAccount db a)
  | accepted (parsed : Parsed crates request o m) (fresh : ofMutation log a m = none)
      (current : request.expectedRevision = headRevision log a o) :
      Ends crates log db a request (some (nextAcceptance log a o m request))
        (.ok (.success (responseOf (nextAcceptance log a o m request))),
          settle crates (archive (ensureAccount db a) a o) (nextAcceptance log a o m request))

theorem push_malformed_object (db : ServerDb) (a : String) (bad : crates.parseUuid request.objectId = .error e) :
    pushMutation crates db a request = (.error (.invalidUuid s!"invalid object_id: {e}"),ensureAccount db a) := by
  simp only [pushMutation,pushMutationInTx,bad]

theorem push_malformed_mutation (db : ServerDb) (a : String) (good : crates.parseUuid request.objectId = .ok o)
    (bad : crates.parseUuid request.mutationId = .error e) :
    pushMutation crates db a request = (.error (.invalidUuid s!"invalid mutation_id: {e}"),ensureAccount db a) := by
  simp only [pushMutation,pushMutationInTx,good,bad]

theorem push_ends (rep : Represents crates log db) (a : String) (request : PushRequest) :
    Ends crates log db a request (acceptance crates db a request) (pushMutation crates db a request) := by
  cases object : crates.parseUuid request.objectId with
  | error e =>
      have result := push_malformed_object db a object
      have none : acceptance crates db a request = none := by simp [acceptance,object]
      rw [none,result]
      exact .malformed (fun o m parsed => by rw [parsed.object] at object; cases object) _
  | ok o =>
  cases mutation : crates.parseUuid request.mutationId with
  | error e =>
      have result := push_malformed_mutation db a object mutation
      have none : acceptance crates db a request = none := by simp [acceptance,object,mutation]
      rw [none,result]
      exact .malformed (fun o m parsed => by rw [parsed.mutation] at mutation; cases mutation) _
  | ok m =>
  have parsed : Parsed crates request o m := ⟨object,mutation⟩
  cases old : ofMutation log a m with
  | some e =>
      have result := push_replayed rep parsed old
      have held : db.processed.find (a,m) = some (processedOf crates e) := by rw [rep.processed,old]; rfl
      have none : acceptance crates db a request = none := by
        simp only [acceptance,object,mutation,result]
        cases replayOutcome (processedOf crates e) o (computeMutationRequestHash crates request) request <;> simp [held]
      rw [none,result]; exact .replayed parsed old
  | none =>
  by_cases current : request.expectedRevision = headRevision log a o
  · have result := push_accepted rep parsed old current
    have free : db.processed.find (a,m) = none := by rw [rep.processed,old]; rfl
    have some : acceptance crates db a request = some (nextAcceptance log a o m request) := by
      simp only [acceptance,object,mutation,result,free,if_true]; rfl
    rw [some,result]; exact .accepted parsed old current
  · by_cases absent : headRevision log a o = 0
    · have stale : request.expectedRevision ≠ 0 := absent ▸ current
      have result := push_missing rep parsed old (last_none absent) stale
      have none : acceptance crates db a request = none := by simp only [acceptance,object,mutation,result]
      rw [none,result]; exact .missing parsed old absent stale _
    · obtain ⟨e,last⟩ := last_some absent
      have stale : request.expectedRevision ≠ e.revision := by rwa [last_revision rep last]
      have result := push_conflicting rep parsed old last stale
      have none : acceptance crates db a request = none := by simp only [acceptance,object,mutation,result]
      rw [none,result]; exact .conflicting parsed old last stale

-- One call: the log grows by what the call accepted, and the tables follow it.
theorem push_represents (rep : Represents crates log db) (a : String) (request : PushRequest) :
    Represents crates (log ++ (acceptance crates db a request).toList) (pushMutation crates db a request).2 := by
  have ends := push_ends rep a request
  generalize acceptance crates db a request = added at ends ⊢
  generalize pushMutation crates db a request = result at ends ⊢
  cases ends with
  | accepted parsed fresh current => exact settle_represents rep fresh parsed current
  | malformed => simpa using represents_ensured rep a
  | replayed => simpa using represents_ensured rep a
  | conflicting => simpa using represents_ensured rep a
  | missing => simpa using represents_ensured rep a

abbrev Call := String × PushRequest

def pushAll (crates : Crates) : ServerDb → List Call → ServerDb
  | db,[] => db
  | db,(a,request) :: rest => pushAll crates (pushMutation crates db a request).2 rest

def acceptedBy (crates : Crates) : ServerDb → List Call → List Acceptance
  | _,[] => []
  | db,(a,request) :: rest =>
    (acceptance crates db a request).toList ++ acceptedBy crates (pushMutation crates db a request).2 rest

theorem acceptance_call (accepted : acceptance crates db a request = some e) :
    e.accountId = a ∧ e.request = request ∧ crates.parseUuid request.mutationId = .ok e.mutationId := by
  unfold acceptance at accepted
  split at accepted
  · rename_i mutation _
    split at accepted
    · cases accepted
      exact ⟨rfl,rfl,mutation⟩
    · cases accepted
  · cases accepted

theorem accepted_call (inside : e ∈ acceptedBy crates db calls) :
    ∃ call ∈ calls, e.accountId = call.1 ∧ e.request = call.2 ∧ crates.parseUuid call.2.mutationId = .ok e.mutationId := by
  induction calls generalizing db with
  | nil => cases inside
  | cons call rest ih =>
      obtain ⟨a,request⟩ := call
      rw [acceptedBy] at inside
      rcases List.mem_append.mp inside with first | later
      · exact ⟨(a,request),List.mem_cons_self,acceptance_call (Option.mem_toList.mp first)⟩
      · obtain ⟨call,member,facts⟩ := ih later
        exact ⟨call,List.mem_cons_of_mem _ member,facts⟩

theorem pushAll_represents (rep : Represents crates log db) (calls : List Call) :
    Represents crates (log ++ acceptedBy crates db calls) (pushAll crates db calls) := by
  induction calls generalizing db log with
  | nil => simpa [acceptedBy,pushAll] using rep
  | cons call rest ih =>
      obtain ⟨a,request⟩ := call
      have next := ih (push_represents rep a request)
      simpa [acceptedBy,pushAll,List.append_assoc] using next

theorem reached_represents (calls : List Call) :
    Represents crates (acceptedBy crates .newInMemory calls) (pushAll crates .newInMemory calls) := by
  simpa using pushAll_represents initial_represents calls

theorem history_listing (rep : Represents crates log db) (a o : String) :
    getObjectHistory db a o = (ofObject log a o).dropLast.map (fun e => historyOf (headOf e)) := by
  have sorted : ((ofObject log a o).dropLast.map (fun e => historyOf (headOf e))).Pairwise (fun x y => x.revision ≤ y.revision) := by
    rw [List.pairwise_map]
    have increasing : ((ofObject log a o).map (·.revision)).Pairwise (· < ·) := by
      rw [rep.revisions]; exact List.pairwise_lt_range'
    rw [List.pairwise_map] at increasing
    exact (increasing.sublist (List.dropLast_sublist _)).imp Nat.le_of_lt
  unfold getObjectHistory
  rw [rep.history]
  exact sorted.insertionSort_eq

theorem unaccepted_tables (rep : Represents crates log db) (none : acceptance crates db a request = none) :
    (pushMutation crates db a request).2 = ensureAccount db a := by
  have ends := push_ends rep a request
  rw [none] at ends
  generalize pushMutation crates db a request = result at ends ⊢
  cases ends <;> rfl

-- A call leaves the tables alone unless it is answered with a success for a
-- mutation id that is not on record.
theorem unsettled_none (rep : Represents crates log db) (a : String) (request : PushRequest)
    (unsettled : (∀ response, (pushMutation crates db a request).1 ≠ .ok (.success response)) ∨
      ∃ m row, crates.parseUuid request.mutationId = .ok m ∧ db.processed.find (a,m) = some row) :
    acceptance crates db a request = none := by
  have ends := push_ends rep a request
  generalize acceptance crates db a request = added at ends ⊢
  generalize pushMutation crates db a request = result at ends unsettled
  cases ends with
  | accepted parsed fresh current =>
      rcases unsettled with failed | ⟨m,row,parsedAs,held⟩
      · exact absurd rfl (failed _)
      · have same := parsed.mutation.symm.trans parsedAs
        cases Except.ok.inj same
        rw [rep.processed,fresh] at held
        cases held
  | malformed => rfl
  | replayed => rfl
  | conflicting => rfl
  | missing => rfl

theorem cas_history (crates : Crates) (calls : List Call) :
    let db := pushAll crates .newInMemory calls
    let log := acceptedBy crates .newInMemory calls
    (∀ a o, (ofObject log a o).map (·.revision) = List.range' 1 (ofObject log a o).length) ∧
    (∀ a o, getObjectHistory db a o = (ofObject log a o).dropLast.map (fun e => historyOf (headOf e))) ∧
    (∀ a o, getEncryptedObject db a o = (ofObject log a o).getLast?.map headOf) ∧
    (∀ a, ((ofAccount log a).map (·.seq)).Pairwise (· < ·) ∧ currentSequence db a = (ofAccount log a).length) ∧
    (∀ a request,
      (∀ response, (pushMutation crates db a request).1 ≠ .ok (.success response)) ∨
        (∃ m row, crates.parseUuid request.mutationId = .ok m ∧ db.processed.find (a,m) = some row) →
      (pushMutation crates db a request).2.objects = db.objects ∧
      (pushMutation crates db a request).2.history = db.history ∧
      (pushMutation crates db a request).2.sequences = db.sequences) := by
  intro db log
  have rep : Represents crates log db := reached_represents calls
  refine ⟨rep.revisions,history_listing rep,rep.head,?_,?_⟩
  · intro a
    refine ⟨?_,rep.sequence a⟩
    rw [rep.seqs]
    exact List.pairwise_lt_range'
  · intro a request unsettled
    have none := unsettled_none rep a request unsettled
    rw [unaccepted_tables rep none]
    simp

theorem logged_mutation (rep : Represents crates log db) (member : e ∈ log) :
    ofMutation log e.accountId e.mutationId = some e := by
  cases found : ofMutation log e.accountId e.mutationId with
  | none => exact absurd (List.mem_map_of_mem member) (ofMutation_none.mp found)
  | some other =>
      obtain ⟨inside,account,mutation⟩ := ofMutation_mem found
      have same := List.inj_on_of_nodup_map rep.ids inside member (by rw [account,mutation])
      rw [same]

-- Whatever is sent under an id on record, every table stays as it was.
theorem recorded_id_frames (rep : Represents crates log db) (member : e ∈ log)
    (same : crates.parseUuid request.mutationId = .ok e.mutationId) :
    (pushMutation crates db e.accountId request).2 = db := by
  obtain ⟨row,known⟩ := rep.known e member
  have held : db.processed.find (e.accountId,e.mutationId) = some (processedOf crates e) := by
    rw [rep.processed,logged_mutation rep member]; rfl
  have none := unsettled_none rep e.accountId request (.inr ⟨e.mutationId,_,same,held⟩)
  rw [unaccepted_tables rep none,ensure_noop known]

theorem replay_same (crates : Crates) (e : Acceptance) :
    replayOutcome (processedOf crates e) e.objectId (computeMutationRequestHash crates e.request) e.request =
      .success (responseOf e) := by
  simp [replayOutcome,processedOf]

theorem replay_success (answered : replayOutcome (processedOf crates e) o digest request = .success response) :
    e.objectId = o ∧ computeMutationRequestHash crates e.request = digest ∧ response = responseOf e := by
  unfold replayOutcome at answered
  split at answered
  · cases answered
  · rename_i object
    simp only [processedOf] at object answered
    split at answered
    · cases answered
    · rename_i sameHash
      exact ⟨not_not.mp object,not_not.mp sameHash,(PushOutcome.success.inj answered).symm⟩

theorem idempotent_retry (crates : Crates) (calls : List Call) (a : String) :
    let db := pushAll crates .newInMemory calls
    let log := acceptedBy crates .newInMemory calls
    ((ofAccount log a).map (·.mutationId)).Nodup ∧
    (∀ e ∈ ofAccount log a,
      pushMutation crates db a e.request = (.ok (.success (responseOf e)),db)) ∧
    (∀ e ∈ ofAccount log a, ∀ request, crates.parseUuid request.mutationId = .ok e.mutationId →
      (crates.parseUuid request.objectId ≠ .ok e.objectId ∨
        computeMutationRequestHash crates request ≠ computeMutationRequestHash crates e.request) →
      (pushMutation crates db a request).2 = db ∧
        ∀ response, (pushMutation crates db a request).1 ≠ .ok (.success response)) := by
  intro db log
  have rep : Represents crates log db := reached_represents calls
  refine ⟨?_,?_,?_⟩
  · have pairs : ((ofAccount log a).map (fun e => (e.accountId,e.mutationId))).Nodup :=
      rep.ids.sublist (List.filter_sublist.map _)
    apply List.Nodup.of_map (fun m => (a,m))
    rw [List.map_map]
    convert pairs using 1
    apply List.map_congr_left
    intro e member
    simp [(mem_ofAccount.mp member).2]
  · intro e member
    obtain ⟨inside,rfl⟩ := mem_ofAccount.mp member
    obtain ⟨row,known⟩ := rep.known e inside
    rw [push_replayed rep (rep.parsed e inside) (logged_mutation rep inside),ensure_noop known,replay_same]
  · intro e member request same differs
    obtain ⟨inside,rfl⟩ := mem_ofAccount.mp member
    refine ⟨recorded_id_frames rep inside same,?_⟩
    intro response answered
    cases object : crates.parseUuid request.objectId with
    | error message =>
        rw [push_malformed_object _ _ object] at answered
        cases answered
    | ok o =>
        rw [push_replayed rep ⟨object,same⟩ (logged_mutation rep inside)] at answered
        obtain ⟨sameObject,sameHash,_⟩ := replay_success (Except.ok.inj answered)
        rcases differs with other | other
        · exact other (by rw [object,sameObject])
        · exact other sameHash.symm

end ZkNote.ServerHistory
