import ZkNote.PushChanges

namespace ZkNote.PushSteps
open Protocol Adapter KeyedTable LocalStorage MutationQueue Conflict PushChanges

variable {World Key Note : Type} {s t : Storage} {row m : PendingMutation}

-- The queue as the server will see it. Statuses and retry counts are not part
-- of a request, so everything but an acceptance leaves this list alone.
def requests (s : Storage) : List PushRequest := s.mutations.rows.map requestOf

def marked (row : PendingMutation) (status : MutationStatus) (retries : UInt32) : PendingMutation :=
  {row with status := status,retryCount := retries}

def restatus (s : Storage) (row : PendingMutation) (status : MutationStatus) (retries : UInt32) : Storage :=
  {s with mutations := s.mutations.upsert (marked row status retries)}

-- What an acknowledgement leaves behind.
def accept (s : Storage) (row : PendingMutation) (resp : PushResponse) (now : String) : Storage :=
  ((s.putObject
    ⟨row.objectId,row.objectKind,resp.revision,resp.serverSeq,decide (row.mutationType = .delete),row.envelope,now⟩).removeMutation
      row.mutationId).pruneBaseVersions row.objectId resp.revision

theorem mark_row (found : s.getMutation mutationId = some row) (status : MutationStatus) (retries : UInt32 → UInt32) :
    mark status retries s mutationId = .ok (restatus s row status (retries row.retryCount)) := by
  have held : s.mutations.find mutationId = some row := found
  simp [mark,Storage.getMutation,Storage.updateMutationStatus,held,restatus,marked]

theorem restatus_found (found : s.getMutation mutationId = some row) (status : MutationStatus) (retries : UInt32) :
    (restatus s row status retries).getMutation mutationId = some (marked row status retries) := by
  have own : row.mutationId = mutationId := find_key found
  have held := find_upsert_same s.mutations (marked row status retries)
  rw [← own]
  exact held

theorem restatus_twice (found : s.getMutation row.mutationId = some row) (one two : MutationStatus) (a b : UInt32) :
    restatus (restatus s row one a) (marked row one a) two b = restatus s row two b := by
  simp only [restatus]
  rw [upsert_twice (t := s.mutations) (r := marked row one a) (q := marked (marked row one a) two b) found rfl]
  rfl

theorem requests_restatus (found : s.getMutation row.mutationId = some row) (status : MutationStatus) (retries : UInt32) :
    requests (restatus s row status retries) = requests s :=
  upsert_held_map (t := s.mutations) (r := marked row status retries) found requestOf rfl

theorem accept_restatus (found : s.getMutation row.mutationId = some row) (status : MutationStatus) (retries : UInt32)
    (resp : PushResponse) (now : String) :
    accept (restatus s row status retries) (marked row status retries) resp now = accept s row resp now := by
  simp only [accept,restatus,Storage.putObject,Storage.removeMutation,Storage.pruneBaseVersions]
  rw [delete_upsert (t := s.mutations) (r := marked row status retries) found _ (by simp)]
  rfl

theorem requests_accept (s : Storage) (row : PendingMutation) (resp : PushResponse) (now : String) :
    requests (accept s row resp now) = (requests s).filter (fun r => r.mutationId ≠ row.mutationId) := by
  simp only [requests,accept,Storage.putObject,Storage.removeMutation,Storage.pruneBaseVersions,Table.delete,
    List.filter_map]
  congr 1
  apply List.filter_congr
  intro x _
  by_cases same : x.mutationId = row.mutationId <;> simp [requestOf,same]

theorem mem_restatus (status : MutationStatus) (retries : UInt32) :
    m ∈ (restatus s row status retries).mutations.rows ↔
      m = marked row status retries ∨ m ∈ s.mutations.rows ∧ m.mutationId ≠ row.mutationId :=
  mem_upsert (t := s.mutations)

theorem mem_accept (resp : PushResponse) (now : String) :
    m ∈ (accept s row resp now).mutations.rows ↔ m ∈ s.mutations.rows ∧ m.mutationId ≠ row.mutationId := by
  simp only [accept,Storage.putObject,Storage.removeMutation,Storage.pruneBaseVersions,mem_delete,decide_eq_false_iff_not]

-- Every end of one attempt at a queued row, where no conflict is resolved by
-- the guarded policy.
inductive Outcome (options : PushOptions Key) (s : Storage) (row : PendingMutation) :
    Except SyncNetworkError PushResponse → Storage → Flow → Prop where
  | accepted (resp : PushResponse) (now : String) : Outcome options s row (.ok resp) (accept s row resp now) .next
  | conflicting (conflict : ConflictResponse) (retries : UInt32) (record : ConflictRecord)
      (object : record.objectId = row.objectId) (unresolved : record.resolved = false) :
      Outcome options s row (.error (.conflict conflict)) ((restatus s row .pending retries).putConflict record)
        (if options.stopOnConflict then .stop else .next)
  | unrecorded (conflict : ConflictResponse) (retries : UInt32) (e : StorageError) (keyed : options.vaultKey ≠ none) :
      Outcome options s row (.error (.conflict conflict)) (restatus s row .pending retries) (.abort (.storage e))
  | transient (retries : UInt32) (passing : e.isTransient = true) :
      Outcome options s row (.error e) (restatus s row .pending retries) .next
  | fatal (retries : UInt32) (lasting : e.isTransient = false) (other : ∀ conflict, e ≠ .conflict conflict) :
      Outcome options s row (.error e) (restatus s row .failed retries) (.abort (.network e))

def Calm (options : PushOptions Key) (answer : Except SyncNetworkError PushResponse) : Prop :=
  options.conflictPolicy = .manual ∨ ∀ conflict, answer ≠ .error (.conflict conflict)

theorem record_conflict_cases {codec : NoteCodec Key Note}
    (done : recordConflict codec vaultKey tick s item = .ok (record,t)) :
    t = s.putConflict record ∧ record.objectId = item.mutation.objectId ∧ record.resolved = false := by
  unfold recordConflict at done
  simp only at done
  split at done
  · cases done
  · cases done
    exact ⟨rfl,rfl,rfl⟩

theorem record_conflict_keyless (codec : NoteCodec Key Note) (tick : Tick) (s : Storage) (item : PushItemConflict) (keyless : vaultKey = none) :
    ∃ record t, recordConflict codec vaultKey tick s item = .ok (record,t) := by
  subst keyless
  unfold recordConflict
  simp only [ite_self]
  exact ⟨_,_,rfl⟩

theorem settle_outcome {codec : NoteCodec Key Note} {options : PushOptions Key}
    (found : s.getMutation row.mutationId = some row) (retries : UInt32) (answer : Except SyncNetworkError PushResponse)
    (calm : Calm options answer)
    (settled : settlePush codec options tick row (restatus s row .inFlight retries) report answer = (t,report',flow)) :
    report'.totalAttempted = report.totalAttempted ∧ Outcome options s row answer t flow := by
  have held := restatus_found found .inFlight retries
  have pending : markPending (restatus s row .inFlight retries) row.mutationId = .ok (restatus s row .pending retries) := by
    rw [markPending,mark_row held,restatus_twice found]; rfl
  have failed : markFailed (restatus s row .inFlight retries) row.mutationId = .ok (restatus s row .failed retries) := by
    rw [markFailed,mark_row held,restatus_twice found]; rfl
  cases answer with
  | ok resp =>
      simp only [settlePush,acknowledgeAccepted,held,Prod.mk.injEq] at settled
      obtain ⟨rfl,rfl,rfl⟩ := settled
      refine ⟨rfl,?_⟩
      change Outcome options s row (.ok resp) (accept (restatus s row .inFlight retries) (marked row .inFlight retries) resp tick.now) .next
      rw [accept_restatus found]
      exact .accepted resp tick.now
  | error e =>
      cases e with
      | conflict conflict =>
          have manual : options.conflictPolicy = .manual := calm.resolve_right (fun other => other conflict rfl)
          simp only [settlePush,manual,reduceCtorEq,false_and,if_false,pending,orKeep] at settled
          split at settled
          · rename_i failure
            cases settled
            refine ⟨rfl,.unrecorded conflict retries _ ?_⟩
            intro keyless
            obtain ⟨_,_,recorded⟩ := record_conflict_keyless codec tick
              (restatus s row .pending retries) ⟨row,conflict⟩ keyless
            rw [recorded] at failure
            cases failure
          · rename_i record after recorded
            obtain ⟨rfl,object,unresolved⟩ := record_conflict_cases recorded
            cases settled
            exact ⟨rfl,.conflicting conflict retries record object unresolved⟩
      | connectionFailed message =>
          simp only [settlePush,SyncNetworkError.isTransient,if_true,pending,orKeep] at settled
          cases settled
          exact ⟨rfl,.transient retries rfl⟩
      | serverError status message =>
          simp only [settlePush,SyncNetworkError.isTransient,if_true,pending,orKeep] at settled
          cases settled
          exact ⟨rfl,.transient retries rfl⟩
      | _ =>
          simp only [settlePush,SyncNetworkError.isTransient,if_false,failed,orKeep,Bool.false_eq_true] at settled
          cases settled
          exact ⟨rfl,.fatal retries rfl (by simp)⟩

theorem attempt_outcome {adapter : SyncServerAdapter World} {codec : NoteCodec Key Note} {options : PushOptions Key}
    (calm : Calm options (adapter.pushMutation (requestOf row) w).1) (found : s.getMutation row.mutationId = some row)
    (ran : attempt adapter codec options tick row w s report = (w',t,report',flow)) :
    w' = (adapter.pushMutation (requestOf row) w).2 ∧ report'.totalAttempted = report.totalAttempted+1 ∧
      Outcome options s row (adapter.pushMutation (requestOf row) w).1 t flow := by
  have inFlight : markInFlight s row.mutationId = .ok (restatus s row .inFlight (saturatingSucc row.retryCount)) :=
    mark_row found _ _
  simp only [attempt,inFlight,Prod.mk.injEq] at ran
  obtain ⟨rfl,settled⟩ := ran
  exact ⟨rfl,settle_outcome found _ _ calm settled⟩

-- The part of the snapshot still to come is in the queue as it was listed.
structure Listed (rest : List PendingMutation) (s : Storage) : Prop where
  distinct : (rest.map (·.mutationId)).Nodup
  present : ∀ m ∈ rest, s.getMutation m.mutationId = some m

theorem listed_start (s : Storage) : Listed s.listPendingMutations s := by
  refine ⟨pending_ids_nodup s,?_⟩
  intro m inside
  exact mem_iff_find.mp ((mem_pending s m).mp inside)

theorem restatus_other (other : m.mutationId ≠ row.mutationId) (status : MutationStatus) (retries : UInt32) :
    (restatus s row status retries).getMutation m.mutationId = s.getMutation m.mutationId :=
  find_upsert_other s.mutations (marked row status retries) (Ne.symm other)

theorem accept_other (other : m.mutationId ≠ row.mutationId) (found : s.getMutation m.mutationId = some m)
    (resp : PushResponse) (now : String) : (accept s row resp now).getMutation m.mutationId = some m := by
  have held : s.mutations.find m.mutationId = some m := found
  change (s.mutations.delete _).find m.mutationId = some m
  rw [find_delete,held]
  simp [Option.filter,other]

-- An attempt touches its own row only.
theorem outcome_other {options : PushOptions Key} (outcome : Outcome options s row answer t flow) (other : m.mutationId ≠ row.mutationId)
    (found : s.getMutation m.mutationId = some m) : t.getMutation m.mutationId = some m := by
  cases outcome with
  | accepted resp now => exact accept_other other found resp now
  | conflicting => exact (restatus_other other _ _).trans found
  | unrecorded => exact (restatus_other other _ _).trans found
  | transient => exact (restatus_other other _ _).trans found
  | fatal => exact (restatus_other other _ _).trans found

theorem listed_next {options : PushOptions Key} (listed : Listed (row :: rest) s)
    (outcome : Outcome options s row answer t flow) : Listed rest t := by
  obtain ⟨distinct,present⟩ := listed
  simp only [List.map_cons,List.nodup_cons] at distinct
  refine ⟨distinct.2,?_⟩
  intro m inside
  have other : m.mutationId ≠ row.mutationId := fun same => distinct.1 (same ▸ List.mem_map_of_mem inside)
  exact outcome_other outcome other (present m (List.mem_cons_of_mem _ inside))

theorem listed_tail (listed : Listed (row :: rest) s) : Listed rest s := by
  refine ⟨?_,fun m inside => listed.present m (List.mem_cons_of_mem _ inside)⟩
  have distinct := listed.distinct
  simp only [List.map_cons,List.nodup_cons] at distinct
  exact distinct.2

def Full (options : PushOptions Key) (attempted : Nat) : Prop :=
  options.maxMutations.any (fun most => decide (most ≤ attempted)) = true

-- The loop, once: what every turn keeps holds at its end.
theorem push_loop_rule {adapter : SyncServerAdapter World} {codec : NoteCodec Key Note} {options : PushOptions Key}
    {ticks : Nat → Tick} (Inv : List PendingMutation → World → Storage → Nat → Prop) (Post : World → Storage → Prop)
    (done : ∀ rest w s n, Inv rest w s n → rest = [] ∨ Full options n → Post w s)
    (skip : ∀ row rest w s n, Inv (row :: rest) w s n → ready row = false → Inv rest w s n)
    (calm : ∀ row rest w s n, Inv (row :: rest) w s n → ready row = true → ¬Full options n → Listed (row :: rest) s →
      Calm options (adapter.pushMutation (requestOf row) w).1)
    (turn : ∀ row rest w s n t flow, Inv (row :: rest) w s n → ready row = true → ¬Full options n →
      Listed (row :: rest) s → s.getMutation row.mutationId = some row →
      Outcome options s row (adapter.pushMutation (requestOf row) w).1 t flow →
      (flow = .next → Inv rest (adapter.pushMutation (requestOf row) w).2 t (n+1)) ∧
      (flow ≠ .next → Post (adapter.pushMutation (requestOf row) w).2 t))
    (listed : Listed list s) (start : Inv list w s report.totalAttempted)
    (ran : pushLoop adapter codec options ticks list w s report = (w',t,result)) : Post w' t := by
  induction list generalizing w s report with
  | nil =>
      cases ran
      exact done _ _ _ _ start (.inl rfl)
  | cons row rest ih =>
      unfold pushLoop at ran
      split at ran
      · rename_i full
        cases ran
        exact done _ _ _ _ start (.inr full)
      · rename_i room
        split at ran
        · rename_i able
          have found := listed.present row List.mem_cons_self
          split at ran
          · rename_i w₁ s₁ report₁ attempted
            obtain ⟨rfl,count,outcome⟩ := attempt_outcome (calm row rest w s _ start able room listed) found attempted
            have kept := (turn row rest w s _ _ _ start able room listed found outcome).1 rfl
            exact ih (listed_next listed outcome) (count ▸ kept) ran
          · rename_i w₁ s₁ report₁ attempted
            obtain ⟨rfl,_,outcome⟩ := attempt_outcome (calm row rest w s _ start able room listed) found attempted
            cases ran
            exact (turn row rest w s _ _ _ start able room listed found outcome).2 (by simp)
          · rename_i w₁ s₁ report₁ e attempted
            obtain ⟨rfl,_,outcome⟩ := attempt_outcome (calm row rest w s _ start able room listed) found attempted
            cases ran
            exact (turn row rest w s _ _ _ start able room listed found outcome).2 (by simp)
        · rename_i unable
          exact ih (listed_tail listed) (skip row rest w s _ start (by simpa using unable)) ran

end ZkNote.PushSteps
