import ZkNote.MergeBases
import ZkNote.NoteEdits
import ZkNote.PullComplete
import ZkNote.Runs

namespace ZkNote.PurgedNotes
open Protocol Adapter KeyedTable ServerStore ServerHistory ServerPages ServerRoutes SyncLink LocalStorage MutationQueue Conflict
open PullChanges PullRules PushChanges PushSteps Orchestrator CycleSteps Notes NoteEdits Runs

variable {crates : Crates} {account o : String} {Key Note : Type} {codec : NoteCodec Key Note} {key : Key} {c sent : Nat} {spared : Prop}
variable {s t u : Storage} {l l' : Link} {db : ServerDb}

-- The id of a request is a note's if the server reads it as that note's.
def Names (crates : Crates) (o id : String) : Prop := id = o ∨ crates.parseUuid id = .ok o

instance (crates : Crates) (o id : String) : Decidable (Names crates o id) :=
  inferInstanceAs (Decidable (id = o ∨ crates.parseUuid id = .ok o))

-- What a device and the clients around it do after the purge.
inductive Event (Key : Type) where
  | edit (command : Command)
  | remote (calls : List Call)
  | cycle (call : CycleCall Key) (schedule : List Slot)

def Event.run (crates : Crates) (account : String) (codec : NoteCodec Key Note) (key : Key) :
    Event Key → Link × Storage → Option (Link × Storage)
  | .edit command,(l,s) => some (l,command.run codec key s)
  | .remote calls,(l,s) => some ({l with db := pushAll crates l.db calls},s)
  | .cycle call schedule,(l,s) =>
    (runSyncCycle (honest crates account) codec call.vaultKey call.options call.draws {l with schedule := schedule} s).map
      (fun out => (out.1,out.2.1))

-- Other clients of the account leave the note alone.
def Elsewhere (crates : Crates) (account o : String) (calls : List Call) : Prop :=
  ∀ call ∈ calls, call.1 = account → crates.parseUuid call.2.objectId ≠ .ok o

instance (crates : Crates) (account o : String) (calls : List Call) : Decidable (Elsewhere crates account o calls) :=
  inferInstanceAs (Decidable (∀ call ∈ calls, call.1 = account → crates.parseUuid call.2.objectId ≠ .ok o))

-- Edits draw new mutation ids and are edits of other notes.
def Event.Aside (crates : Crates) (o : String) (codec : NoteCodec Key Note) (key : Key) : Event Key → Link × Storage → Prop
  | .edit command,(_,s) => s.getMutation command.draw.mutationId = none ∧
    ∀ m ∈ (command.run codec key s).mutations.rows, m ∈ s.mutations.rows ∨ ¬Names crates o m.objectId
  | _,_ => True

def Event.Spares (crates : Crates) (account o : String) : Event Key → Prop
  | .edit _ => True
  | .remote calls => Elsewhere crates account o calls
  | .cycle _ schedule => ∀ slot ∈ schedule, Elsewhere crates account o slot.others

instance (crates : Crates) (o : String) (codec : NoteCodec Key Note) (key : Key) (event : Event Key) (state : Link × Storage) :
    Decidable (event.Aside crates o codec key state) :=
  match event,state with
  | .edit command,(_,s) => inferInstanceAs (Decidable (s.getMutation command.draw.mutationId = none ∧
      ∀ m ∈ (command.run codec key s).mutations.rows, m ∈ s.mutations.rows ∨ ¬Names crates o m.objectId))
  | .remote _,_ => inferInstanceAs (Decidable True)
  | .cycle _ _,_ => inferInstanceAs (Decidable True)

instance (crates : Crates) (account o : String) (event : Event Key) : Decidable (event.Spares crates account o) :=
  match event with
  | .edit _ => inferInstanceAs (Decidable True)
  | .remote calls => inferInstanceAs (Decidable (Elsewhere crates account o calls))
  | .cycle _ schedule => inferInstanceAs (Decidable (∀ slot ∈ schedule, Elsewhere crates account o slot.others))

-- No push for the note among those after the first `sent`.
def Unsent (crates : Crates) (o : String) (sent : Nat) (l : Link) : Prop :=
  ∀ x ∈ l.pushes.drop sent, ¬Names crates o x.request.objectId

-- Purged for good: no push for the note is ever sent, and where no other client
-- changes it, it is never stored again.
def Final (crates : Crates) (account : String) (codec : NoteCodec Key Note) (key : Key) (o : String) (start : Link × Storage) : Prop :=
  ∀ events state, Along (Event.run crates account codec key) (Event.Aside crates o codec key) events start →
    runAll (Event.run crates account codec key) events start = some state →
    Unsent crates o start.1.pushes.length state.1 ∧
    ((∀ event ∈ events, event.Spares crates account o) → state.2.getObject o = none)

-- Nothing of the note waits to be sent, and what the server holds of it lies
-- at or behind the cursor.
structure Settled (crates : Crates) (account o : String) (l : Link) (s : Storage) : Prop where
  queue : ∀ m ∈ s.mutations.rows, Names crates o m.objectId → ready m = false
  pulled : ∀ r, l.db.objects.find (account,o) = some r → r.serverSeq ≤ currentCursor s

instance (crates : Crates) (account o : String) (l : Link) (s : Storage) : Decidable (Settled crates account o l s) :=
  decidable_of_iff ((∀ m ∈ s.mutations.rows, Names crates o m.objectId → ready m = false) ∧
      ∀ r ∈ l.db.objects.find (account,o), r.serverSeq ≤ currentCursor s)
    ⟨fun ⟨queue,pulled⟩ => ⟨queue,pulled⟩,fun settled => ⟨settled.queue,settled.pulled⟩⟩

-- The server's row of the note under the requests of others.
theorem allocate_objects (db : ServerDb) (a : String) : (allocateSequenceInTx db a).2.objects = db.objects := by
  rw [allocate_eq]
  exact ensure_objects db a

theorem accept_elsewhere {next : ServerDb} {a p m : String} {request : PushRequest} {revision : Nat} {outcome : PushOutcome}
    (other : (a,p) ≠ (account,o)) (accepted : acceptInTx crates db a p m request revision = .ok (outcome,next)) :
    next.objects.find (account,o) = db.objects.find (account,o) := by
  obtain ⟨row,full,_,processed,home,named,written,_,_,rfl⟩ := accept_cases accepted
  have apart : (row.accountId,row.objectId) ≠ (account,o) := by rwa [home,named]
  show full.objects.find (account,o) = _
  rw [write_cases written,← allocate_objects db a]
  exact find_upsert_other _ row apart

theorem tx_elsewhere {next : ServerDb} {a : String} {request : PushRequest} {outcome : PushOutcome}
    (other : a = account → crates.parseUuid request.objectId ≠ .ok o)
    (ran : pushMutationInTx crates db a request = .ok (outcome,next)) :
    next.objects.find (account,o) = db.objects.find (account,o) := by
  rcases tx_cases ran with rfl | ⟨p,m,revision,history,read,_,accepted⟩
  · rfl
  have apart : (a,p) ≠ (account,o) := by
    intro same
    cases same
    exact other rfl read
  -- the history row is written before the head
  have kept := accept_elsewhere apart accepted
  exact kept

theorem push_elsewhere (db : ServerDb) {a : String} {request : PushRequest}
    (other : a = account → crates.parseUuid request.objectId ≠ .ok o) :
    (pushMutation crates db a request).2.objects.find (account,o) = db.objects.find (account,o) := by
  have ensured : (ServerStore.ensureAccount db a).objects.find (account,o) = db.objects.find (account,o) := by rw [ensure_objects]
  unfold pushMutation
  simp only
  split
  · exact ensured
  · rename_i ran
    rw [tx_elsewhere other ran]
    exact ensured
  · exact ensured

theorem handler_elsewhere (db : ServerDb) {a : String} {request : PushRequest}
    (other : a = account → crates.parseUuid request.objectId ≠ .ok o) :
    (pushMutationHandler crates db a request).2.objects.find (account,o) = db.objects.find (account,o) := by
  unfold pushMutationHandler
  split
  · rfl
  · exact push_elsewhere db other

theorem push_all_elsewhere (calls : List Call) (db : ServerDb) (elsewhere : Elsewhere crates account o calls) :
    (pushAll crates db calls).objects.find (account,o) = db.objects.find (account,o) := by
  induction calls generalizing db with
  | nil => rfl
  | cons call rest ih =>
      obtain ⟨first,later⟩ := List.forall_mem_cons.mp elsewhere
      have stepped : (pushAll crates db (call :: rest)).objects.find (account,o) =
          (pushMutation crates db call.1 call.2).2.objects.find (account,o) := ih _ later
      rw [stepped]
      exact push_elsewhere db first

-- The link since the purge: no push for the note was sent, and if the others
-- spare it, the server's row of it is at or behind the cursor of then.
structure Still (crates : Crates) (account o : String) (c sent : Nat) (spared : Prop) (l : Link) : Prop where
  pulled : spared → ∀ r, l.db.objects.find (account,o) = some r → r.serverSeq ≤ c
  since : sent ≤ l.pushes.length
  unsent : Unsent crates o sent l

def Quieted (crates : Crates) (account o : String) (c sent : Nat) (spared : Prop) (l : Link) : Prop :=
  Still crates account o c sent spared l ∧ (spared → ∀ slot ∈ l.schedule, Elsewhere crates account o slot.others)

theorem still_frame (still : Still crates account o c sent spared l)
    (row : spared → l'.db.objects.find (account,o) = l.db.objects.find (account,o)) (pushes : l'.pushes = l.pushes) :
    Still crates account o c sent spared l' :=
  ⟨fun calm => by rw [row calm]; exact still.pulled calm,by rw [pushes]; exact still.since,by rw [Unsent,pushes]; exact still.unsent⟩

theorem arrived_row (others : ∀ slot ∈ l.schedule, Elsewhere crates account o slot.others) :
    (l.arrived crates).objects.find (account,o) = l.db.objects.find (account,o) := by
  have quiet : Elsewhere crates account o Slot.quiet.others := by simp [Slot.quiet,Elsewhere]
  exact push_all_elsewhere l.slot.others l.db (@slot_allowed l (fun slot => Elsewhere crates account o slot.others) quiet others)

theorem others_left (others : spared → ∀ slot ∈ l.schedule, Elsewhere crates account o slot.others) :
    spared → ∀ slot ∈ l.schedule.tail, Elsewhere crates account o slot.others :=
  fun calm slot inside => others calm slot (List.mem_of_mem_tail inside)

-- A push for another note.
theorem server_push_row (others : ∀ slot ∈ l.schedule, Elsewhere crates account o slot.others) {request : PushRequest}
    (other : ¬Names crates o request.objectId) :
    (serverPush crates account request l).2.db.objects.find (account,o) = l.db.objects.find (account,o) := by
  have arrived := arrived_row others
  have apart : account = account → crates.parseUuid request.objectId ≠ .ok o := fun _ read => other (.inr read)
  have handled : (pushMutationHandler crates (l.arrived crates) account request).2.objects.find (account,o) =
      l.db.objects.find (account,o) := (handler_elsewhere _ apart).trans arrived
  unfold serverPush
  simp only
  split
  · exact arrived
  · exact handled
  · exact handled

theorem server_push_quiet (quieted : Quieted crates account o c sent spared l) {request : PushRequest}
    (other : ¬Names crates o request.objectId) : Quieted crates account o c sent spared (serverPush crates account request l).2 := by
  obtain ⟨still,others⟩ := quieted
  obtain ⟨x,asked,pushes⟩ : ∃ x, x.request = request ∧ (serverPush crates account request l).2.pushes = l.pushes ++ [x] := ⟨_,rfl,rfl⟩
  refine ⟨⟨?_,?_,?_⟩,others_left others⟩
  · intro calm
    rw [server_push_row (others calm) other]
    exact still.pulled calm
  · rw [pushes,List.length_append]
    exact Nat.le_trans still.since (Nat.le_add_right _ _)
  · intro y inside
    rw [pushes,List.drop_append_of_le_length still.since] at inside
    rcases List.mem_append.mp inside with old | last
    · exact still.unsent y old
    · rw [List.mem_singleton.mp last,asked]
      exact other

-- A pull: whatever it serves of the note is old.
theorem server_pull_quiet (quieted : Quieted crates account o c sent spared l) (after : Nat) (limit : Option Nat) :
    Quieted crates account o c sent spared (serverPull crates account after limit l).2 ∧
      ∀ page, (serverPull crates account after limit l).1 = .ok page →
        ∀ change ∈ page.changes, spared → change.objectId = o → change.serverSeq ≤ c := by
  obtain ⟨still,others⟩ := quieted
  have arrived := fun calm => arrived_row (others calm)
  have ensured : spared → (ServerStore.ensureAccount (l.arrived crates) account).objects.find (account,o) =
      l.db.objects.find (account,o) := by
    rw [ensure_objects]
    exact arrived
  cases fault : l.slot.fault with
  | some broken =>
      obtain ⟨e,db,answer,tables⟩ := server_pull_broken crates account fault after limit
      rw [answer]
      refine ⟨⟨still_frame still ?_ rfl,others_left others⟩,by simp⟩
      rcases tables with rfl | rfl
      · exact arrived
      · exact ensured
  | none =>
      rw [server_pull_answered fault]
      refine ⟨⟨still_frame still ensured rfl,others_left others⟩,?_⟩
      rintro page served change inside calm rfl
      cases served
      rw [pull_changes_eq] at inside
      obtain ⟨r,paged,rfl⟩ := List.mem_map.mp inside
      obtain ⟨member,own,_⟩ := mem_rowsAfter.mp (List.mem_of_mem_take paged)
      have found : (l.arrived crates).objects.find (account,r.objectId) = some r := mem_find member (by rw [own])
      exact still.pulled calm r ((arrived calm).symm.trans found)

-- Work on other notes: this one is not stored, and the queue's rows of it are
-- rows that were there before.
structure Beside (crates : Crates) (o : String) (s t : Storage) : Prop where
  absent : s.getObject o = none → t.getObject o = none
  queue : ∀ m ∈ t.mutations.rows, Names crates o m.objectId → m ∈ s.mutations.rows
  cursor : currentCursor t = currentCursor s

theorem beside_refl (crates : Crates) (o : String) (s : Storage) : Beside crates o s s :=
  ⟨id,fun _ inside _ => inside,rfl⟩

theorem beside_trans (one : Beside crates o s t) (two : Beside crates o t u) : Beside crates o s u :=
  ⟨two.absent ∘ one.absent,fun m inside names => one.queue m (two.queue m inside names) names,two.cursor.trans one.cursor⟩

-- The row under an id, if there is one, is another note's.
def Clear (crates : Crates) (o : String) (s : Storage) (mutationId : String) : Prop :=
  ∀ x, s.getMutation mutationId = some x → ¬Names crates o x.objectId

theorem clear_beside (clear : Clear crates o s mutationId) (beside : Beside crates o s t) : Clear crates o t mutationId := by
  intro x found names
  have old := beside.queue x (find_mem found) names
  exact clear x (mem_find old (find_key found)) names

theorem clear_listed {row : PendingMutation} (inside : row ∈ s.mutations.rows) (other : ¬Names crates o row.objectId) :
    Clear crates o s row.mutationId := by
  intro x found
  have held : s.getMutation row.mutationId = some row := mem_iff_find.mp inside
  rw [held] at found
  cases found
  exact other

theorem mark_beside (clear : Clear crates o s mutationId) (done : mark status retries s mutationId = .ok t) : Beside crates o s t := by
  cases found : s.getMutation mutationId with
  | none => simp [mark,found] at done
  | some row =>
      rw [mark_row found] at done
      cases done
      refine ⟨fun absent => absent,?_,rfl⟩
      intro m inside names
      rcases (mem_restatus _ _).mp inside with rfl | ⟨old,_⟩
      · exact absurd names (clear row found)
      · exact old

theorem keep_beside (status : MutationStatus) (retries : UInt32 → UInt32) (clear : Clear crates o s mutationId) :
    Beside crates o s (orKeep s (mark status retries s mutationId)) := by
  cases done : mark status retries s mutationId with
  | error e => exact beside_refl crates o s
  | ok t => exact mark_beside clear done

theorem put_absent {x : StoredEncryptedObject} (other : ¬Names crates o x.objectId) (absent : s.getObject o = none) :
    (s.objects.upsert x).find o = none := by
  rw [find_upsert_other s.objects x (fun same => other (.inl same))]
  exact absent

theorem acknowledge_beside {stored : StoredEncryptedObject} {revision serverSeq : Nat} {now : String} (clear : Clear crates o s mutationId)
    (done : acknowledgeAccepted s mutationId revision serverSeq now = .ok (stored,t)) : Beside crates o s t := by
  unfold acknowledgeAccepted at done
  split at done
  · cases done
  · rename_i row found
    cases done
    exact ⟨put_absent (clear row found),fun m inside _ => (mem_delete.mp inside).1,rfl⟩

theorem put_conflict_beside (crates : Crates) (o : String) (s : Storage) (record : ConflictRecord) : Beside crates o s (s.putConflict record) :=
  ⟨fun absent => absent,fun _ inside _ => inside,rfl⟩

theorem record_beside {item : PushItemConflict} (done : recordConflict codec vaultKey tick s item = .ok (record,t)) : Beside crates o s t := by
  obtain ⟨rfl,_⟩ := record_conflict_cases done
  exact put_conflict_beside crates o s record

-- Both winners of the guarded policy store a head and clear its note's queue.
theorem cleared_beside {x : StoredEncryptedObject} {r : Storage} (other : ¬Names crates o x.objectId) (objects : r.objects = s.objects.upsert x)
    (queue : r.mutations = s.mutations) (state : r.syncState = s.syncState) : Beside crates o s (removeForObject r x.objectId) := by
  refine ⟨?_,fun m inside _ => (MergeBases.cleared_rows queue inside).1,?_⟩
  · intro absent
    rw [Storage.getObject,MergeBases.cleared_objects,objects]
    exact put_absent other absent
  · rw [MergeBases.removed_frame]
    exact congrArg SyncState.syncCursor state

theorem enqueue_beside {m : PendingMutation} (done : s.enqueueMutation m = .ok t) (other : ¬Names crates o m.objectId) : Beside crates o s t := by
  obtain ⟨_,rfl⟩ := enqueue_cases done
  refine ⟨fun absent => absent,?_,rfl⟩
  intro n inside names
  rcases mem_upsert.mp inside with rfl | ⟨old,_⟩
  · exact absurd names other
  · exact old

theorem lww_beside {m : PendingMutation} (other : ¬Names crates o m.objectId) (codec : NoteCodec Key Note) (vaultKey : Option Key) (tick : Tick)
    (s : Storage) (conflict : ConflictResponse) :
    Beside crates o s (evaluateGuardedLww codec vaultKey tick s m conflict).2 := by
  have stored : ∀ (envelope : EncryptedEnvelope) (base : Nat) (kept : EncryptedEnvelope), Beside crates o s (removeForObject
      ((s.putBaseVersion m.objectId base kept).putObject ⟨m.objectId,m.objectKind,conflict.currentRevision,0,false,envelope,tick.now⟩)
      m.objectId) := fun envelope base kept =>
    cleared_beside (x := ⟨m.objectId,m.objectKind,conflict.currentRevision,0,false,envelope,tick.now⟩) other rfl rfl rfl
  unfold evaluateGuardedLww
  split
  · exact beside_refl crates o s
  · split
    · simp only
      split
      · exact stored _ _ _
      · rename_i queued
        have retried := beside_trans (stored _ _ _) (enqueue_beside queued other)
        exact beside_trans retried (put_conflict_beside crates o _ _)
    · exact beside_trans (stored _ _ _) (put_conflict_beside crates o _ _)

theorem settle_beside {m : PendingMutation} (codec : NoteCodec Key Note) (options : PushOptions Key) (tick : Tick)
    (clear : Clear crates o s m.mutationId) (other : ¬Names crates o m.objectId) (report : PushReport) (answer : Except SyncNetworkError PushResponse) :
    Beside crates o s (settlePush codec options tick m s report answer).1 := by
  unfold settlePush
  split
  · split
    · exact beside_refl crates o s
    · rename_i acknowledged
      exact acknowledge_beside clear acknowledged
  · rename_i conflict
    split
    · have evaluated := lww_beside other codec options.vaultKey tick s conflict
      split
      · rename_i failed
        rw [failed] at evaluated
        exact evaluated
      · rename_i won
        rw [won] at evaluated
        exact evaluated
    · have marked := keep_beside .pending (fun n => n) clear
      simp only
      split
      · exact marked
      · rename_i recorded
        exact beside_trans marked (record_beside recorded)
  · split
    · exact keep_beside .pending _ clear
    · exact keep_beside .failed _ clear

theorem attempt_beside {options : PushOptions Key} {m : PendingMutation} (quieted : Quieted crates account o c sent spared l)
    (clear : Clear crates o s m.mutationId) (other : ¬Names crates o m.objectId)
    (ran : attempt (honest crates account) codec options tick m l s report = (l',t,report',flow)) :
    Quieted crates account o c sent spared l' ∧ Beside crates o s t := by
  unfold attempt at ran
  simp only at ran
  split at ran
  · cases ran
    exact ⟨quieted,beside_refl crates o s⟩
  · rename_i flying inFlight
    have marked := mark_beside clear inFlight
    simp only [Prod.mk.injEq] at ran
    obtain ⟨rfl,settled⟩ := ran
    have after := settle_beside codec options tick (clear_beside clear marked) other {report with totalAttempted := report.totalAttempted+1}
      ((honest crates account).pushMutation (requestOf m) l).1
    rw [settled] at after
    exact ⟨server_push_quiet quieted other,beside_trans marked after⟩

-- The loop sends what its snapshot lists as ready; none of that names the note.
theorem push_loop_beside {options : PushOptions Key} {ticks : Nat → Tick} (list : List PendingMutation)
    (listed : ∀ m ∈ list, m ∈ s.mutations.rows) (others : ∀ m ∈ list, ready m = true → ¬Names crates o m.objectId)
    (quieted : Quieted crates account o c sent spared l) (beside : Beside crates o s t)
    (ran : pushLoop (honest crates account) codec options ticks list l t report = (l',u,result)) :
    Quieted crates account o c sent spared l' ∧ Beside crates o s u := by
  induction list generalizing l t report with
  | nil =>
      cases ran
      exact ⟨quieted,beside⟩
  | cons row rest ih =>
      obtain ⟨inside,listedRest⟩ := List.forall_mem_cons.mp listed
      obtain ⟨other,othersRest⟩ := List.forall_mem_cons.mp others
      unfold pushLoop at ran
      split at ran
      · cases ran
        exact ⟨quieted,beside⟩
      split at ran
      · rename_i able
        have clear := clear_beside (clear_listed inside (other able)) beside
        split at ran
        · rename_i attempted
          obtain ⟨later,stepped⟩ := attempt_beside quieted clear (other able) attempted
          exact ih listedRest othersRest later (beside_trans beside stepped) ran
        · rename_i attempted
          obtain ⟨later,stepped⟩ := attempt_beside quieted clear (other able) attempted
          cases ran
          exact ⟨later,beside_trans beside stepped⟩
        · rename_i attempted
          obtain ⟨later,stepped⟩ := attempt_beside quieted clear (other able) attempted
          cases ran
          exact ⟨later,beside_trans beside stepped⟩
      · exact ih listedRest othersRest quieted beside ran

-- The device since the purge, at a cursor `c`.
structure Gone (crates : Crates) (o : String) (c : Nat) (spared : Prop) (s : Storage) : Prop where
  absent : spared → s.getObject o = none
  queue : ∀ m ∈ s.mutations.rows, Names crates o m.objectId → ready m = false
  cursor : c ≤ currentCursor s

theorem gone_beside (gone : Gone crates o c spared s) (beside : Beside crates o s t) : Gone crates o c spared t :=
  ⟨fun calm => beside.absent (gone.absent calm),fun m inside names => gone.queue m (beside.queue m inside names) names,by rw [beside.cursor]; exact gone.cursor⟩

theorem push_gone {options : PushOptions Key} {ticks : Nat → Tick} (quieted : Quieted crates account o c sent spared l) (gone : Gone crates o c spared s)
    (ran : pushPendingChanges (honest crates account) codec options ticks l s = (l',t,result)) :
    Quieted crates account o c sent spared l' ∧ Gone crates o c spared t := by
  have listed : ∀ m ∈ s.listPendingMutations, m ∈ s.mutations.rows := fun m inside => (mem_pending s m).mp inside
  have others : ∀ m ∈ s.listPendingMutations, ready m = true → ¬Names crates o m.objectId := by
    intro m inside able names
    have idle := gone.queue m (listed m inside) names
    rw [able] at idle
    cases idle
  obtain ⟨later,beside⟩ := push_loop_beside s.listPendingMutations listed others quieted (beside_refl crates o s) ran
  exact ⟨later,gone_beside gone beside⟩

-- A pull stores what lies above the cursor, and nothing of the note does.
theorem pull_gone {vaultKey : Option Key} (quieted : Quieted crates account o c sent spared l) (gone : Gone crates o c spared s)
    (ran : pullRemoteChanges (honest crates account) codec vaultKey options clock fuel l s = some (l',t,result)) :
    Quieted crates account o c sent spared l' ∧ Gone crates o c spared t := by
  obtain ⟨p,ended,looped,objects,cursor,frame⟩ := pull_ran ran
  have kept : Quieted crates account o c sent spared l' ∧ Gone crates o c spared p.storage := by
    refine pull_loop_rule (fun l s => Quieted crates account o c sent spared l ∧ Gone crates o c spared s)
      (fun change => spared → change.objectId = o → change.serverSeq ≤ c) ?_ ?_ fuel (w := l) (p := startPull s) ⟨quieted,gone⟩ looped
    · rintro after limit l s ⟨quieted,gone⟩
      obtain ⟨later,served⟩ := server_pull_quiet quieted after limit
      exact ⟨⟨later,gone⟩,served⟩
    · rintro l s change now ⟨quieted,gone⟩ old fresh
      have low := gone.cursor
      refine ⟨quieted,?_,gone.queue,?_⟩
      · intro calm
        have other : change.objectId ≠ o := fun same => by
          have bound := old calm same
          omega
        have kept : (s.objects.upsert (storedOf change now)).find o = s.objects.find o := find_upsert_other s.objects (storedOf change now) other
        exact kept.trans (gone.absent calm)
      · exact Nat.le_of_lt (Nat.lt_of_le_of_lt low fresh)
  obtain ⟨later,after⟩ := kept
  refine ⟨later,?_,?_,?_⟩
  · rw [Storage.getObject,objects]
    exact after.absent
  · rw [frame.mutations]
    exact after.queue
  · rw [cursor]
    exact after.cursor

theorem reset_gone (gone : Gone crates o c spared s) : Gone crates o c spared (resetInFlight s).2 := by
  have frame := reset_in_flight_frame s
  refine ⟨by rw [frame]; exact gone.absent,?_,by rw [frame]; exact gone.cursor⟩
  intro m inside names
  rw [reset_in_flight_rows] at inside
  obtain ⟨x,old,rfl⟩ := List.mem_map.mp inside
  have same : (refresh x).objectId = x.objectId := congrArg PushRequest.objectId (refresh_request x)
  rw [same] at names
  have idle := gone.queue x old names
  have calm : x.status ≠ .inFlight := by
    intro flying
    simp [ready,flying] at idle
  rw [refresh,if_neg calm]
  exact idle

theorem cycle_gone {options : SyncCycleOptions Key} (quieted : Quieted crates account o c sent spared l) (gone : Gone crates o c spared s)
    (ran : runSyncCycle (honest crates account) codec vaultKey options draws l s = some (l',t,result)) :
    Quieted crates account o c sent spared l' ∧ Gone crates o c spared t := by
  cases cycle_phases ran with
  | unpulled pulled => exact pull_gone quieted (reset_gone gone) pulled
  | unpushed pulled pushed =>
      obtain ⟨quieted,gone⟩ := pull_gone quieted (reset_gone gone) pulled
      exact push_gone quieted gone pushed
  | ended pulled pushed =>
      obtain ⟨quieted,gone⟩ := pull_gone quieted (reset_gone gone) pulled
      exact push_gone quieted gone pushed
  | unfollowed pulled pushed again =>
      obtain ⟨quieted,gone⟩ := pull_gone quieted (reset_gone gone) pulled
      obtain ⟨quieted,gone⟩ := push_gone quieted gone pushed
      exact pull_gone quieted gone again
  | followed pulled pushed again =>
      obtain ⟨quieted,gone⟩ := pull_gone quieted (reset_gone gone) pulled
      obtain ⟨quieted,gone⟩ := push_gone quieted gone pushed
      exact pull_gone quieted gone again

-- An edit that queues nothing of the note does not store it either.
theorem command_gone {command : Command} (gone : Gone crates o c spared s) (fresh : s.getMutation command.draw.mutationId = none)
    (others : ∀ m ∈ (command.run codec key s).mutations.rows, m ∈ s.mutations.rows ∨ ¬Names crates o m.objectId) :
    Gone crates o c spared (command.run codec key s) := by
  have cursor : c ≤ currentCursor (command.run codec key s) := by
    unfold currentCursor
    rw [(run_frame command s).1]
    exact gone.cursor
  have queue : ∀ m ∈ (command.run codec key s).mutations.rows, Names crates o m.objectId → ready m = false :=
    fun m inside names => gone.queue m ((others m inside).resolve_right (not_not_intro names)) names
  refine ⟨fun calm => ?_,queue,cursor⟩
  have absent : s.objects.find o = none := gone.absent calm
  unfold Storage.getObject
  cases run_commanded codec key command s fresh with
  | nothing objects _ =>
      rw [objects]
      exact absent
  | purged p _ _ objects _ =>
      rw [objects,find_delete,absent]
      rfl
  | edited object m edit objects rows =>
      have new : ¬Names crates o m.objectId := by
        refine (others m (by rw [rows]; exact mem_upsert.mpr (.inl rfl))).resolve_left ?_
        intro old
        have held : s.getMutation m.mutationId = some m := mem_iff_find.mp old
        rw [edit.id,fresh] at held
        cases held
      rw [edit.target] at new
      rw [objects]
      exact put_absent new absent

theorem event_gone {event : Event Key} {state next : Link × Storage} (still : Still crates account o c sent spared state.1)
    (gone : Gone crates o c spared state.2) (aside : event.Aside crates o codec key state) (spares : spared → event.Spares crates account o)
    (ran : event.run crates account codec key state = some next) :
    Still crates account o c sent spared next.1 ∧ Gone crates o c spared next.2 := by
  obtain ⟨l,s⟩ := state
  cases event with
  | edit command =>
      cases ran
      exact ⟨still,command_gone gone aside.1 aside.2⟩
  | remote calls =>
      cases ran
      exact ⟨still_frame still (fun calm => push_all_elsewhere calls l.db (spares calm)) rfl,gone⟩
  | cycle call schedule =>
      obtain ⟨out,cycled,rfl⟩ := Option.map_eq_some_iff.mp ran
      have quieted : Quieted crates account o c sent spared {l with schedule := schedule} := ⟨still_frame still (fun _ => rfl) rfl,spares⟩
      obtain ⟨later,after⟩ := cycle_gone quieted gone cycled
      exact ⟨later.1,after⟩

theorem run_gone (events : List (Event Key)) {state next : Link × Storage} (still : Still crates account o c sent spared state.1)
    (gone : Gone crates o c spared state.2)
    (aside : Along (Event.run crates account codec key) (Event.Aside crates o codec key) events state)
    (spares : spared → ∀ event ∈ events, event.Spares crates account o)
    (ran : runAll (Event.run crates account codec key) events state = some next) :
    Still crates account o c sent spared next.1 ∧ Gone crates o c spared next.2 := by
  have others : Along (Event.run crates account codec key) (fun event _ => spared → event.Spares crates account o) events state :=
    along_listed events (fun event inside calm => spares calm event inside)
  exact run_keeps (fun state : Link × Storage => Still crates account o c sent spared state.1 ∧ Gone crates o c spared state.2)
    (fun event state next kept fine taken => event_gone kept.1 kept.2 fine.1 fine.2 taken) events (along_both events aside others)
    ⟨still,gone⟩ ran

theorem cycle_alone {schedule : List Slot} (call : CycleCall Key)
    (ran : runSyncCycle (honest crates account) codec call.vaultKey call.options call.draws {l with schedule := schedule} s =
      some (l',t,result)) : runAll (Event.run crates account codec key) [.cycle call schedule] (l,s) = some (l',t) := by
  simp only [runAll,Event.run,ran,Option.map_some,Option.bind_some]

-- The other way round: a cycle that shows the note again where the purge was
-- not settled. A network that loses every request keeps no ready row from being sent.
def lost : Slot := ⟨[],some (.requestLost (.connectionFailed ""))⟩

theorem lost_push {n : Nat} (crates : Crates) (account : String) (broken : l.schedule = List.replicate (n+1) lost) (request : PushRequest) :
    (serverPush crates account request l).1 = .error (.connectionFailed "") ∧
      (serverPush crates account request l).2.schedule = List.replicate n lost ∧
      ∃ x, x.request = request ∧ (serverPush crates account request l).2.pushes = l.pushes ++ [x] := by
  have slot : l.slot = lost := by simp [Link.slot,broken,List.replicate_succ]
  refine ⟨?_,?_,_,rfl,rfl⟩
  · simp [serverPush,slot,lost,Outage.error]
  · simp [serverPush,broken,List.replicate_succ]

theorem lost_outcome {options : PushOptions Key} {row : PendingMutation} (outcome : Outcome options s row answer t flow)
    (broken : answer = .error (.connectionFailed "")) : flow = .next := by
  cases outcome with
  | accepted => cases broken
  | conflicting => cases broken
  | unrecorded => cases broken
  | transient => rfl
  | fatal retries lasting =>
      cases broken
      cases lasting

-- What a push over the broken network has come to: a listed row is still to be
-- tried or was sent.
structure Trying (list : List PendingMutation) (sent : Nat) (rest : List PendingMutation) (l : Link) : Prop where
  broken : ∃ n, rest.length ≤ n ∧ l.schedule = List.replicate n lost
  since : sent ≤ l.pushes.length
  tried : ∀ m ∈ list, ready m = true → m ∈ rest ∨ ∃ x ∈ l.pushes.drop sent, x.request = requestOf m

theorem lost_push_sends {options : PushOptions Key} {ticks : Nat → Tick} (unbounded : options.maxMutations = none)
    (broken : l.schedule = List.replicate s.listPendingMutations.length lost) (since : sent ≤ l.pushes.length)
    (ran : pushPendingChanges (honest crates account) codec options ticks l s = (l',t,result)) :
    ∀ m ∈ s.mutations.rows, ready m = true → ∃ x ∈ l'.pushes.drop sent, x.request = requestOf m := by
  have ended := push_loop_rule (fun rest l _ _ => Trying s.listPendingMutations sent rest l)
    (fun l _ => ∀ m ∈ s.listPendingMutations, ready m = true → ∃ x ∈ l.pushes.drop sent, x.request = requestOf m)
    ?_ ?_ ?_ ?_ (listed_start s) ⟨⟨_,Nat.le_refl _,broken⟩,since,fun m inside _ => .inl inside⟩ ran
  · intro m inside
    exact ended m ((mem_pending s m).mpr inside)
  · intro rest l s n trying stop m inside able
    refine (trying.tried m inside able).resolve_left ?_
    rcases stop with rfl | full
    · exact List.not_mem_nil
    · simp [Full,unbounded] at full
  · intro row rest l s n trying idle
    obtain ⟨⟨k,long,schedule⟩,since,tried⟩ := trying
    refine ⟨⟨k,by simp at long; omega,schedule⟩,since,?_⟩
    intro m inside able
    refine (tried m inside able).imp_left fun left => (List.mem_cons.mp left).resolve_left ?_
    rintro rfl
    rw [able] at idle
    cases idle
  · intro row rest l s n trying _ _ _
    obtain ⟨⟨k,long,schedule⟩,_,_⟩ := trying
    obtain ⟨k,rfl⟩ : ∃ j, k = j+1 := ⟨k-1,by simp at long; omega⟩
    right
    intro conflict answered
    have failed := (lost_push crates account schedule (requestOf row)).1
    rw [show (honest crates account).pushMutation (requestOf row) l = serverPush crates account (requestOf row) l from rfl,failed] at answered
    cases answered
  · intro row rest l s n t flow trying _ _ _ _ outcome
    obtain ⟨⟨k,long,schedule⟩,since,tried⟩ := trying
    obtain ⟨k,rfl⟩ : ∃ j, k = j+1 := ⟨k-1,by simp at long; omega⟩
    obtain ⟨failed,later,x,asked,pushes⟩ := lost_push crates account schedule (requestOf row)
    refine ⟨fun _ => ⟨⟨k,by simpa using long,later⟩,?_,?_⟩,fun stopped => absurd (lost_outcome outcome failed) stopped⟩
    · show sent ≤ (serverPush crates account (requestOf row) l).2.pushes.length
      rw [pushes,List.length_append]
      omega
    · intro m inside able
      show m ∈ rest ∨ ∃ x ∈ (serverPush crates account (requestOf row) l).2.pushes.drop sent, x.request = requestOf m
      rw [pushes,List.drop_append_of_le_length since]
      rcases tried m inside able with left | ⟨y,old,same⟩
      · rcases List.mem_cons.mp left with rfl | more
        · exact .inr ⟨x,by simp,asked⟩
        · exact .inl more
      · exact .inr ⟨y,List.mem_append_left _ old,same⟩

theorem unpaged_pull (codec : NoteCodec Key Note) (options : PullOptions) (unpaged : options.maxPages = some 0) (clock : Nat → String)
    (l : Link) (s : Storage) : ∃ first, pullRemoteChanges (honest crates account) codec none options clock 1 l s =
      some (l,recordSyncSuccess s (clock 0),.ok first) := by
  have looped : pullLoop (honest crates account) options clock 1 l (startPull s) = some (l,startPull s,.ok ()) := by
    simp [pullLoop,unpaged]
  simp only [pullRemoteChanges,looped]
  exact ⟨_,rfl⟩

-- A cycle that reads no page and meets a network that loses its pushes.
def sendingCycle (Key : Type) : CycleCall Key :=
  ⟨none,⟨⟨none,some 0⟩,.default,false⟩,⟨fun _ => "",fun _ => ⟨"","","",0⟩,fun _ => "",1⟩⟩

theorem sending_cycle_runs (crates : Crates) (account : String) (codec : NoteCodec Key Note) (l : Link) (s : Storage) :
    ∃ l' t result, runSyncCycle (honest crates account) codec none (sendingCycle Key).options (sendingCycle Key).draws l s = some (l',t,result) ∧
      l'.pushes = (pushPendingChanges (honest crates account) codec (pushKey (sendingCycle Key).options none) (sendingCycle Key).draws.ticks l
        (recordSyncSuccess (resetInFlight s).2 "")).1.pushes := by
  have pulled : ∀ l s, ∃ first, pullRemoteChanges (honest crates account) codec none (sendingCycle Key).options.pullOptions
      (fun _ => "") 1 l s = some (l,recordSyncSuccess s "",.ok first) := fun l s => unpaged_pull codec _ rfl (fun _ => "") l s
  obtain ⟨first,begun⟩ := pulled l (resetInFlight s).2
  unfold runSyncCycle
  simp only [sendingCycle] at begun ⊢
  rw [begun]
  simp only
  split
  · rename_i pushed
    exact ⟨_,_,_,rfl,by rw [pushed]⟩
  · rename_i l₂ s₂ report pushed
    obtain ⟨followup,again⟩ := pulled l₂ s₂
    simp only [sendingCycle] at again
    rw [again,pushed]
    by_cases taken : report.accepted ≠ [] ∨ false = true
    · exact ⟨_,_,_,if_pos taken,rfl⟩
    · exact ⟨_,_,_,if_neg taken,rfl⟩

theorem ready_sends (crates : Crates) (account : String) (codec : NoteCodec Key Note) (l : Link) {m : PendingMutation}
    (inside : m ∈ s.mutations.rows) (able : ready m = true) :
    ∃ l' t result, runSyncCycle (honest crates account) codec none (sendingCycle Key).options (sendingCycle Key).draws
        {l with schedule := List.replicate s.mutations.rows.length lost} s = some (l',t,result) ∧
      ∃ x ∈ l'.pushes.drop l.pushes.length, x.request = requestOf m := by
  have rows : (recordSyncSuccess (resetInFlight s).2 "").mutations.rows = s.mutations.rows.map refresh := reset_in_flight_rows s
  have listed : (recordSyncSuccess (resetInFlight s).2 "").listPendingMutations.length = s.mutations.rows.length := by
    rw [Storage.listPendingMutations,List.length_insertionSort,rows,List.length_map]
  obtain ⟨l',t,result,ran,pushes⟩ := sending_cycle_runs crates account codec
    {l with schedule := List.replicate s.mutations.rows.length lost} s
  refine ⟨l',t,result,ran,?_⟩
  rw [pushes,← refresh_request m]
  rcases pushed : pushPendingChanges (honest crates account) codec (pushKey (sendingCycle Key).options none) (sendingCycle Key).draws.ticks
    {l with schedule := List.replicate s.mutations.rows.length lost} (recordSyncSuccess (resetInFlight s).2 "") with ⟨l₂,s₂,ended⟩
  refine lost_push_sends ?_ ?_ ?_ pushed (refresh m) ?_ ?_
  · rfl
  · rw [listed]
  · exact Nat.le_refl _
  · rw [rows]
    exact List.mem_map_of_mem inside
  · unfold refresh
    split
    · rfl
    · exact able

theorem unpushing_push (crates : Crates) (account : String) (codec : NoteCodec Key Note) (options : PushOptions Key) (bounded : options.maxMutations = some 0) (ticks : Nat → Tick)
    (l : Link) (s : Storage) : pushPendingChanges (honest crates account) codec options ticks l s = (l,s,.ok .default) := by
  unfold pushPendingChanges
  cases s.listPendingMutations with
  | nil => rfl
  | cons row rest => simp [pushLoop,bounded]

-- A cycle that pulls every page and tries no mutation.
def fetchingCycle (Key : Type) (fuel : Nat) : CycleCall Key :=
  ⟨none,⟨.default,⟨some 0,false,.manual,none⟩,false⟩,⟨fun _ => "",fun _ => ⟨"","","",0⟩,fun _ => "",fuel⟩⟩

theorem fetching_cycle_runs (codec : NoteCodec Key Note) (pulled : pullRemoteChanges (honest crates account) codec none .default (fun _ => "")
      fuel l (resetInFlight s).2 = some (l',t,ended)) :
    ∃ result, runSyncCycle (honest crates account) codec none (fetchingCycle Key fuel).options (fetchingCycle Key fuel).draws l s =
      some (l',t,result) := by
  have idle := unpushing_push crates account codec (pushKey (fetchingCycle Key fuel).options none) rfl
    (fetchingCycle Key fuel).draws.ticks l' t
  unfold runSyncCycle
  simp only [fetchingCycle] at idle ⊢
  rw [pulled]
  cases ended with
  | error e => exact ⟨_,rfl⟩
  | ok first =>
      simp only
      rw [idle]
      exact ⟨_,if_neg (by simp [PushReport.default])⟩

-- On a quiet network that cycle stores every head above the cursor.
theorem ahead_fetches (codec : NoteCodec Key Note) (rep : Represents crates log l.db) (small : currentSequence l.db account < 2^63)
    (start : currentCursor s < 2^63) (found : l.db.objects.find (account,o) = some r) (ahead : currentCursor s < r.serverSeq) :
    ∃ fuel l' t result, runSyncCycle (honest crates account) codec none (fetchingCycle Key fuel).options (fetchingCycle Key fuel).draws
      {l with schedule := []} s = some (l',t,result) ∧ (t.getObject o).isSome = true := by
  have cursor : currentCursor (resetInFlight s).2 = currentCursor s := by
    rw [reset_in_flight_frame]
    rfl
  obtain ⟨fuel,l',t,ended,pulled,whole⟩ := quiet_pull_ends (l := {l with schedule := []}) (s := (resetInFlight s).2) codec none .default (fun _ => "")
    rep rfl (by rw [cursor]; exact start) small
  obtain ⟨result,ran⟩ := fetching_cycle_runs codec pulled
  refine ⟨fuel,l',t,result,ran,?_⟩
  obtain ⟨p,looped,rfl⟩ := pull_unbroken pulled whole
  obtain ⟨⟨⟨more,later,caught⟩,_,_⟩,_,covered⟩ := pull_loop_keeps
    (PullComplete.caught_keeps crates account (fun _ => "") (currentCursor (resetInFlight s).2)) trivial fuel (l := {l with schedule := []})
    (p := startPull (resetInFlight s).2) rep (by simp) rfl (PullComplete.start_caught account _ _) looped
  have keyed := find_key found
  obtain ⟨own,named⟩ := Prod.mk.inj keyed
  obtain ⟨q,member,mine,same,above,_⟩ := head_successor rep later (find_mem found)
  have below : q.serverSeq ≤ p.currentSeq := covered rfl rfl q member (mine.trans own)
  obtain ⟨updatedAt,held⟩ := caught.held q member (mine.trans own) (by rw [cursor]; omega) below
  rw [same,named] at held
  have shown : (p.storage.getObject o).isSome = true := by simp [held]
  exact shown

theorem purge_ran {draw : Draw} {noteId : String} {revision : Nat} (purged : deleteNote draw noteId true s = (.ok (o,revision),t)) :
    t = (s.purgeObject o).clearBaseVersions o := by
  unfold deleteNote at purged
  split at purged
  · cases purged
  · cases purged
    rfl

theorem purged_absent (s : Storage) (o : String) : ((s.purgeObject o).clearBaseVersions o).getObject o = none := by
  show (s.objects.delete (fun x => x.objectId = o)).find o = none
  rw [find_delete]
  cases found : s.objects.find o with
  | none => rfl
  | some x => simp [Option.filter,find_key found]

-- A purged note stays purged where the purge was settled, and only there: not
-- where an edit of it still waits in the queue, nor where the server holds a
-- change of it that was not pulled.
theorem purge_final_iff (crates : Crates) (account : String) (codec : NoteCodec Key Note) (key : Key) (l : Link) (s₀ : Storage)
    (edits : List Command) (draw : Draw) (noteId o : String) (revision : Nat)
    (purged : deleteNote draw noteId true (runCommands codec key edits s₀) = (.ok (o,revision),t)) :
    (Settled crates account o l (runCommands codec key edits s₀) → Final crates account codec key o (l,t)) ∧
    ∀ log, Represents crates log l.db → currentSequence l.db account < 2^63 → currentCursor (runCommands codec key edits s₀) < 2^63 →
      Final crates account codec key o (l,t) → Settled crates account o l (runCommands codec key edits s₀) := by
  cases purge_ran purged
  generalize runCommands codec key edits s₀ = s
  refine ⟨?_,?_⟩
  · intro settled events state aside ran
    have still : ∀ spared, Still crates account o (currentCursor s) l.pushes.length spared l :=
      fun _ => ⟨fun _ => settled.pulled,Nat.le_refl _,by simp [Unsent]⟩
    have gone : ∀ spared, Gone crates o (currentCursor s) spared ((s.purgeObject o).clearBaseVersions o) :=
      fun _ => ⟨fun _ => purged_absent s o,settled.queue,Nat.le_refl _⟩
    refine ⟨(run_gone events (still False) (gone False) aside False.elim ran).1.unsent,?_⟩
    intro spares
    exact (run_gone events (still True) (gone True) aside (fun _ => spares) ran).2.absent trivial
  · intro log rep small start final
    refine ⟨?_,?_⟩
    · intro m inside names
      by_contra able
      have able : ready m = true := by simpa using able
      obtain ⟨l',t,result,ran,x,sent,asked⟩ := ready_sends crates account codec l
        (s := (s.purgeObject o).clearBaseVersions o) inside able
      have unsent := (final [.cycle (sendingCycle Key) (List.replicate s.mutations.rows.length lost)] (l',t) ⟨trivial,fun _ _ => trivial⟩
        (cycle_alone (sendingCycle Key) ran)).1
      exact unsent x sent (by rw [asked]; exact names)
    · intro r found
      by_contra behind
      have ahead : currentCursor ((s.purgeObject o).clearBaseVersions o) < r.serverSeq := Nat.lt_of_not_le behind
      obtain ⟨fuel,l',t,result,ran,shown⟩ := ahead_fetches (s := (s.purgeObject o).clearBaseVersions o) codec rep small start found ahead
      have absent := (final [.cycle (fetchingCycle Key fuel) []] (l',t) ⟨trivial,fun _ _ => trivial⟩
        (cycle_alone (fetchingCycle Key fuel) ran)).2 (by simp [Event.Spares])
      rw [absent] at shown
      cases shown

def aliceEvent : Event Unit → Link × Storage → Option (Link × Storage) := Event.run .standIn "alice" NoteCodec.standIn ()
def emptyServer : Link := ⟨.newInMemory,[],[],[]⟩
def writeFirst : Command := .create ⟨firstNote,change1,"t1",0⟩ ⟨"","aaaa",[]⟩
def writeSecond : Command := .create ⟨secondNote,change2,"t4",0⟩ ⟨"","bbbb",[]⟩
def usualCycle : Event Unit := .cycle ⟨none,.default,⟨fun _ => "t2",fun _ => ⟨"t2","","",0⟩,fun _ => "t3",3⟩⟩ []

def purgeFirst (s : Storage) : Except CliError (String × Nat) × Storage := deleteNote ⟨"","","",0⟩ firstNote true s

-- Another device adds a note of its own between two cycles.
def thirdNote : String := "00000000-0000-4000-8000-00000000000c"
def afterPurge : List (Event Unit) := [usualCycle,.remote [("alice",upsertOf change3 thirdNote 0 "cccc")],usualCycle]

-- A synced note is purged while a new one waits in the queue: the next cycle
-- pushes that one alone, and the purged note does not come back.
theorem synced_note_purged : ∃ l s t, runAll aliceEvent [.edit writeFirst,usualCycle] (emptyServer,.new) = some (l,s) ∧
    purgeFirst (runCommands NoteCodec.standIn () [writeSecond] s) = (.ok (firstNote,1),t) ∧
    ∃ state, runAll aliceEvent afterPurge (l,t) = some state ∧ Unsent .standIn firstNote l.pushes.length state.1 ∧
      state.2.getObject firstNote = none ∧ state.2.objects.rows.map (·.objectId) = [secondNote,thirdNote] := by
  have facts : ∃ start ∈ runAll aliceEvent [.edit writeFirst,usualCycle] (emptyServer,.new),
      Settled .standIn "alice" firstNote start.1 (runCommands NoteCodec.standIn () [writeSecond] start.2) ∧
      (purgeFirst (runCommands NoteCodec.standIn () [writeSecond] start.2)).1 = .ok (firstNote,1) ∧
      Along aliceEvent (Event.Aside .standIn firstNote NoteCodec.standIn ()) afterPurge
        (start.1,(purgeFirst (runCommands NoteCodec.standIn () [writeSecond] start.2)).2) ∧
      ∃ state ∈ runAll aliceEvent afterPurge (start.1,(purgeFirst (runCommands NoteCodec.standIn () [writeSecond] start.2)).2),
        state.2.objects.rows.map (·.objectId) = [secondNote,thirdNote] := by decide
  obtain ⟨⟨l,s⟩,ran,settled,done,aside,state,later,shown⟩ := facts
  have purged : purgeFirst (runCommands NoteCodec.standIn () [writeSecond] s) =
      (.ok (firstNote,1),(purgeFirst (runCommands NoteCodec.standIn () [writeSecond] s)).2) := Prod.ext done rfl
  obtain ⟨unsent,absent⟩ := (purge_final_iff .standIn "alice" NoteCodec.standIn () l s [writeSecond] ⟨"","","",0⟩ firstNote firstNote 1
    purged).1 settled afterPurge state aside later
  exact ⟨l,s,_,ran,purged,state,later,unsent,absent (by decide),shown⟩

-- Purged before its first push, the note is pushed by the next cycle all the
-- same, and the server's answer stores it again.
theorem queued_note_returns : (purgeFirst (runCommands NoteCodec.standIn () [writeFirst] .new)).1 = .ok (firstNote,1) ∧
    (purgeFirst (runCommands NoteCodec.standIn () [writeFirst] .new)).2.getObject firstNote = none ∧
    (∃ state ∈ aliceEvent usualCycle (emptyServer,(purgeFirst (runCommands NoteCodec.standIn () [writeFirst] .new)).2),
      state.1.pushes.map (·.request.objectId) = [firstNote] ∧ (state.2.getObject firstNote).map (·.revision) = some 1) ∧
    ¬Final .standIn "alice" NoteCodec.standIn () firstNote
      (emptyServer,(purgeFirst (runCommands NoteCodec.standIn () [writeFirst] .new)).2) := by
  have facts : ∃ state ∈ aliceEvent usualCycle (emptyServer,(purgeFirst (runCommands NoteCodec.standIn () [writeFirst] .new)).2),
      state.1.pushes.map (·.request.objectId) = [firstNote] ∧ (state.2.getObject firstNote).map (·.revision) = some 1 := by decide
  refine ⟨by decide,by decide,facts,?_⟩
  obtain ⟨state,ran,_,shown⟩ := facts
  intro final
  have ended : runAll aliceEvent [usualCycle] (emptyServer,(purgeFirst (runCommands NoteCodec.standIn () [writeFirst] .new)).2) =
      some state := by
    rw [runAll,ran]
    rfl
  have absent := (final [usualCycle] state ⟨trivial,fun _ _ => trivial⟩ ended).2 (by decide)
  rw [absent] at shown
  cases shown

end ZkNote.PurgedNotes
