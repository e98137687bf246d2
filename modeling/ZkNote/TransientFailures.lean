import ZkNote.NoteEdits
import ZkNote.PushSteps

namespace ZkNote.TransientFailures
open Protocol Adapter KeyedTable ServerStore ServerHistory ServerRoutes SyncLink LinkSteps LocalStorage
open MutationQueue Conflict PushChanges PushSteps Notes NoteEdits

variable {crates : Crates} {account : String} {Key Note : Type} {codec : NoteCodec Key Note}
variable {log : List Acceptance} {queue : List PushRequest} {r : PushRequest}

-- A queue beside a server that takes edits from nobody else. What the server has
-- already taken carries its head; what it has not starts at the head or behind
-- another queued edit.
structure Linked (crates : Crates) (account : String) (log : List Acceptance) (queue : List PushRequest) : Prop where
  proper : ∀ r ∈ queue, Proper crates r
  unique : ∀ q ∈ queue, ∀ r ∈ queue, q.mutationId = r.mutationId → q = r
  distinct : ∀ q ∈ queue, ∀ r ∈ queue, q.objectId = r.objectId → q.expectedRevision = r.expectedRevision → q = r
  done : ∀ r ∈ queue, ∀ e, ofMutation log account r.mutationId = some e →
    e.request = r ∧ r.expectedRevision+1 = headRevision log account r.objectId
  waiting : ∀ r ∈ queue, ofMutation log account r.mutationId = none →
    headRevision log account r.objectId ≤ r.expectedRevision ∧
    (headRevision log account r.objectId < r.expectedRevision →
      ∃ q ∈ queue, q.objectId = r.objectId ∧ q.expectedRevision+1 = r.expectedRevision)

def Lowest (queue : List PushRequest) (r : PushRequest) : Prop :=
  ∀ q ∈ queue, q.objectId = r.objectId → q ≠ r → r.expectedRevision < q.expectedRevision

-- The lowest queued edit of an object is the one the server waits for.
theorem lowest_current (linked : Linked crates account log queue) (inside : r ∈ queue) (lowest : Lowest queue r)
    (fresh : ofMutation log account r.mutationId = none) : r.expectedRevision = headRevision log account r.objectId := by
  obtain ⟨low,chained⟩ := linked.waiting r inside fresh
  by_contra differs
  obtain ⟨q,member,same,before⟩ := chained (by omega)
  have above := lowest q member same (by rintro rfl; omega)
  omega

theorem linked_logged (linked : Linked crates account log queue) (inside : r ∈ queue) (lowest : Lowest queue r)
    (fresh : ofMutation log account r.mutationId = none) :
    Linked crates account (log ++ [entryOf log account r]) queue := by
  have current := lowest_current linked inside lowest fresh
  refine ⟨linked.proper,linked.unique,linked.distinct,?_,?_⟩
  · intro q member e found
    rw [ofMutation_append] at found
    rw [head_accepted]
    cases old : ofMutation log account q.mutationId with
    | some f =>
        rw [old,Option.some_or] at found
        cases found
        obtain ⟨own,top⟩ := linked.done q member e old
        refine ⟨own,?_⟩
        by_cases same : q.objectId = r.objectId
        · have above := lowest q member same (by rintro rfl; rw [fresh] at old; cases old)
          rw [same] at top
          omega
        · rw [Function.update_of_ne same]
          exact top
    | none =>
        rw [old,Option.none_or] at found
        split at found
        · rename_i mine
          cases found
          have equal : q = r := linked.unique q member r inside mine.2.symm
          subst equal
          exact ⟨rfl,by rw [Function.update_self,current]⟩
        · cases found
  · intro q member unseen
    rw [ofMutation_append] at unseen
    obtain ⟨before,other⟩ := Option.or_eq_none_iff.mp unseen
    have differs : q ≠ r := by
      rintro rfl
      simp [entryOf,nextAcceptance] at other
    obtain ⟨low,chained⟩ := linked.waiting q member before
    rw [head_accepted]
    by_cases same : q.objectId = r.objectId
    · have above := lowest q member same differs
      rw [same] at low chained ⊢
      rw [Function.update_self]
      exact ⟨by omega,fun _ => chained (by omega)⟩
    · rw [Function.update_of_ne same]
      exact ⟨low,chained⟩

theorem linked_removed (linked : Linked crates account log queue) (inside : r ∈ queue)
    (seen : ofMutation log account r.mutationId = some e) :
    Linked crates account log (queue.filter (fun q => q.mutationId ≠ r.mutationId)) := by
  have kept : ∀ q ∈ queue.filter (fun q => q.mutationId ≠ r.mutationId), q ∈ queue := fun q member => (List.mem_filter.mp member).1
  refine ⟨fun q member => linked.proper q (kept q member),fun q one p two => linked.unique q (kept q one) p (kept p two),
    fun q one p two => linked.distinct q (kept q one) p (kept p two),fun q member => linked.done q (kept q member),?_⟩
  intro q member fresh
  obtain ⟨low,chained⟩ := linked.waiting q (kept q member) fresh
  refine ⟨low,?_⟩
  intro gap
  obtain ⟨p,held,same,before⟩ := chained gap
  refine ⟨p,?_,same,before⟩
  have top := (linked.done r inside e seen).2
  have differs : p.mutationId ≠ r.mutationId := by
    intro equal
    have is := linked.unique p held r inside equal
    subst is
    rw [same] at top
    omega
  simpa using ⟨held,differs⟩

-- One exchange over the lowest queued edit: taken, or lost on the way.
theorem linked_handled (linked : Linked crates account log queue) (rep : Represents crates log db) (inside : r ∈ queue)
    (lowest : Lowest queue r) (handled : Handled account log r answer added) :
    (∃ resp, answer = .ok resp) ∧ Linked crates account (log ++ added) queue ∧
      Linked crates account (log ++ added) (queue.filter (fun q => q.mutationId ≠ r.mutationId)) := by
  cases handled with
  | accepted fresh current =>
      have logged := linked_logged linked inside lowest fresh
      have seen : ofMutation (log ++ [entryOf log account r]) account r.mutationId = some (entryOf log account r) := by
        rw [ofMutation_append,fresh]
        simp [entryOf,nextAcceptance]
      exact ⟨⟨_,rfl⟩,logged,linked_removed logged inside seen⟩
  | replayed old object =>
      rw [List.append_nil]
      exact ⟨⟨_,rfl⟩,linked,linked_removed linked inside old⟩
  | mismatched old differs => exact absurd (linked.done r inside _ old).1 differs
  | conflicting fresh last stale =>
      have count := last_revision rep last
      exact absurd ((lowest_current linked inside lowest fresh).trans count.symm) stale
  | missing fresh absent stale => exact absurd ((lowest_current linked inside lowest fresh).trans absent) stale

variable {options : PushOptions Key} {s t : Storage} {l l' : Link} {row : PendingMutation} {rest : List PendingMutation}

def Unaccepted (x : Exchange) : Prop := ∀ resp, x.answer ≠ .ok resp

-- After an exchange that did not end in a success nothing of its object is sent.
def Unbroken (pushes : List Exchange) : Prop :=
  pushes.Pairwise (fun x y => Unaccepted x → y.request.objectId ≠ x.request.objectId)

-- The part of a listing that `max_mutations` still lets through.
def within (options : PushOptions Key) (attempted : Nat) (list : List PendingMutation) : List PendingMutation :=
  match options.maxMutations with
  | none => list
  | some most => list.take (most-attempted)

theorem within_room (row : PendingMutation) (rest : List PendingMutation) (room : ¬Full options attempted) :
    within options attempted (row :: rest) = row :: within options (attempted+1) rest := by
  unfold within
  unfold Full at room
  cases limit : options.maxMutations with
  | none => rfl
  | some most =>
      have below : attempted < most := by simpa [limit] using room
      simp only
      rw [show most-attempted = (most-(attempted+1))+1 by omega,List.take_succ_cons]

-- No exchange breaks while another edit of its object is still to be sent.
def Spared : List PendingMutation → List Slot → Prop
  | [],_ => True
  | m :: rest,slots =>
    ((slots.headD .quiet).fault ≠ none → ∀ x ∈ rest, x.objectId ≠ m.objectId) ∧ Spared rest slots.tail

-- The edits of an object are listed in the order they were made, and only the
-- last one that will be sent meets a fault.
structure Gentle (options : PushOptions Key) (s : Storage) (schedule : List Slot) : Prop where
  ascending : s.listPendingMutations.Pairwise (fun x y => x.objectId = y.objectId → x.expectedRevision < y.expectedRevision)
  spared : Spared (within options 0 s.listPendingMutations) schedule

def Alone (schedule : List Slot) : Prop := ∀ slot ∈ schedule, slot.others = []

structure Kept (crates : Crates) (account : String) (c : Table String ConflictRecord (·.conflictId)) (l : Link) (s : Storage) :
    Prop where
  linked : ∃ log, Represents crates log l.db ∧ Linked crates account log (requests s)
  usable : ∀ m ∈ s.mutations.rows, m.status ≠ .failed
  conflicts : s.conflicts = c
  unbroken : Unbroken l.pushes

structure Turning (options : PushOptions Key) (list : List PendingMutation) (l : Link) (s : Storage) (n : Nat) : Prop where
  alone : Alone l.schedule
  able : ∀ m ∈ list, ready m = true
  ascending : list.Pairwise (fun x y => x.objectId = y.objectId → x.expectedRevision < y.expectedRevision)
  spared : Spared (within options n list) l.schedule
  whole : ∀ x ∈ within options n list, ∀ q ∈ requests s, q.objectId = x.objectId → ∃ m ∈ list, requestOf m = q
  clear : ∀ x ∈ l.pushes, Unaccepted x → ∀ m ∈ within options n list, m.objectId ≠ x.request.objectId

theorem turning_lowest (turning : Turning options (row :: rest) l s n) (room : ¬Full options n) :
    Lowest (requests s) (requestOf row) := by
  intro q member same differs
  have first : row ∈ within options n (row :: rest) := by rw [within_room row rest room]; exact List.mem_cons_self
  obtain ⟨m,inside,rfl⟩ := turning.whole row first q member same
  rcases List.mem_cons.mp inside with rfl | later
  · exact absurd rfl differs
  · exact (List.pairwise_cons.mp turning.ascending).1 m later same.symm

theorem quiet_slot (alone : Alone l.schedule) : l.slot.others = [] := by
  unfold Link.slot
  cases slots : l.schedule with
  | nil => rfl
  | cons slot more => exact alone slot (by rw [slots]; exact List.mem_cons_self)

-- One exchange with the lowest edit, over a link nobody else uses.
theorem lone_push (rep : Represents crates log l.db) (linked : Linked crates account log queue) (alone : Alone l.schedule)
    (inside : r ∈ queue) (lowest : Lowest queue r) :
    ∃ x log₁, Represents crates log₁ (serverPush crates account r l).2.db ∧ x.request = r ∧
      x.answer = (serverPush crates account r l).1 ∧ (serverPush crates account r l).2.pushes = l.pushes ++ [x] ∧
      (serverPush crates account r l).2.schedule = l.schedule.tail ∧
      ((∃ resp, (serverPush crates account r l).1 = .ok resp) ∧
        Linked crates account log₁ (queue.filter (fun q => q.mutationId ≠ r.mutationId)) ∨
      l.slot.fault ≠ none ∧ (∃ e, (serverPush crates account r l).1 = .error e ∧ e.isTransient = true) ∧
        Linked crates account log₁ queue) := by
  obtain ⟨added,handled,served,after,answers,link⟩ := push_served rep (linked.proper r inside) account
  have same : arrivals crates log l = log := by simp [arrivals,quiet_slot alone,acceptedBy]
  rw [same] at served after answers
  refine ⟨⟨r,l.arrived crates,handled,(serverPush crates account r l).1⟩,log ++ added,after,rfl,rfl,by rw [link],by rw [link],?_⟩
  cases fault : l.slot.fault with
  | none =>
      obtain ⟨taken,_,removed⟩ := linked_handled linked rep inside lowest (answers fault)
      exact .inl ⟨taken,removed⟩
  | some broken =>
      generalize (serverPush crates account r l).1 = answer at served ⊢
      cases served with
      | unsent outage => exact .inr ⟨by simp,⟨_,rfl,outage_transient outage⟩,by simpa using linked⟩
      | unheard outage handled => 
          exact .inr ⟨by simp,⟨_,rfl,outage_transient outage⟩,(linked_handled linked rep inside lowest handled).2.1⟩
      | answered handled =>
          obtain ⟨taken,_,removed⟩ := linked_handled linked rep inside lowest handled
          exact .inl ⟨taken,removed⟩

theorem unbroken_snoc (unbroken : Unbroken pushes)
    (clear : ∀ y ∈ pushes, Unaccepted y → x.request.objectId ≠ y.request.objectId) : Unbroken (pushes ++ [x]) := by
  refine List.pairwise_append.mpr ⟨unbroken,List.pairwise_singleton _ _,?_⟩
  intro y inside z last bad
  rw [List.mem_singleton.mp last]
  exact clear y inside bad

theorem row_queued (found : s.getMutation row.mutationId = some row) : requestOf row ∈ requests s :=
  List.mem_map_of_mem (find_mem found)

theorem turn_keeps (kept : Kept crates account c l s) (turning : Turning options (row :: rest) l s n) (room : ¬Full options n)
    (found : s.getMutation row.mutationId = some row)
    (outcome : Outcome options s row (serverPush crates account (requestOf row) l).1 t flow) :
    flow = .next ∧ Kept crates account c (serverPush crates account (requestOf row) l).2 t ∧
      Turning options rest (serverPush crates account (requestOf row) l).2 t (n+1) := by
  obtain ⟨log,rep,linked⟩ := kept.linked
  obtain ⟨x,log₁,after,own,answer,pushes,schedule,served⟩ :=
    lone_push rep linked turning.alone (row_queued found) (turning_lowest turning room)
  have part := within_room row rest room
  have spared := turning.spared
  rw [part] at spared
  have sent : row ∈ within options n (row :: rest) := by rw [part]; exact List.mem_cons_self
  have left : ∀ m ∈ within options (n+1) rest, m ∈ within options n (row :: rest) := by
    intro m inside
    rw [part]
    exact List.mem_cons_of_mem _ inside
  have alone : Alone (serverPush crates account (requestOf row) l).2.schedule := by
    rw [schedule]
    exact fun slot inside => turning.alone slot (List.mem_of_mem_tail inside)
  have logged : Unbroken (serverPush crates account (requestOf row) l).2.pushes := by
    rw [pushes]
    refine unbroken_snoc kept.unbroken ?_
    intro y inside bad
    rw [own]
    exact turning.clear y inside bad row sent
  have able : ∀ m ∈ rest, ready m = true := fun m inside => turning.able m (List.mem_cons_of_mem _ inside)
  have ascending := (List.pairwise_cons.mp turning.ascending).2
  have ahead : Spared (within options (n+1) rest) (serverPush crates account (requestOf row) l).2.schedule := by
    rw [schedule]; exact spared.2
  rcases served with ⟨⟨resp,taken⟩,removed⟩ | ⟨fault,⟨e,lost,passing⟩,still⟩
  · rw [taken] at outcome
    cases outcome with
    | accepted resp now =>
        have queue := requests_accept s row resp now
        refine ⟨rfl,⟨⟨log₁,after,by rw [queue]; exact removed⟩,?_,kept.conflicts,logged⟩,alone,able,ascending,ahead,?_,?_⟩
        · intro m inside
          exact kept.usable m ((mem_accept resp now).mp inside).1
        · intro y inside q member same
          rw [queue] at member
          obtain ⟨before,other⟩ := List.mem_filter.mp member
          obtain ⟨m,listed,rfl⟩ := turning.whole y (left y inside) q before same
          rcases List.mem_cons.mp listed with rfl | later
          · simp [requestOf] at other
          · exact ⟨m,later,rfl⟩
        · intro y inside bad m member
          rw [pushes] at inside
          rcases List.mem_append.mp inside with before | last
          · exact turning.clear y before bad m (left m member)
          · rw [List.mem_singleton.mp last] at bad
            exact absurd (answer.trans taken) (bad resp)
  · rw [lost] at outcome
    cases outcome with
    | conflicting => cases passing
    | unrecorded => cases passing
    | fatal retries lasting =>
        rw [passing] at lasting
        cases lasting
    | transient retries _ =>
        have queue := requests_restatus found .pending retries
        -- nothing else of this object will be sent
        have last : ∀ m ∈ within options (n+1) rest, m.objectId ≠ row.objectId := spared.1 fault
        refine ⟨rfl,⟨⟨log₁,after,by rw [queue]; exact still⟩,?_,kept.conflicts,logged⟩,alone,able,ascending,ahead,?_,?_⟩
        · intro m inside
          rcases (mem_restatus .pending retries).mp inside with rfl | ⟨before,_⟩
          · simp [marked]
          · exact kept.usable m before
        · intro y inside q member same
          rw [queue] at member
          obtain ⟨m,listed,rfl⟩ := turning.whole y (left y inside) q member same
          rcases List.mem_cons.mp listed with rfl | later
          · exact absurd same.symm (last y inside)
          · exact ⟨m,later,rfl⟩
        · intro y inside bad m member
          rw [pushes] at inside
          rcases List.mem_append.mp inside with before | final
          · exact turning.clear y before bad m (left m member)
          · rw [List.mem_singleton.mp final,own]
            exact last m member

structure PushCall (Key : Type) where
  options : PushOptions Key
  ticks : Nat → Tick
  schedule : List Slot

def PushCall.run (crates : Crates) (account : String) (codec : NoteCodec Key Note) (call : PushCall Key) (db : ServerDb)
    (s : Storage) : Link × Storage × Except PushError PushReport :=
  pushPendingChanges (honest crates account) codec call.options call.ticks ⟨db,call.schedule,[],[]⟩ s

theorem push_keeps (codec : NoteCodec Key Note) (call : PushCall Key) (rep : Represents crates log db) (linked : Linked crates account log (requests s))
    (usable : ∀ m ∈ s.mutations.rows, m.status ≠ .failed) (alone : Alone call.schedule) (gentle : Gentle call.options s call.schedule) :
    Kept crates account s.conflicts (call.run crates account codec db s).1 (call.run crates account codec db s).2.1 := by
  have able : ∀ m ∈ s.listPendingMutations, ready m = true := by
    intro m inside
    have fit := usable m ((mem_pending s m).mp inside)
    cases status : m.status with
    | pending => simp [ready,status]
    | inFlight => simp [ready,status]
    | failed => exact absurd status fit
  have start : Turning call.options s.listPendingMutations ⟨db,call.schedule,[],[]⟩ s 0 := by
    refine ⟨alone,able,gentle.ascending,gentle.spared,?_,by simp⟩
    intro _ _ q member _
    obtain ⟨m,inside,rfl⟩ := List.mem_map.mp member
    exact ⟨m,(mem_pending s m).mpr inside,rfl⟩
  have kept : Kept crates account s.conflicts ⟨db,call.schedule,[],[]⟩ s := ⟨⟨log,rep,linked⟩,usable,rfl,.nil⟩
  refine push_loop_rule (fun rest l t n => Kept crates account s.conflicts l t ∧ Turning call.options rest l t n)
    (Kept crates account s.conflicts) ?_ ?_ ?_ ?_ (listed_start s) ⟨kept,start⟩
    (rfl : pushLoop (honest crates account) codec call.options call.ticks s.listPendingMutations ⟨db,call.schedule,[],[]⟩ s .default = _)
  · intro rest l t n inv _
    exact inv.1
  · intro row rest l t n inv unable
    rw [inv.2.able row List.mem_cons_self] at unable
    cases unable
  · intro row rest l t n inv _ room listed
    obtain ⟨log,rep,linked⟩ := inv.1.linked
    obtain ⟨_,_,_,_,_,_,_,served⟩ := lone_push rep linked inv.2.alone (row_queued (listed.present row List.mem_cons_self))
      (turning_lowest inv.2 room)
    right
    intro conflict answer
    change (serverPush crates account (requestOf row) l).1 = _ at answer
    rcases served with ⟨⟨resp,taken⟩,_⟩ | ⟨_,⟨e,lost,passing⟩,_⟩
    · rw [answer] at taken; cases taken
    · rw [answer] at lost; cases lost; cases passing
  · intro row rest l t n u flow inv _ room _ found outcome
    obtain ⟨goes,next,onward⟩ := turn_keeps inv.1 inv.2 room found outcome
    exact ⟨fun _ => ⟨next,onward⟩,fun stops => absurd goes stops⟩

-- The states after each of a row of pushes.
def runPushes (crates : Crates) (account : String) (codec : NoteCodec Key Note) :
    List (PushCall Key) → ServerDb → Storage → List (Link × Storage)
  | [],_,_ => []
  | call :: rest,db,s =>
    let (l,t,_) := call.run crates account codec db s
    (l,t) :: runPushes crates account codec rest l.db t

def GentleRun (crates : Crates) (account : String) (codec : NoteCodec Key Note) :
    List (PushCall Key) → ServerDb → Storage → Prop
  | [],_,_ => True
  | call :: rest,db,s =>
    Gentle call.options s call.schedule ∧
      GentleRun crates account codec rest (call.run crates account codec db s).1.db (call.run crates account codec db s).2.1

theorem pushes_keep (calls : List (PushCall Key)) (alone : ∀ call ∈ calls, Alone call.schedule)
    (gentle : GentleRun crates account codec calls db s) (rep : Represents crates log db)
    (linked : Linked crates account log (requests s)) (usable : ∀ m ∈ s.mutations.rows, m.status ≠ .failed) :
    ∀ x ∈ runPushes crates account codec calls db s, Kept crates account s.conflicts x.1 x.2 := by
  induction calls generalizing db s log with
  | nil =>
      intro x inside
      cases inside
  | cons call rest ih =>
      have kept := push_keeps codec call rep linked usable (alone call List.mem_cons_self) gentle.1
      obtain ⟨log₁,rep₁,linked₁⟩ := kept.linked
      have later := ih (fun x inside => alone x (List.mem_cons_of_mem _ inside)) gentle.2 rep₁ linked₁ kept.usable
      rw [kept.conflicts] at later
      intro x inside
      rcases List.mem_cons.mp inside with rfl | after
      · exact kept
      · exact later x after

theorem drafted_linked (rep : Represents crates log db) (sound : Sound crates s) (drafted : Drafted (headAt db account) s)
    (unseen : ∀ m ∈ s.mutations.rows, db.processed.find (account,m.mutationId) = none) :
    Linked crates account log (requests s) := by
  have fresh : ∀ m ∈ s.mutations.rows, ofMutation log account m.mutationId = none := by
    intro m inside
    have free := unseen m inside
    rw [rep.processed] at free
    exact Option.map_eq_none_iff.mp free
  refine ⟨?_,?_,?_,?_,?_⟩
  · intro r member
    obtain ⟨m,inside,rfl⟩ := List.mem_map.mp member
    exact sendable_proper (sound.queue m inside)
  · intro q one r two same
    obtain ⟨m,inside,rfl⟩ := List.mem_map.mp one
    obtain ⟨p,present,rfl⟩ := List.mem_map.mp two
    rw [Option.some.inj ((mem_iff_find.mp inside).symm.trans (mem_find present same.symm))]
  · intro q one r two object level
    obtain ⟨m,inside,rfl⟩ := List.mem_map.mp one
    obtain ⟨p,present,rfl⟩ := List.mem_map.mp two
    rw [drafted.distinct m inside p present object level]
  · intro r member e found
    obtain ⟨m,inside,rfl⟩ := List.mem_map.mp member
    have free : ofMutation log account (requestOf m).mutationId = none := fresh m inside
    rw [free] at found
    cases found
  · intro r member _
    obtain ⟨m,inside,rfl⟩ := List.mem_map.mp member
    rw [← head_at_eq rep]
    refine ⟨drafted.above m inside,?_⟩
    intro gap
    have gap : headAt db account m.objectId < m.expectedRevision := gap
    obtain ⟨q,held,same,is⟩ := drafted.linked m inside (m.expectedRevision-1) (by omega) (by omega)
    refine ⟨requestOf q,List.mem_map_of_mem held,same,?_⟩
    change q.expectedRevision+1 = m.expectedRevision
    omega

theorem commands_conflicts {key : Key} (commands : List Command) (s : Storage) :
    (runCommands codec key commands s).conflicts = s.conflicts := by
  induction commands generalizing s with
  | nil => rfl
  | cons command rest ih => rw [runCommands,ih,(run_frame command s).2]

-- The other way round, for one push of everything: whenever no record is stored,
-- nothing fails and no object is sent on, the listing was in order and spared.

theorem faulty_push (fault : l.slot.fault ≠ none) (r : PushRequest) :
    ∀ resp, (serverPush crates account r l).1 ≠ .ok resp := by
  intro resp answer
  unfold serverPush at answer
  cases broken : l.slot.fault with
  | none => exact fault broken
  | some kind => cases kind <;> simp [broken] at answer

-- Everything still listed is new to the server and not behind its head.
def Ahead (account : String) (log : List Acceptance) (list : List PendingMutation) : Prop :=
  ∀ m ∈ list, ofMutation log account m.mutationId = none ∧ headRevision log account m.objectId ≤ m.expectedRevision

theorem ahead_next (ahead : Ahead account log (row :: rest)) (distinct : ((row :: rest).map (·.mutationId)).Nodup)
    (levels : ∀ m ∈ rest, m.objectId = row.objectId → m.expectedRevision ≠ row.expectedRevision)
    (handled : Handled account log (requestOf row) answer added) : Ahead account (log ++ added) rest := by
  have same : Ahead account (log ++ []) rest := by
    rw [List.append_nil]
    exact fun m inside => ahead m (List.mem_cons_of_mem _ inside)
  cases handled with
  | accepted fresh current =>
      simp only [request_object,request_expected] at current
      intro m inside
      have other : row.mutationId ≠ m.mutationId := by
        intro equal
        simp only [List.map_cons,List.nodup_cons] at distinct
        exact distinct.1 (equal ▸ List.mem_map_of_mem inside)
      obtain ⟨unseen,low⟩ := ahead m (List.mem_cons_of_mem _ inside)
      refine ⟨(logged_after other).trans unseen,?_⟩
      rw [head_accepted]
      simp only [request_object]
      by_cases object : m.objectId = row.objectId
      · have differs := levels m inside object
        rw [object] at low ⊢
        rw [Function.update_self]
        omega
      · rw [Function.update_of_ne object]
        exact low
  | replayed => exact same
  | mismatched => exact same
  | conflicting => exact same
  | missing => exact same

theorem conflicts_persist {ticks : Nat → Tick} (manual : options.conflictPolicy = .manual) (list : List PendingMutation)
    (listed : Listed list s) (stored : s.conflicts.rows ≠ [])
    (ran : pushLoop (honest crates account) codec options ticks list l s report = (l',t,result)) : t.conflicts.rows ≠ [] := by
  refine push_loop_rule (fun _ _ s _ => s.conflicts.rows ≠ []) (fun _ s => s.conflicts.rows ≠ []) (fun _ _ _ _ kept _ => kept)
    (fun _ _ _ _ _ kept _ => kept) (fun _ _ _ _ _ _ _ _ _ => .inl manual) ?_ listed stored ran
  intro row rest l s n t flow kept _ _ _ _ outcome
  generalize ((honest crates account).pushMutation (requestOf row) l).1 = answer at outcome
  have next : t.conflicts.rows ≠ [] := by
    cases outcome with
    | accepted => exact kept
    | conflicting conflict retries record =>
        have member : record ∈ (s.conflicts.upsert record).rows := mem_upsert.mpr (.inl rfl)
        exact List.ne_nil_of_mem member
    | unrecorded => exact kept
    | transient => exact kept
    | fatal => exact kept
  exact ⟨fun _ => next,fun _ => next⟩

theorem ahead_push (rep : Represents crates log l.db) (alone : Alone l.schedule) (proper : Proper crates (requestOf row))
    (ahead : Ahead account log (row :: rest)) (distinct : ((row :: rest).map (·.mutationId)).Nodup)
    (levels : ∀ m ∈ rest, m.objectId = row.objectId → m.expectedRevision ≠ row.expectedRevision) :
    ∃ x log₁, Represents crates log₁ (serverPush crates account (requestOf row) l).2.db ∧ Ahead account log₁ rest ∧
      Alone (serverPush crates account (requestOf row) l).2.schedule ∧
      (serverPush crates account (requestOf row) l).2.schedule = l.schedule.tail ∧
      (serverPush crates account (requestOf row) l).2.pushes = l.pushes ++ [x] ∧ x.request = requestOf row ∧
      x.answer = (serverPush crates account (requestOf row) l).1 ∧
      ∀ resp, (serverPush crates account (requestOf row) l).1 = .ok resp →
        row.expectedRevision = headRevision log account row.objectId := by
  obtain ⟨added,handled,served,after,_,link⟩ := push_served rep proper account
  have quiet : arrivals crates log l = log := by simp [arrivals,quiet_slot alone,acceptedBy]
  rw [quiet] at served after
  have schedule : (serverPush crates account (requestOf row) l).2.schedule = l.schedule.tail := by rw [link]
  refine ⟨⟨requestOf row,l.arrived crates,handled,(serverPush crates account (requestOf row) l).1⟩,log ++ added,after,?_,?_,
    schedule,by rw [link],rfl,rfl,?_⟩
  · generalize (serverPush crates account (requestOf row) l).1 = answer at served
    cases served with
    | unsent => simpa [Ahead] using fun m inside => ahead m (List.mem_cons_of_mem _ inside)
    | unheard _ handled => exact ahead_next ahead distinct levels handled
    | answered handled => exact ahead_next ahead distinct levels handled
  · rw [schedule]
    exact fun slot inside => alone slot (List.mem_of_mem_tail inside)
  · intro resp answer
    rw [answer] at served
    have fresh := (ahead row List.mem_cons_self).1
    cases served with
    | answered handled =>
        cases handled with
        | accepted _ current => exact current
        | replayed old => rw [request_mutation,fresh] at old; cases old

theorem loop_gentle {ticks : Nat → Tick} (report : PushReport) (list : List PendingMutation) (listed : Listed list s)
    (able : ∀ m ∈ list, ready m = true) (proper : ∀ m ∈ list, Proper crates (requestOf m))
    (levels : list.Pairwise (fun x y => x.objectId = y.objectId → x.expectedRevision ≠ y.expectedRevision))
    (ahead : Ahead account log list) (rep : Represents crates log l.db) (alone : Alone l.schedule)
    (ran : pushLoop (honest crates account) codec .default ticks list l s report = (l',t,result))
    (unrecorded : t.conflicts.rows = []) (usable : ∀ m ∈ t.mutations.rows, m.status ≠ .failed) (unbroken : Unbroken l'.pushes) :
    list.Pairwise (fun x y => x.objectId = y.objectId → x.expectedRevision < y.expectedRevision) ∧
    Spared list l.schedule ∧ ∃ more, l'.pushes = l.pushes ++ more ∧ ∀ m ∈ list, ∃ x ∈ more, x.request = requestOf m := by
  induction list generalizing log l s report with
  | nil =>
      cases ran
      exact ⟨.nil,trivial,[],by simp,by simp⟩
  | cons row rest ih =>
      obtain ⟨others,levelsRest⟩ := List.pairwise_cons.mp levels
      have apart : ∀ m ∈ rest, m.objectId = row.objectId → m.expectedRevision ≠ row.expectedRevision :=
        fun m inside same equal => others m inside same.symm equal.symm
      obtain ⟨x,log₁,rep₁,ahead₁,alone₁,schedule,pushes,own,answer,current⟩ :=
        ahead_push rep alone (proper row List.mem_cons_self) ahead listed.distinct apart
      unfold pushLoop at ran
      rw [if_neg (by simp [PushOptions.default]),if_pos (able row List.mem_cons_self)] at ran
      generalize attempted : attempt (honest crates account) codec .default (ticks report.totalAttempted) row l s report = ended at ran
      obtain ⟨l₁,s₁,report₁,flow⟩ := ended
      obtain ⟨rfl,_,outcome⟩ := attempt_outcome (.inl rfl) (listed.present row List.mem_cons_self) attempted
      change Outcome .default s row (serverPush crates account (requestOf row) l).1 s₁ flow at outcome
      have listed₁ := listed_next listed outcome
      have onward : flow = .next → _ := fun goes => ih report₁ listed₁
        (fun m inside => able m (List.mem_cons_of_mem _ inside)) (fun m inside => proper m (List.mem_cons_of_mem _ inside))
        levelsRest ahead₁ rep₁ alone₁ (by rw [goes] at ran; exact ran)
      rw [schedule,pushes] at onward
      have slot : l.slot = l.schedule.headD .quiet := rfl
      generalize given : (serverPush crates account (requestOf row) l).1 = reply at outcome
      cases outcome with
      | accepted resp now =>
          obtain ⟨ascending,spared,more,sent,all⟩ := onward rfl
          refine ⟨List.pairwise_cons.mpr ⟨?_,ascending⟩,⟨?_,spared⟩,x :: more,by simpa using sent,?_⟩
          · intro m inside same
            have low := (ahead m (List.mem_cons_of_mem _ inside)).2
            have level := current resp given
            have differs := others m inside same
            rw [← same] at low
            omega
          · intro fault
            rw [← slot] at fault
            exact absurd given (faulty_push fault _ resp)
          · intro m inside
            rcases List.mem_cons.mp inside with rfl | later
            · exact ⟨x,List.mem_cons_self,own⟩
            · obtain ⟨y,member,is⟩ := all m later
              exact ⟨y,List.mem_cons_of_mem _ member,is⟩
      | transient retries passing =>
          obtain ⟨ascending,spared,more,sent,all⟩ := onward rfl
          -- every later edit is sent after this one, so none is of its object
          have apartFrom : ∀ m ∈ rest, m.objectId ≠ row.objectId := by
            intro m inside
            obtain ⟨y,member,is⟩ := all m inside
            rw [sent,List.append_assoc] at unbroken
            have pair := (List.pairwise_cons.mp (List.pairwise_append.mp unbroken).2.1).1 y member
            have lost : Unaccepted x := by
              intro resp taken
              rw [answer,given] at taken
              cases taken
            have differs := pair lost
            rwa [is,own] at differs
          refine ⟨List.pairwise_cons.mpr ⟨?_,ascending⟩,⟨fun _ => apartFrom,spared⟩,x :: more,by simpa using sent,?_⟩
          · intro m inside same
            exact absurd same.symm (apartFrom m inside)
          · intro m inside
            rcases List.mem_cons.mp inside with rfl | later
            · exact ⟨x,List.mem_cons_self,own⟩
            · obtain ⟨y,member,is⟩ := all m later
              exact ⟨y,List.mem_cons_of_mem _ member,is⟩
      | conflicting conflict retries record =>
          have stored : ((restatus s row .pending retries).putConflict record).conflicts.rows ≠ [] :=
            List.ne_nil_of_mem (mem_upsert.mpr (.inl rfl))
          exact absurd unrecorded (conflicts_persist rfl rest listed₁ stored ran)
      | unrecorded _ _ _ keyed => exact absurd rfl keyed
      | fatal retries =>
          cases ran
          exact absurd rfl (usable _ ((mem_restatus .failed retries).mpr (.inl rfl)))

-- What the push must come to, whatever the network does: no conflict record, no
-- failed mutation, and no edit sent on top of one that was not accepted.
structure Harmless (l : Link) (s : Storage) : Prop where
  unrecorded : s.conflicts.rows = []
  usable : ∀ m ∈ s.mutations.rows, m.status ≠ .failed
  unbroken : Unbroken l.pushes

theorem transient_harmless (crates : Crates) (codec : NoteCodec Key Note) (key : Key) (account : String) (before : List Call)
    (commands : List Command) (s₀ : Storage) (seals : Seals crates codec) (empty : s₀.mutations.rows = [])
    (sound : Sound crates s₀)
    (level : ∀ x ∈ s₀.objects.rows, x.revision = headAt (pushAll crates .newInMemory before) account x.objectId)
    (novel : NovelRun crates (headAt (pushAll crates .newInMemory before) account) codec key commands s₀)
    (unseen : ∀ m ∈ (runCommands codec key commands s₀).mutations.rows,
      (pushAll crates .newInMemory before).processed.find (account,m.mutationId) = none)
    (unrecorded : s₀.conflicts.rows = []) :
    (∀ calls : List (PushCall Key), (∀ call ∈ calls, Alone call.schedule) →
      GentleRun crates account codec calls (pushAll crates .newInMemory before) (runCommands codec key commands s₀) →
      ∀ x ∈ runPushes crates account codec calls (pushAll crates .newInMemory before) (runCommands codec key commands s₀),
        Harmless x.1 x.2) ∧
    (∀ ticks schedule, Alone schedule →
      (Harmless (PushCall.run crates account codec ⟨.default,ticks,schedule⟩ (pushAll crates .newInMemory before)
          (runCommands codec key commands s₀)).1
        (PushCall.run crates account codec ⟨.default,ticks,schedule⟩ (pushAll crates .newInMemory before)
          (runCommands codec key commands s₀)).2.1 ↔
      Gentle (.default : PushOptions Key) (runCommands codec key commands s₀) schedule)) := by
  have rep : Represents crates _ _ := reached_represents before
  obtain ⟨fine,drafted⟩ := drafted_run seals commands novel sound (drafted_start empty level)
  have linked := drafted_linked rep fine drafted unseen
  have usable : ∀ m ∈ (runCommands codec key commands s₀).mutations.rows, m.status ≠ .failed := by
    intro m inside
    simp [drafted.pending m inside]
  have none : (runCommands codec key commands s₀).conflicts.rows = [] := by rw [commands_conflicts]; exact unrecorded
  generalize runCommands codec key commands s₀ = s at fine drafted linked usable none unseen ⊢
  generalize pushAll crates .newInMemory before = db at rep drafted unseen ⊢
  generalize acceptedBy crates .newInMemory before = log at rep linked
  refine ⟨?_,?_⟩
  · intro calls alone gentle x inside
    have kept := pushes_keep calls alone gentle rep linked usable x inside
    exact ⟨by rw [kept.conflicts]; exact none,kept.usable,kept.unbroken⟩
  · intro ticks schedule alone
    constructor
    · rintro ⟨quiet,unfailed,unbroken⟩
      have inQueue : ∀ m ∈ s.listPendingMutations, m ∈ s.mutations.rows := fun m => (mem_pending s m).mp
      have able : ∀ m ∈ s.listPendingMutations, ready m = true := by
        intro m inside
        simp [ready,drafted.pending m (inQueue m inside)]
      have levels : s.listPendingMutations.Pairwise (fun x y => x.objectId = y.objectId → x.expectedRevision ≠ y.expectedRevision) := by
        refine List.Pairwise.imp_of_mem ?_ (pending_ids_nodup s).of_map
        intro x y left right differs object level
        exact differs (drafted.distinct x (inQueue x left) y (inQueue y right) object level)
      have ahead : Ahead account log s.listPendingMutations := by
        intro m inside
        have free := unseen m (inQueue m inside)
        rw [rep.processed] at free
        exact ⟨Option.map_eq_none_iff.mp free,by rw [← head_at_eq rep]; exact drafted.above m (inQueue m inside)⟩
      obtain ⟨ascending,spared,_⟩ := loop_gentle (l := ⟨db,schedule,[],[]⟩) .default s.listPendingMutations (listed_start s) able (fun m inside => sendable_proper (fine.queue m (inQueue m inside))) levels ahead
        rep alone
        (rfl : pushLoop (honest crates account) codec .default ticks s.listPendingMutations ⟨db,schedule,[],[]⟩ s .default = _)
        quiet unfailed unbroken
      exact ⟨ascending,spared⟩
    · intro gentle
      have kept := push_keeps codec ⟨.default,ticks,schedule⟩ rep linked usable alone gentle
      exact ⟨by rw [kept.conflicts]; exact none,kept.usable,kept.unbroken⟩

def cut : Outage := .connectionFailed "connection reset"

def pushedOver (schedule : List Slot) : Link × Storage × Except PushError PushReport :=
  PushCall.run .standIn "alice" NoteCodec.standIn ⟨.default,fun _ => ⟨"t3",change1,change1,0⟩,schedule⟩
    (pushAll .standIn .newInMemory created) editedTwice

-- The answer to the last edit is lost after the server took it.
theorem last_answer_lost :
    (pushedOver [.quiet,⟨[],some (.responseLost cut)⟩]).1.pushes.length = 2 ∧
      Harmless (pushedOver [.quiet,⟨[],some (.responseLost cut)⟩]).1 (pushedOver [.quiet,⟨[],some (.responseLost cut)⟩]).2.1 := by
  have listing : editedTwice.listPendingMutations =
      [queued change3 firstNote 1 .pending "cccc" "t1",queued change4 firstNote 2 .pending "dddd" "t2"] := by decide
  refine ⟨by decide,?_⟩
  refine ((transient_harmless .standIn .standIn () "alice" created twoEdits heldNote stand_in_seals rfl held_note_sound (by decide)
    (two_edits_novel _) (by decide) rfl).2 _ _ (by simp [Alone,Slot.quiet])).mpr ?_
  change Gentle .default editedTwice _
  refine ⟨?_,?_⟩
  · rw [listing]
    simp [queued]
  · simp [within,PushOptions.default,listing,Spared,Slot.quiet]

-- The first request is lost: the second edit is sent all the same, finds the
-- server one revision behind it and is recorded as a conflict.
theorem first_request_lost :
    (pushedOver [⟨[],some (.requestLost cut)⟩]).1.pushes.map (fun x => (x.request.mutationId,x.handled)) =
      [(change3,false),(change4,true)] ∧
      (pushedOver [⟨[],some (.requestLost cut)⟩]).2.1.conflicts.rows.map (·.objectId) = [firstNote] ∧
      ¬Harmless (pushedOver [⟨[],some (.requestLost cut)⟩]).1 (pushedOver [⟨[],some (.requestLost cut)⟩]).2.1 := by
  have recorded : (pushedOver [⟨[],some (.requestLost cut)⟩]).2.1.conflicts.rows.map (·.objectId) = [firstNote] := by decide
  refine ⟨by decide,recorded,?_⟩
  intro harmless
  rw [harmless.unrecorded] at recorded
  cases recorded

end ZkNote.TransientFailures
