import ZkNote.CycleSteps
import ZkNote.LocalReplica

namespace ZkNote.ReplicaPhases
open Protocol Adapter KeyedTable ServerStore ServerHistory ServerPages ServerRoutes SyncLink LinkSteps LocalStorage
open MutationQueue Conflict PullChanges PullRules PushChanges PushSteps Orchestrator CycleSteps Notes NoteEdits LocalReplica

variable {crates : Crates} {account : String} {Key Note : Type} {codec : NoteCodec Key Note} {key : Key}
variable {log log₀ : List Acceptance} {s s₀ t : Storage} {l l' : Link} {row : PendingMutation} {rest : List PendingMutation}
variable {queue : List PushRequest}

-- A sync cycle on its way: `log₀` and `s₀` are where it began, and nothing was
-- added to the queue it began with.
structure Going (crates : Crates) (account : String) (queue : List PushRequest) (log₀ : List Acceptance) (s₀ : Storage)
    (log : List Acceptance) (s : Storage) : Prop where
  replica : Replica crates account log s
  steady : Steady account log₀ s₀ log s
  queued : ∀ r ∈ requests s, r ∈ queue

def Allowed (crates : Crates) (account : String) (queue : List PushRequest) (slot : Slot) : Prop :=
  Foreign crates account queue slot.others

theorem quiet_allowed : Allowed crates account queue .quiet := by
  intro call inside
  cases inside

theorem going_start (replica : Replica crates account log s) : Going crates account (requests s) log s log s :=
  ⟨replica,steady_refl account log s,fun _ inside => inside⟩

theorem going_frame (going : Going crates account queue log₀ s₀ log s) (objects : t.objects = s.objects)
    (same : requests t = requests s) (state : currentCursor t = currentCursor s) : Going crates account queue log₀ s₀ log t :=
  ⟨replica_frame going.replica objects same state,steady_trans going.steady (steady_frame account log objects same),
    by rw [same]; exact going.queued⟩

theorem going_grow (going : Going crates account queue log₀ s₀ log s) (rep : Represents crates log db)
    (later : Represents crates (log ++ more) next) (admitted : ∀ e ∈ more, Admitted crates e.request)
    (mine : Mine account s more) : Going crates account queue log₀ s₀ (log ++ more) s :=
  ⟨replica_grow going.replica rep later admitted mine,steady_trans going.steady (steady_grow account log more s),going.queued⟩

theorem foreign_mine (going : Going crates account queue log₀ s₀ log s) (foreign : Foreign crates account queue calls) :
    Mine account s (acceptedBy crates db calls) := by
  intro e inside own r queued same
  exact absurd same (foreign_ids foreign e inside own r (going.queued r queued))

theorem going_others (going : Going crates account queue log₀ s₀ log s) (rep : Represents crates log db)
    (foreign : Foreign crates account queue calls) :
    Going crates account queue log₀ s₀ (log ++ acceptedBy crates db calls) s :=
  going_grow going rep (pushAll_represents rep calls) (foreign_admitted foreign) (foreign_mine going foreign)

theorem pull_keeps_going (crates : Crates) (account : String) (clock : Nat → String) (queue : List PushRequest)
    (log₀ : List Acceptance) (s₀ : Storage) :
    PullKeeps crates account clock (Allowed crates account queue)
      (fun log _ p => Going crates account queue log₀ s₀ log p.storage ∧ currentCursor p.storage = p.currentSeq) := by
  refine ⟨?_,?_,?_,?_⟩
  · rintro log db p r rep ⟨going,durable⟩ head
    rw [← durable] at head
    refine ⟨⟨replica_take going.replica rep head _,?_,going.queued⟩,rfl⟩
    exact steady_trans going.steady (steady_take going.replica rep head _)
  · rintro log db p slot rep foreign ⟨going,durable⟩
    exact ⟨going_others going rep foreign,durable⟩
  · exact fun log db p kept => kept
  · exact fun log db p n kept => kept

-- What holds between the phases of a cycle.
def Between (crates : Crates) (account : String) (queue : List PushRequest) (log₀ : List Acceptance) (s₀ : Storage)
    (l : Link) (s : Storage) : Prop :=
  ∃ log, Represents crates log l.db ∧ Going crates account queue log₀ s₀ log s ∧ ∀ slot ∈ l.schedule, Allowed crates account queue slot

theorem pull_going {vaultKey : Option Key} (between : Between crates account queue log₀ s₀ l s)
    (ran : pullRemoteChanges (honest crates account) codec vaultKey options clock fuel l s = some (l',t,result)) :
    Between crates account queue log₀ s₀ l' t := by
  obtain ⟨log,rep,going,allowed⟩ := between
  obtain ⟨p,ended,looped,objects,cursor,frame⟩ := pull_ran ran
  obtain ⟨⟨⟨more,after,kept,_⟩,_,later⟩,_⟩ := pull_loop_keeps (pull_keeps_going crates account clock queue log₀ s₀) quiet_allowed fuel
    (p := startPull s) rep allowed rfl ⟨going,rfl⟩ looped
  refine ⟨log ++ more,after,going_frame kept objects ?_ cursor,later⟩
  simp only [requests,frame.mutations]

-- The replays still due in a push: none is older than what is stored or than a
-- head behind the cursor, and none is listed behind a later edit of its object.
structure Due (account : String) (log : List Acceptance) (list : List PendingMutation) (s : Storage) : Prop where
  low : ∀ m ∈ list, ∀ e, ofMutation log account m.mutationId = some e → ∀ x, s.getObject m.objectId = some x → x.revision ≤ e.revision
  behind : ∀ m ∈ list, ∀ e, ofMutation log account m.mutationId = some e →
    ∀ h, (ofObject log account m.objectId).getLast? = some h → h.seq ≤ currentCursor s → h.revision ≤ e.revision
  order : list.Pairwise (fun x y => x.objectId = y.objectId → ofMutation log account y.mutationId ≠ none →
    x.expectedRevision ≤ y.expectedRevision)

theorem due_grow (due : Due account log list s) (rep : Represents crates log db) (later : Represents crates (log ++ more) next)
    (cursor : currentCursor s ≤ (ofAccount log account).length)
    (same : ∀ m ∈ list, ofMutation (log ++ more) account m.mutationId = ofMutation log account m.mutationId) :
    Due account (log ++ more) list s := by
  refine ⟨?_,?_,?_⟩
  · intro m inside e found
    rw [same m inside] at found
    exact due.low m inside e found
  · intro m inside e found h last below
    rw [same m inside] at found
    exact due.behind m inside e found h (head_old rep later (Nat.le_trans below cursor) last) below
  · refine List.Pairwise.imp_of_mem ?_ due.order
    intro x y _ right ordered object seen
    rw [same y right] at seen
    exact ordered object seen

theorem due_frame (due : Due account log list s) (objects : t.objects = s.objects) (state : currentCursor t = currentCursor s) :
    Due account log list t :=
  ⟨by simpa only [Storage.getObject,objects] using due.low,by rw [state]; exact due.behind,due.order⟩

theorem due_tail (due : Due account log (row :: rest) s) : Due account log rest s :=
  ⟨fun m inside => due.low m (List.mem_cons_of_mem _ inside),fun m inside => due.behind m (List.mem_cons_of_mem _ inside),
    (List.pairwise_cons.mp due.order).2⟩

theorem handled_added (proper : Proper crates (requestOf row)) (found : s.getMutation row.mutationId = some row)
    (handled : Handled account log (requestOf row) answer added) :
    (∀ e ∈ added, Admitted crates e.request) ∧ Mine account s added ∧ ∀ e ∈ added, e.mutationId = row.mutationId := by
  cases handled with
  | accepted =>
      refine ⟨?_,?_,?_⟩
      · intro e inside
        rw [List.mem_singleton.mp inside]
        exact proper.admitted
      · intro e inside _ r queued same
        rw [List.mem_singleton.mp inside] at same ⊢
        exact (request_unique found queued same.symm).symm
      · intro e inside
        rw [List.mem_singleton.mp inside]
        rfl
  | _ => exact ⟨by simp,by simp [Mine],by simp⟩

theorem served_added (proper : Proper crates (requestOf row)) (found : s.getMutation row.mutationId = some row)
    (served : Served account log (requestOf row) answer added) :
    (∀ e ∈ added, Admitted crates e.request) ∧ Mine account s added ∧ ∀ e ∈ added, e.mutationId = row.mutationId := by
  cases served with
  | unsent => exact ⟨by simp,by simp [Mine],by simp⟩
  | unheard outage handled => exact handled_added proper found handled
  | answered handled => exact handled_added proper found handled

theorem unlisted_same (other : ∀ e ∈ more, e.accountId = account → e.mutationId ≠ mutationId) :
    ofMutation (log ++ more) account mutationId = ofMutation log account mutationId := by
  have none : ofMutation more account mutationId = none := by
    cases found : ofMutation more account mutationId with
    | none => rfl
    | some e =>
        obtain ⟨inside,own,id⟩ := ofMutation_mem found
        exact absurd id (other e inside own)
  rw [of_mutation_append,none,Option.or_none]

-- The acknowledgement of an edit, with the entry the log has for it.
theorem due_ack (due : Due account log rest s) (rep : Represents crates log db)
    (replica : Replica crates account log s) (listed : Listed (row :: rest) s)
    (ordered : ∀ m ∈ rest, row.objectId = m.objectId → ofMutation log account m.mutationId ≠ none →
      row.expectedRevision ≤ m.expectedRevision) {e : Acceptance}
    (inside : e ∈ log) (request : e.request = requestOf row) (now : String) :
    Due account log rest (accept s row (responseOf e) now) := by
  refine ⟨?_,due.behind,due.order⟩
  intro m member f found x held
  have get : (accept s row (responseOf e) now).getObject m.objectId =
    if row.objectId = m.objectId then some _ else s.getObject m.objectId := get_put s _ m.objectId
  rw [get] at held
  by_cases mine : row.objectId = m.objectId
  · -- both entries report the revision after the one their edit expected
    rw [if_pos mine] at held
    cases held
    have queued : requestOf m ∈ requests s :=
      List.mem_map_of_mem (find_mem (listed.present m (List.mem_cons_of_mem _ member)))
    have own := replica.own (requestOf m) queued f found
    have level := ordered m member mine (by rw [found]; simp)
    have first := rep.based e inside
    have second := rep.based f (ofMutation_mem found).1
    rw [request,request_expected] at first
    rw [own,request_expected] at second
    change e.revision ≤ f.revision
    omega
  · rw [if_neg mine] at held
    exact due.low m member f found x held

theorem going_ack (going : Going crates account queue log₀ s₀ log s) (rep : Represents crates (log ++ more) db)
    (replica : Replica crates account (log ++ more) s) (found : s.getMutation row.mutationId = some row) {e : Acceptance}
    (inside : e ∈ log ++ more) (own : e.accountId = account) (request : e.request = requestOf row)
    (newest : ∀ h, (ofObject (log ++ more) account row.objectId).getLast? = some h → h.seq ≤ currentCursor s → h.revision ≤ e.revision)
    (low : ofMutation log account row.mutationId = none ∨ ∀ x, s.getObject row.objectId = some x → x.revision ≤ e.revision)
    (now : String) : Going crates account queue log₀ s₀ (log ++ more) (accept s row (responseOf e) now) := by
  refine ⟨replica_ack replica rep found inside own request newest now,?_,?_⟩
  · exact steady_trans going.steady (steady_ack found (steady_grow account log more s) low now)
  · intro r member
    rw [requests_accept] at member
    exact going.queued r (List.mem_filter.mp member).1

-- One answer with a success: a new acceptance, or a replay that is due.
theorem going_accepted (going : Going crates account queue log₀ s₀ log s) (due : Due account log (row :: rest) s)
    (listed : Listed (row :: rest) s) (after : Represents crates (log ++ added) db)
    (replica : Replica crates account (log ++ added) s) (later : Due account (log ++ added) rest s)
    (same : ∀ m ∈ rest, ofMutation (log ++ added) account m.mutationId = ofMutation log account m.mutationId)
    (handled : Handled account log (requestOf row) (.ok resp) added) (now : String) :
    Going crates account queue log₀ s₀ (log ++ added) (accept s row resp now) ∧
      Due account (log ++ added) rest (accept s row resp now) := by
  have found := listed.present row List.mem_cons_self
  have queued : requestOf row ∈ requests s := List.mem_map_of_mem (find_mem found)
  have ordered : ∀ m ∈ rest, row.objectId = m.objectId → ofMutation (log ++ added) account m.mutationId ≠ none →
      row.expectedRevision ≤ m.expectedRevision := by
    intro m inside mine seen
    rw [same m inside] at seen
    exact (List.pairwise_cons.mp due.order).1 m inside mine seen
  cases handled with
  | accepted fresh current =>
      have inside : entryOf log account (requestOf row) ∈ log ++ [entryOf log account (requestOf row)] := by simp
      refine ⟨going_ack going after replica found inside rfl rfl ?_ (.inl fresh) now,
        due_ack later after replica listed ordered inside rfl now⟩
      intro h last _
      have final : (ofObject (log ++ [entryOf log account (requestOf row)]) account row.objectId).getLast? =
          some (entryOf log account (requestOf row)) := by
        simp [ofObject_append,entryOf,nextAcceptance]
      rw [final] at last
      cases last
      exact Nat.le_refl _
  | replayed old object =>
      obtain ⟨inside,own,_⟩ := ofMutation_mem old
      have request := going.replica.own (requestOf row) queued _ old
      have low := due.low row List.mem_cons_self _ old
      have inside := List.mem_append_left [] inside
      refine ⟨going_ack going after replica found inside own request ?_ (.inr low) now,
        due_ack later after replica listed ordered inside request now⟩
      intro h last below
      rw [List.append_nil] at last
      exact due.behind row List.mem_cons_self _ old h last below

def Pushing (crates : Crates) (account : String) (queue : List PushRequest) (log₀ : List Acceptance) (s₀ : Storage)
    (rest : List PendingMutation) (l : Link) (s : Storage) : Prop :=
  ∃ log, Represents crates log l.db ∧ Going crates account queue log₀ s₀ log s ∧ (∀ slot ∈ l.schedule, Allowed crates account queue slot) ∧
    Due account log rest s

theorem pushing_turn {options : PushOptions Key} (pushing : Pushing crates account queue log₀ s₀ (row :: rest) l s)
    (listed : Listed (row :: rest) s) (outcome : Outcome options s row (serverPush crates account (requestOf row) l).1 t flow) :
    Pushing crates account queue log₀ s₀ rest (serverPush crates account (requestOf row) l).2 t := by
  obtain ⟨log,rep,going,allowed,due⟩ := pushing
  have found := listed.present row List.mem_cons_self
  have foreign := slot_allowed quiet_allowed allowed
  have arrived := going_others going rep foreign
  have dueNow : Due account (arrivals crates log l) (row :: rest) s := by
    refine due_grow due rep (arrived_represents rep) going.replica.cursor ?_
    intro m inside
    refine unlisted_same ?_
    intro e new own
    exact foreign_ids foreign e new own (requestOf m) (going.queued _ (List.mem_map_of_mem (find_mem (listed.present m inside))))
  have proper := sendable_proper (going.replica.sound.queue row (find_mem found))
  obtain ⟨added,handled,served,after,_,link⟩ := push_served rep proper account
  obtain ⟨admitted,mine,ids⟩ := served_added proper found served
  have grown := going_grow arrived (arrived_represents rep) after admitted mine
  have same : ∀ m ∈ rest, ofMutation (arrivals crates log l ++ added) account m.mutationId =
      ofMutation (arrivals crates log l) account m.mutationId := by
    intro m inside
    refine unlisted_same ?_
    intro e new _ equal
    have distinct := listed.distinct
    simp only [List.map_cons,List.nodup_cons] at distinct
    exact distinct.1 (by rw [← ids e new,equal]; exact List.mem_map_of_mem inside)
  have dueRest := due_grow (due_tail dueNow) (arrived_represents rep) after arrived.replica.cursor same
  have later : ∀ slot ∈ (serverPush crates account (requestOf row) l).2.schedule, Allowed crates account queue slot := by
    rw [link]
    exact fun slot inside => allowed slot (List.mem_of_mem_tail inside)
  have unchanged : t.objects = s.objects → requests t = requests s → currentCursor t = currentCursor s →
      Pushing crates account queue log₀ s₀ rest (serverPush crates account (requestOf row) l).2 t := by
    intro objects queued state
    exact ⟨_,after,going_frame grown objects queued state,later,due_frame dueRest objects state⟩
  generalize (serverPush crates account (requestOf row) l).1 = answer at served outcome
  cases outcome with
  | accepted resp now =>
      cases served with
      | answered handled =>
          obtain ⟨acked,further⟩ := going_accepted arrived dueNow listed after grown.replica dueRest same handled now
          exact ⟨_,after,acked,later,further⟩
  | conflicting => exact unchanged rfl (requests_restatus found _ _) rfl
  | unrecorded => exact unchanged rfl (requests_restatus found _ _) rfl
  | transient => exact unchanged rfl (requests_restatus found _ _) rfl
  | fatal => exact unchanged rfl (requests_restatus found _ _) rfl

-- The rows a push will send, in their order.
def toSend (s : Storage) : List PendingMutation := s.listPendingMutations.filter ready

theorem listed_ready (listed : Listed list s) : Listed (list.filter ready) s := by
  refine ⟨listed.distinct.sublist (List.filter_sublist.map _),?_⟩
  intro m inside
  exact listed.present m (List.mem_of_mem_filter inside)

theorem push_going {options : PushOptions Key} (manual : options.conflictPolicy = .manual)
    (between : Between crates account queue log₀ s₀ l s)
    (due : ∀ log, Represents crates log l.db → Due account log (toSend s) s)
    (ran : pushPendingChanges (honest crates account) codec options ticks l s = (l',t,result)) :
    Between crates account queue log₀ s₀ l' t := by
  obtain ⟨log,rep,going,allowed⟩ := between
  refine push_loop_rule (fun rest l s _ => Pushing crates account queue log₀ s₀ (rest.filter ready) l s)
    (Between crates account queue log₀ s₀) ?_ ?_ ?_ ?_ (listed_start s) ⟨log,rep,going,allowed,due log rep⟩ ran
  · rintro rest l s n ⟨log,rep,going,allowed,_⟩ _
    exact ⟨log,rep,going,allowed⟩
  · intro row rest l s n pushing unready
    rwa [List.filter_cons_of_neg (by simp [unready])] at pushing
  · intro row rest l s n _ _ _ _
    exact .inl manual
  · intro row rest l s n t flow pushing able _ listed _ outcome
    have sent : (row :: rest).filter ready = row :: rest.filter ready := List.filter_cons_of_pos able
    rw [sent] at pushing
    have next := pushing_turn pushing (by rw [← sent]; exact listed_ready listed) outcome
    refine ⟨fun _ => next,fun _ => ?_⟩
    obtain ⟨log,rep,going,allowed,_⟩ := next
    exact ⟨log,rep,going,allowed⟩

-- When a push begins: an edit the server has on record (its answer was lost)
-- was accepted at a revision not below the stored one, nor below a head behind
-- the cursor, and no edit listed before it expects a later revision.
structure ReplaySafe (account : String) (db : ServerDb) (s : Storage) : Prop where
  stored : ∀ m ∈ toSend s, ∀ done ∈ db.processed.find (account,m.mutationId), ∀ x ∈ s.getObject m.objectId,
    x.revision ≤ done.resultingRevision
  behind : ∀ m ∈ toSend s, ∀ done ∈ db.processed.find (account,m.mutationId), ∀ head ∈ db.objects.find (account,m.objectId),
    head.serverSeq ≤ currentCursor s → head.revision ≤ done.resultingRevision
  order : (toSend s).Pairwise (fun x y => x.objectId = y.objectId → (db.processed.find (account,y.mutationId)).isSome = true →
    x.expectedRevision ≤ y.expectedRevision)

instance (account : String) (db : ServerDb) (s : Storage) : Decidable (ReplaySafe account db s) :=
  decidable_of_iff ((∀ m ∈ toSend s, ∀ done ∈ db.processed.find (account,m.mutationId), ∀ x ∈ s.getObject m.objectId,
      x.revision ≤ done.resultingRevision) ∧
    (∀ m ∈ toSend s, ∀ done ∈ db.processed.find (account,m.mutationId), ∀ head ∈ db.objects.find (account,m.objectId),
      head.serverSeq ≤ currentCursor s → head.revision ≤ done.resultingRevision) ∧
    (toSend s).Pairwise (fun x y => x.objectId = y.objectId → (db.processed.find (account,y.mutationId)).isSome = true →
      x.expectedRevision ≤ y.expectedRevision))
    ⟨fun ⟨stored,behind,order⟩ => ⟨stored,behind,order⟩,fun safe => ⟨safe.stored,safe.behind,safe.order⟩⟩

theorem safe_due (safe : ReplaySafe account db s) (rep : Represents crates log db) : Due account log (toSend s) s := by
  have recorded : ∀ {m e}, ofMutation log account m = some e → processedOf crates e ∈ db.processed.find (account,m) := by
    intro m e found
    rw [rep.processed,found]
    rfl
  refine ⟨?_,?_,?_⟩
  · intro m inside e found x held
    exact safe.stored m inside _ (recorded found) x held
  · intro m inside e found h last below
    refine safe.behind m inside _ (recorded found) (headOf h) ?_ below
    rw [rep.head,last]
    rfl
  · refine safe.order.imp ?_
    intro x y ordered object seen
    refine ordered object ?_
    rw [rep.processed,Option.isSome_map]
    exact Option.isSome_iff_ne_none.mpr seen

theorem revision_unique (rep : Represents crates log db) {e f : Acceptance} (one : e ∈ ofObject log account o)
    (two : f ∈ ofObject log account o) (same : e.revision = f.revision) : e = f := by
  have nodup : ((ofObject log account o).map (·.revision)).Nodup := by
    rw [rep.revisions]; exact List.nodup_range'
  exact List.inj_on_of_nodup_map nodup one two same

-- A stored object shows the head of its object.
structure Shows (x : StoredEncryptedObject) (head : EncryptedObjectRow) : Prop where
  revision : x.revision = head.revision
  envelope : x.envelope = (changeOf head).envelope
  deleted : x.isDeleted = head.isDeleted

instance (x : StoredEncryptedObject) (head : EncryptedObjectRow) : Decidable (Shows x head) :=
  decidable_of_iff (x.revision = head.revision ∧ x.envelope = (changeOf head).envelope ∧ x.isDeleted = head.isDeleted)
    ⟨fun ⟨revision,envelope,deleted⟩ => ⟨revision,envelope,deleted⟩,fun shown => ⟨shown.revision,shown.envelope,shown.deleted⟩⟩

def CaughtUp (account : String) (db : ServerDb) (s : Storage) : Prop :=
  ∀ x ∈ s.objects.rows, ∃ head ∈ db.objects.find (account,x.objectId), Shows x head

instance (account : String) (db : ServerDb) (s : Storage) : Decidable (CaughtUp account db s) :=
  inferInstanceAs (Decidable (∀ x ∈ s.objects.rows, ∃ head ∈ db.objects.find (account,x.objectId), Shows x head))

theorem replica_converged (replica : Replica crates account log s) (rep : Represents crates log db) (empty : requests s = [])
    (covered : Covered account db (currentCursor s)) : CaughtUp account db s := by
  intro x inside
  obtain ⟨e,logged,own,copies⟩ := replica.clean x inside (by simp [empty])
  have mine : e ∈ ofObject log account x.objectId := mem_ofObject.mpr ⟨logged,own,copies.object⟩
  obtain ⟨h,last⟩ := Option.ne_none_iff_exists'.mp (fun none => List.ne_nil_of_mem mine (List.getLast?_eq_none_iff.mp none))
  have found : db.objects.find (account,x.objectId) = some (headOf h) := by rw [rep.head,last]; rfl
  have below : h.seq ≤ currentCursor s := covered (headOf h) (find_mem found) (last_mem last).2.1
  -- the copy is not older than the head, and no revision is newer
  have high := replica.seen x.objectId h last below x (mem_iff_find.mp inside)
  have top := last_revision rep last
  have bound := (represented_revision_bound rep logged).2
  rw [own,copies.object] at bound
  have same : e.revision = h.revision := by
    have level := copies.revision
    omega
  have equal := revision_unique rep mine (List.mem_of_getLast? last) same
  subst equal
  exact ⟨headOf e,found,copies.revision,copies.envelope,copies.deleted⟩

end ZkNote.ReplicaPhases
