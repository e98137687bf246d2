import ZkNote.BrowserSteps
import ZkNote.StorageBackends

namespace ZkNote.BrowserOrder
open Protocol KeyedTable LocalStorage IndexedDb StableSort StorageBackends StateMachine SyncStateMachine StateMachineRuns
open DependencyGating BrowserSync BrowserSteps Conflict

variable {World Key Note : Type} {b : Browser World Key Note} {deviceId : Option String} {db : WebDb} {collation : Collation}

-- Two mutations of one object, the first enqueued before the second.
def Earlier (queue : List PendingMutation) (x y : PendingMutation) : Prop :=
  [x,y].Sublist queue ∧ x.objectId = y.objectId

def Sent (done : List SyncAction) (mutationId : String) : Prop := ∃ request ∈ sends done, request.mutationId = mutationId

-- What a cycle over this queue may have executed at any point of it.
structure KeepsOrder (queue : List PendingMutation) (done : List SyncAction) : Prop where
  inOrder : ∀ x y, Earlier queue x y → ∀ front request rest, done = front ++ .sendPush request :: rest →
    request.mutationId = y.mutationId → ¬Sent rest x.mutationId
  afterAccepted : ∀ x y, Earlier queue x y → ∀ front request rest, done = front ++ .sendPush request :: rest →
    request.mutationId = y.mutationId → Acked front x.mutationId
  inFlight : ∀ x y, Earlier queue x y → x.status = .inFlight → Sent done x.mutationId ∨ ¬Sent done y.mutationId

-- Ahead of a waiting mutation only waiting ones of its object, which the listing
-- puts first as well.
def Orderly (collation : Collation) (queue : List PendingMutation) : Prop :=
  queue.Pairwise (fun x y => x.objectId = y.objectId → y.status = .pending →
    x.status = .pending ∧ Then (listedBefore collation) byKey x y)

instance (r s : PendingMutation → PendingMutation → Prop) [DecidableRel r] [DecidableRel s] : DecidableRel (Then r s) := fun x y =>
  inferInstanceAs (Decidable (r x y ∧ (r y x → s x y)))

instance (collation : Collation) (queue : List PendingMutation) : Decidable (Orderly collation queue) :=
  inferInstanceAs (Decidable (List.Pairwise _ queue))

theorem listed_mem (collation : Collation) : x ∈ db.listPendingMutations collation ↔ x ∈ db.mutations.rows ∧ x.status = .pending := by
  rw [(web_lists_pending collation db).mem_iff,List.mem_filter,decide_eq_true_eq]

theorem listed_unique (collation : Collation) (db : WebDb) : ((db.listPendingMutations collation).map (·.mutationId)).Nodup := by
  refine ((web_lists_pending collation db).map _).nodup_iff.mpr ?_
  exact db.mutations.unique.sublist (List.filter_sublist.map _)

theorem listed_sorted (collation : Collation) (db : WebDb) :
    (db.listPendingMutations collation).Pairwise (Then (listedBefore collation) byKey) :=
  (web_listed collation db _ (web_lists_pending collation db)).mp rfl

theorem same_id (x y : PendingMutation) (first : x ∈ db.mutations.rows) (second : y ∈ db.mutations.rows) (same : x.mutationId = y.mutationId) : x = y :=
  List.inj_on_of_nodup_map db.mutations.unique first second same

theorem earlier_apart (earlier : [x,y].Sublist db.mutations.rows) : x.mutationId ≠ y.mutationId := by
  have pair := db.mutations.unique.sublist (earlier.map (·.mutationId))
  simpa using pair

-- A request that goes out is that of a waiting mutation.
theorem sent_listed {trace : List SyncAction} (run : Run Named (new c₀ (db.listPendingMutations collation) options) m trace out)
    (inside : request ∈ sends trace) (named : request.mutationId = y.mutationId) (member : y ∈ db.mutations.rows) :
    y ∈ db.listPendingMutations collation := by
  have listed := (sent_weaken (run_sent run)).subset inside
  obtain ⟨held,waiting,rfl⟩ := List.mem_map.mp listed
  have same := same_id held y ((listed_mem collation).mp waiting).1 member named
  exact same ▸ waiting

-- The listing has the waiting mutations of one object in the order of the queue.
theorem orderly_listed (orderly : Orderly collation db.mutations.rows) (earlier : Earlier db.mutations.rows x y)
    (waiting : y ∈ db.listPendingMutations collation) : [x,y].Sublist (db.listPendingMutations collation) := by
  obtain ⟨pair,object⟩ := earlier
  obtain ⟨pending,before⟩ := List.pairwise_iff_forall_sublist.mp orderly pair object ((listed_mem collation).mp waiting).2
  have member : x ∈ db.listPendingMutations collation := (listed_mem collation).mpr ⟨pair.subset (by simp),pending⟩
  have apart := earlier_apart pair
  rcases pair_of_mem member waiting (fun same => apart (congrArg _ same)) with forth | back
  · exact forth
  · have after := List.pairwise_iff_forall_sublist.mp (listed_sorted collation db) back
    exact absurd (key_antisymm (before.2 after.1) (after.2 before.1)) apart

theorem run_accepted (run : Run Named (new c₀ (db.listPendingMutations collation) options) m trace out)
    (pair : [x,y].Sublist (db.listPendingMutations collation)) (object : x.objectId = y.objectId)
    (same : trace = front ++ .sendPush request :: rest) (named : request.mutationId = y.mutationId) : Acked front x.mutationId := by
  have clear : NoFailedAhead (db.listPendingMutations collation) := by
    intro i j x y _ first _ _ _ failed
    have pending := ((listed_mem collation).mp (List.mem_of_getElem? first)).2
    rw [pending] at failed
    cases failed
  have gated := (run_gated (listed_unique collation db) clear run).1
  have pairwise : (db.listPendingMutations collation).Pairwise (fun x y => x.objectId = y.objectId →
      ∀ front request rest, trace = front ++ .sendPush request :: rest → request.mutationId = y.mutationId → Acked front x.mutationId) := by
    rw [List.pairwise_iff_getElem]
    intro i j boundI boundJ less object front request rest same named
    exact gated i j _ _ front request rest less (List.getElem?_eq_getElem boundI) (List.getElem?_eq_getElem boundJ) object same named
  exact List.pairwise_iff_forall_sublist.mp pairwise pair object front request rest same named

theorem prefix_split {done trace : List SyncAction} (within : done <+: trace) (same : done = front ++ x :: rest) :
    ∃ more, trace = front ++ x :: (rest ++ more) := by
  obtain ⟨more,rfl⟩ := within
  exact ⟨more,by simp [same]⟩

theorem sent_within {done trace : List SyncAction} (within : done <+: trace) (sent : request ∈ sends done) : request ∈ sends trace := by
  obtain ⟨more,rfl⟩ := within
  rw [sends_append]
  exact List.mem_append_left _ sent

theorem run_keeps_order (orderly : Orderly collation db.mutations.rows)
    (run : Run Named (new c₀ (db.listPendingMutations collation) options) m trace out) (within : done <+: trace) :
    KeepsOrder db.mutations.rows done := by
  refine ⟨?_,?_,?_⟩
  · rintro x y earlier front request rest same named ⟨late,inside,back⟩
    obtain ⟨more,same⟩ := prefix_split within same
    have first : request ∈ sends trace := by rw [same]; simp [sends]
    have waiting := sent_listed run first named (earlier.1.subset (by simp))
    have pair := orderly_listed orderly earlier waiting
    -- the requests follow the listing, so the two would stand in it both ways
    have sent : ((sends front).map (·.mutationId) ++ y.mutationId :: (sends (rest ++ more)).map (·.mutationId)).Sublist
        ((db.listPendingMutations collation).map (·.mutationId)) := by
      have sent := (sent_weaken (run_sent run)).map (·.mutationId)
      rw [same,List.map_map,sends_append,List.map_append] at sent
      exact named ▸ sent
    have tail : [x.mutationId].Sublist ((sends (rest ++ more)).map (·.mutationId)) := by
      apply List.singleton_sublist.mpr
      rw [sends_append,List.map_append]
      exact back ▸ List.mem_append_left _ (List.mem_map_of_mem inside)
    have turned : [y.mutationId,x.mutationId].Sublist ((db.listPendingMutations collation).map (·.mutationId)) :=
      ((tail.cons_cons y.mutationId).trans (List.sublist_append_right _ _)).trans sent
    have forth : [x.mutationId,y.mutationId].Sublist ((db.listPendingMutations collation).map (·.mutationId)) := pair.map _
    exact one_way (listed_unique collation db) forth turned
  · intro x y earlier front request rest same named
    obtain ⟨more,same⟩ := prefix_split within same
    have first : request ∈ sends trace := by rw [same]; simp [sends]
    have waiting := sent_listed run first named (earlier.1.subset (by simp))
    exact run_accepted run (orderly_listed orderly earlier waiting) earlier.2 same named
  · intro x y earlier flying
    right
    rintro ⟨request,inside,named⟩
    have waiting := sent_listed run (sent_within within inside) named (earlier.1.subset (by simp))
    have first := (listed_mem collation).mp ((orderly_listed orderly earlier waiting).subset List.mem_cons_self)
    rw [first.2] at flying
    cases flying

theorem remove_other (other : mutationId ≠ removed) : ((db.removeMutation removed).2.getMutation mutationId).isSome = (db.getMutation mutationId).isSome := by
  unfold WebDb.removeMutation
  split
  · rfl
  · unfold WebDb.getMutation
    dsimp only
    rw [find_delete]
    cases found : db.mutations.find mutationId with
    | none => rfl
    | some m =>
        have is : m.mutationId = mutationId := find_key found
        simp [is,other]

-- A server that takes everything and has nothing new.
def accepting : BrowserServer Unit where
  pushMutation request _ := (.accepted ⟨request.objectId,request.expectedRevision+1,0⟩,())
  fetchPullChanges after _ _ := (.ok ⟨[],after,false⟩,())

theorem accepting_pushes {b : Browser Unit Key Note} (server : b.server = accepting) (list : List PendingMutation)
    (unique : (list.map (·.mutationId)).Nodup) (n : Nat) (db : WebDb) (held : ∀ m ∈ list, (db.getMutation m.mutationId).isSome) :
    ∃ n' db' done, Pushes b n () db list n' () db' done := by
  induction list generalizing n db with
  | nil => exact ⟨n,db,[],.none n () db⟩
  | cons m list ih =>
      obtain ⟨apart,unique⟩ := List.nodup_cons.mp unique
      obtain ⟨flying,marked,kept⟩ := update_found (held m List.mem_cons_self) .inFlight (some (m.retryCount+1))
      have answered : b.server.pushMutation (requestOf m) () =
          (.accepted ⟨(requestOf m).objectId,(requestOf m).expectedRevision+1,0⟩,()) := by rw [server]; rfl
      obtain ⟨n',db',done,more⟩ := ih unique (n+1)
        ((flying.putObject (ackOf b n m ⟨(requestOf m).objectId,(requestOf m).expectedRevision+1,0⟩)).removeMutation m.mutationId).2 (by
          intro x inside
          have other : x.mutationId ≠ m.mutationId := fun same => apart (List.mem_map.mpr ⟨x,inside,same⟩)
          rw [remove_other other]
          exact (kept x.mutationId).trans (held x (List.mem_cons_of_mem _ inside)))
      exact ⟨n',db',_,.one marked answered more⟩

-- Each of the list is sent, with only those before it acknowledged.
theorem pushes_sent {w w' : World} {list : List PendingMutation} (pushes : Pushes b n w db list n' w' db' done) (member : y ∈ list) :
    ∃ front rest, done = front ++ .sendPush (requestOf y) :: rest ∧
      ∀ mutationId, Acked front mutationId → ∃ x, [x,y].Sublist list ∧ x.mutationId = mutationId := by
  induction pushes with
  | none => cases member
  | @one m w w₁ response n ms n' w' db' done db flying marked answered more ih =>
      rcases List.mem_cons.mp member with rfl | later
      · refine ⟨[.markMutationInFlight y.mutationId (y.retryCount+1)],_,rfl,?_⟩
        rintro mutationId ⟨object,inside⟩
        simp at inside
      · obtain ⟨front,rest,same,before⟩ := ih later
        refine ⟨[.markMutationInFlight m.mutationId (m.retryCount+1),.sendPush (requestOf m),
          .acknowledgeAccepted (ackOf b n m response) m.mutationId] ++ front,rest,by simp [same],?_⟩
        rintro mutationId ⟨object,inside⟩
        rcases List.mem_append.mp inside with new | old
        · simp only [List.mem_cons,reduceCtorEq,SyncAction.acknowledgeAccepted.injEq,List.not_mem_nil,or_false,false_or] at new
          exact ⟨m,(List.singleton_sublist.mpr later).cons_cons m,new.2.symm⟩
        · obtain ⟨x,pair,is⟩ := before mutationId ⟨object,old⟩
          exact ⟨x,pair.cons m,is⟩

theorem accepting_sends {b : Browser Unit Key Note} (deviceId : Option String) (server : b.server = accepting) (db : WebDb)
    (member : y ∈ db.listPendingMutations b.collation) :
    ∃ turns front rest, executed b deviceId turns (start b () db) = front ++ .sendPush (requestOf y) :: rest ∧
      ∀ mutationId, Acked front mutationId → ∃ x, [x,y].Sublist (db.listPendingMutations b.collation) ∧ x.mutationId = mutationId := by
  obtain ⟨count,next,reset,kept⟩ := reset_found db
  have unique := listed_unique b.collation db
  have fit : ∀ x ∈ db.listPendingMutations b.collation, ready x = true := by
    intro x inside
    simp [ready,((listed_mem b.collation).mp inside).2]
  have held : ∀ x ∈ db.listPendingMutations b.collation, (next.getMutation x.mutationId).isSome := by
    intro x inside
    rw [kept]
    exact Option.isSome_iff_exists.mpr ⟨x,mem_iff_find.mp ((listed_mem b.collation).mp inside).1⟩
  let opened := (new (db.getSyncState b.identity).syncCursor (db.listPendingMutations b.collation) b.options).start.1
  have first : Reaches b deviceId (start b () db) ⟨opened,[opened.fetch],next,(),0,[.resetInFlightMutations]⟩ := by
    refine reaches_step rfl ?_
    have stored : (Except.map (·.2) db.resetInFlightMutations) = .ok next := by rw [reset]; rfl
    simp only [perform,BrowserSync.start,stored]
    rfl
  let pushing : SyncStateMachine := {opened with
    phase := .pushing
    initialPull := countPage opened.initialPull 0 0 opened.currentCursor}
  have second : Reaches b deviceId ⟨opened,[opened.fetch],next,(),0,[.resetInFlightMutations]⟩
      ⟨(pushing.stepPush ((b.draws 0).clock 0)).1,(pushing.stepPush ((b.draws 0).clock 0)).2,next,(),1,
        [.resetInFlightMutations,opened.fetch]⟩ := by
    refine reaches_step rfl ?_
    simp only [perform,fetch,server,accepting]
    rfl
  cases listed : db.listPendingMutations b.collation with
  | nil =>
      rw [listed] at member
      cases member
  | cons x list =>
      rw [listed] at member unique fit held
      obtain ⟨n',db',done,pushes⟩ := accepting_pushes server (x :: list) unique 1 next held
      have left : Left pushing (x :: list) := ⟨rfl,listed,fit,rfl,rfl⟩
      rw [step_push_left left] at second
      obtain ⟨d,third,_,_,_,_,_,trace⟩ := pushes_reach deviceId pushes
        (c := ⟨{pushing with push := {pushing.push with totalAttempted := pushing.push.totalAttempted+1}},
          [.markMutationInFlight x.mutationId (x.retryCount+1),.sendPush (requestOf x)],next,(),1,[.resetInFlightMutations,opened.fetch]⟩)
        ⟨left.pushing,left.left,left.fit,left.free,left.calm⟩ rfl ⟨rfl,rfl,rfl⟩
      obtain ⟨turns,same⟩ := reaches_executed (reaches_trans first (reaches_trans second third))
      obtain ⟨front,rest,sent,before⟩ := pushes_sent pushes member
      refine ⟨turns,[.resetInFlightMutations,opened.fetch] ++ front,rest,?_,?_⟩
      · rw [same,trace,sent]
        simp
      · rintro mutationId ⟨object,inside⟩
        refine before mutationId ⟨object,?_⟩
        simpa [fetch] using inside

-- Whatever the server answers, the cycle keeps the order of edits exactly for
-- the orderly queues.
theorem web_cycle_order_iff (codec : NoteCodec Key Note) (vaultKey : Option Key) (collation : Collation) (identity : String)
    (options : SyncStateMachineOptions) (draws : Nat → Draw) (db : WebDb) :
    (∀ (World : Type) (server : BrowserServer World) (world : World) (turns : Nat),
      KeepsOrder db.mutations.rows (executed ⟨server,codec,vaultKey,collation,identity,options,draws⟩
        (db.getSyncState identity).deviceId turns (start ⟨server,codec,vaultKey,collation,identity,options,draws⟩ world db))) ↔
    Orderly collation db.mutations.rows := by
  constructor
  · intro keeps
    rw [Orderly,List.pairwise_iff_forall_sublist]
    intro x y pair object waiting
    have member : y ∈ db.listPendingMutations collation := (listed_mem collation).mpr ⟨pair.subset (by simp),waiting⟩
    obtain ⟨turns,front,rest,same,before⟩ := accepting_sends (b := ⟨accepting,codec,vaultKey,collation,identity,options,draws⟩)
      (db.getSyncState identity).deviceId rfl db member
    have acked := (keeps Unit accepting () turns).afterAccepted x y ⟨pair,object⟩ front _ rest same rfl
    obtain ⟨held,listed,is⟩ := before _ acked
    have inside := (listed_mem collation).mp (listed.subset List.mem_cons_self)
    have equal := same_id held x inside.1 (pair.subset (by simp)) is
    subst equal
    exact ⟨inside.2,List.pairwise_iff_forall_sublist.mp (listed_sorted collation db) listed⟩
  · intro orderly World server world turns
    obtain ⟨m,trace,out,run,within⟩ := executed_driven (db.getSyncState identity).deviceId (listed_unique collation db) turns
      (driven_start ⟨server,codec,vaultKey,collation,identity,options,draws⟩ world db)
    exact run_keeps_order orderly run within

-- A tab was closed while the first edit was in flight; the second one waits.
def stranded : WebDb := {WebDb.new with
  mutations := ⟨[queued change1 firstNote 0 .inFlight "aaaa" "t1",queued change2 firstNote 1 .pending "bbbb" "t2"],by decide⟩}

def freshTab : Browser Unit Unit String :=
  ⟨accepting,NoteCodec.standIn,none,Collation.plain,"alice",.default,fun n => ⟨fun _ => s!"t{n+3}","conflict",0⟩⟩

theorem second_edit_overtakes :
    sends (executed freshTab none 6 (start freshTab () stranded)) = [requestOf (queued change2 firstNote 1 .pending "bbbb" "t2")] ∧
    ¬KeepsOrder stranded.mutations.rows (executed freshTab none 6 (start freshTab () stranded)) := by
  have sent : sends (executed freshTab none 6 (start freshTab () stranded)) =
      [requestOf (queued change2 firstNote 1 .pending "bbbb" "t2")] := by decide
  refine ⟨sent,?_⟩
  intro keeps
  rcases keeps.inFlight _ _ ⟨List.Sublist.refl _,rfl⟩ rfl with ⟨request,inside,named⟩ | unsent
  · rw [sent] at inside
    cases List.mem_singleton.mp inside
    exact absurd named (by decide)
  · exact unsent ⟨_,by rw [sent]; exact List.mem_singleton_self _,rfl⟩

end ZkNote.BrowserOrder
