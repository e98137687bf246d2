import ZkNote.CycleSteps
import ZkNote.NoteEdits
import ZkNote.Runs
import ZkNote.ScriptedServer

namespace ZkNote.NewestEdit
open Protocol Adapter KeyedTable LocalStorage MutationQueue Conflict PullChanges PushChanges PushSteps Orchestrator CycleSteps
open Notes NoteEdits Runs ScriptedServer

variable {Key Note : Type} {codec : NoteCodec Key Note} {key : Key} {s s₀ t : Storage} {w w' : Script}
variable {made : List PushRequest} {row : PendingMutation}

-- A device, the server's replies, and every edit made on the device, in order.
structure Device where
  script : Script
  storage : Storage
  made : List PushRequest

inductive Event (Key : Type) where
  | edit (command : Command)
  | reset
  | pull (vaultKey : Option Key) (options : PullOptions) (clock : Nat → String) (fuel : Nat)
      (replies : List (Reply PullChangesResponse))
  | push (options : PushOptions Key) (ticks : Nat → Tick) (replies : List (Reply PushResponse))

def Event.run (codec : NoteCodec Key Note) (key : Key) : Event Key → Device → Option Device
  | .edit command,d =>
    let t := command.run codec key d.storage
    some ⟨d.script,t,d.made ++ (requests t).filter (fun r => r.mutationId = command.draw.mutationId)⟩
  | .reset,d => some {d with storage := (resetInFlight d.storage).2}
  | .pull vaultKey options clock fuel replies,d =>
    (pullRemoteChanges scripted codec vaultKey options clock fuel {d.script with pulls := replies} d.storage).map
      (fun out => ⟨out.1,out.2.1,d.made⟩)
  | .push options ticks replies,d =>
    let out := pushPendingChanges scripted codec options ticks {d.script with pushes := replies} d.storage
    some ⟨out.1,out.2.1,d.made⟩

def newest (made : List PushRequest) (o : String) : Option PushRequest := (made.filter (fun r => r.objectId = o)).getLast?

-- Where an object has queued edits, the stored one shows the newest edit made,
-- at a revision above everything the queue expects.
structure Head (made : List PushRequest) (s : Storage) (o : String) : Prop where
  shown : ∃ n x, newest made o = some n ∧ s.getObject o = some x ∧ x.envelope = n.envelope ∧ x.isDeleted = n.isDeleted ∧
    ∀ q ∈ requests s, q.objectId = o → q.expectedRevision < x.revision
  top : ∀ n, newest made o = some n → ∀ q ∈ requests s, q.objectId = o → q.expectedRevision ≤ n.expectedRevision

def Visible (made : List PushRequest) (s : Storage) : Prop := ∀ r ∈ requests s, Head made s r.objectId

theorem visible_frame (visible : Visible made s) (objects : t.objects = s.objects) (queue : requests t = requests s) :
    Visible made t := by
  intro r inside
  rw [queue] at inside
  obtain ⟨⟨n,x,last,held,facts⟩,top⟩ := visible r inside
  refine ⟨⟨n,x,last,by simpa only [Storage.getObject,objects] using held,by rw [queue]; exact facts⟩,by rw [queue]; exact top⟩

theorem newest_other (made : List PushRequest) {r : PushRequest} (other : r.objectId ≠ o) : newest (made ++ [r]) o = newest made o := by
  simp [newest,List.filter_append,other]

theorem newest_same (made : List PushRequest) {r : PushRequest} (same : r.objectId = o) : newest (made ++ [r]) o = some r := by
  simp [newest,List.filter_append,same]

-- A command draws ids that nothing on the device has.
def Fresh (command : Command) (s : Storage) : Prop :=
  s.getMutation command.draw.mutationId = none ∧
    (command.creates = true → ∀ r ∈ requests s, r.objectId ≠ command.draw.objectId)

theorem unmade (fresh : s.getMutation mutationId = none) (queue : t.mutations = s.mutations) :
    (requests t).filter (fun r => r.mutationId = mutationId) = [] := by
  rw [List.filter_eq_nil_iff]
  intro r inside same
  obtain ⟨m,member,rfl⟩ := List.mem_map.mp inside
  rw [queue] at member
  have held : s.mutations.find mutationId = some m := mem_find member (of_decide_eq_true same)
  rw [Storage.getMutation,held] at fresh
  cases fresh

theorem made_one (edit : Edit codec key command s object m) (fresh : s.getMutation command.draw.mutationId = none)
    (queue : t.mutations = s.mutations.upsert m) :
    requests t = requests s ++ [requestOf m] ∧
      (requests t).filter (fun r => r.mutationId = command.draw.mutationId) = [requestOf m] := by
  have free : s.mutations.find m.mutationId = none := by rw [edit.id]; exact fresh
  have rows : requests t = requests s ++ [requestOf m] := by
    simp only [requests,queue,upsert_fresh_rows free,List.map_append,List.map_cons,List.map_nil]
  refine ⟨rows,?_⟩
  rw [rows,List.filter_append,unmade fresh rfl]
  simp [edit.id]

theorem visible_edited (visible : Visible made s) (fresh : Fresh command s) (edit : Edit codec key command s object m)
    (objects : t.objects = s.objects.upsert object) (queue : requests t = requests s ++ [requestOf m]) :
    Visible (made ++ [requestOf m]) t := by
  have get : ∀ o, t.getObject o = if object.objectId = o then some object else s.getObject o := by
    intro o
    simp only [Storage.getObject,objects]
    exact find_upsert s.objects object o
  -- what was queued for the object lies below the revision the edit expects
  have above : ∀ q ∈ requests s, q.objectId = m.objectId → q.expectedRevision < m.expectedRevision := by
    intro q inside mine
    rcases edit.basis with ⟨creates,drawn,_⟩ | ⟨prior,held,level⟩
    · exact absurd ((mine.trans edit.target).trans drawn) (fresh.2 creates q inside)
    · obtain ⟨⟨n,x,_,stored,_,_,low⟩,_⟩ := visible q inside
      rw [mine,edit.target,held] at stored
      cases stored
      have below := low q inside rfl
      omega
  have either : ∀ q ∈ requests t, q ∈ requests s ∨ q = requestOf m := by
    intro q inside
    rw [queue] at inside
    simpa using inside
  intro r inside
  by_cases mine : m.objectId = r.objectId
  · have last := newest_same made (r := requestOf m) mine
    have place : object.objectId = r.objectId := edit.target.symm.trans mine
    refine ⟨⟨requestOf m,object,last,(get _).trans (if_pos place),edit.content.symm,edit.deleted,?_⟩,?_⟩
    · intro q member same
      have next := edit.revision
      rcases either q member with old | rfl
      · have below := above q old (same.trans mine.symm)
        omega
      · rw [request_expected]
        omega
    · intro n found q member same
      rw [last] at found
      cases found
      rcases either q member with old | rfl
      · exact Nat.le_of_lt (above q old (same.trans mine.symm))
      · exact Nat.le_refl _
  · have last := newest_other made (r := requestOf m) mine
    have place : object.objectId ≠ r.objectId := fun same => mine (edit.target.trans same)
    have others : ∀ q ∈ requests t, q.objectId = r.objectId → q ∈ requests s := by
      intro q member same
      rcases either q member with old | rfl
      · exact old
      · exact absurd same mine
    obtain ⟨⟨n,x,found,held,content,deleted,low⟩,top⟩ := visible r (others r inside rfl)
    refine ⟨⟨n,x,last.trans found,(get _).trans ((if_neg place).trans held),content,deleted,?_⟩,?_⟩
    · exact fun q member same => low q (others q member same) same
    · intro n again q member same
      rw [last] at again
      exact top n again q (others q member same) same

theorem visible_purged (visible : Visible made s) (objects : t.objects = s.objects.delete (fun x => x.objectId = o))
    (queue : t.mutations = s.mutations) (free : ∀ r ∈ requests s, r.objectId ≠ o) : Visible made t := by
  have same : requests t = requests s := by simp only [requests,queue]
  intro r inside
  rw [same] at inside
  obtain ⟨⟨n,x,found,held,facts⟩,top⟩ := visible r inside
  refine ⟨⟨n,x,found,?_,by rw [same]; exact facts⟩,by rw [same]; exact top⟩
  have stored : s.objects.find r.objectId = some x := held
  have other : x.objectId ≠ o := by
    rw [find_key stored]
    exact free r inside
  simp only [Storage.getObject,objects,find_delete,stored,Option.filter]
  simp [other]

theorem visible_command (visible : Visible made s) (fresh : Fresh command s)
    (unqueued : ∀ o ∈ command.purgeTarget s, ∀ r ∈ requests s, r.objectId ≠ o) :
    Visible (made ++ (requests (command.run codec key s)).filter (fun r => r.mutationId = command.draw.mutationId))
      (command.run codec key s) := by
  cases run_commanded codec key command s fresh.1 with
  | nothing objects queue =>
      rw [unmade fresh.1 queue,List.append_nil]
      exact visible_frame visible objects (by simp only [requests,queue])
  | purged o asked _ objects queue =>
      rw [unmade fresh.1 queue,List.append_nil]
      exact visible_purged visible objects queue (unqueued o asked)
  | edited object m edit objects queue =>
      obtain ⟨rows,one⟩ := made_one edit fresh.1 queue
      rw [one]
      exact visible_edited visible fresh edit objects rows

-- A change that a pull may store: its object has no queued edits, or it is the
-- newest edit, come back from the server.
def Welcome (made : List PushRequest) (s : Storage) (change : ObjectChange) : Prop :=
  (∀ r ∈ requests s, r.objectId ≠ change.objectId) ∨
    ∃ n ∈ newest made change.objectId, change.envelope = n.envelope ∧ change.isDeleted = n.isDeleted ∧
      change.revision = n.expectedRevision+1

instance (made : List PushRequest) (s : Storage) (change : ObjectChange) : Decidable (Welcome made s change) :=
  inferInstanceAs (Decidable (_ ∨ ∃ n ∈ newest made change.objectId, change.envelope = n.envelope ∧
    change.isDeleted = n.isDeleted ∧ change.revision = n.expectedRevision+1))

theorem visible_stored (visible : Visible made s) (welcome : Welcome made s change) (now : String) :
    Visible made ((s.putObject (storedOf change now)).setSyncCursor change.serverSeq) := by
  have get : ∀ o, ((s.putObject (storedOf change now)).setSyncCursor change.serverSeq).getObject o =
      if change.objectId = o then some (storedOf change now) else s.getObject o := find_upsert s.objects (storedOf change now)
  intro r inside
  obtain ⟨⟨n,x,found,held,facts⟩,top⟩ := visible r inside
  refine ⟨?_,top⟩
  by_cases same : change.objectId = r.objectId
  · rcases welcome with free | ⟨k,last,content,deleted,level⟩
    · exact absurd same.symm (free r inside)
    · rw [same] at last
      refine ⟨k,storedOf change now,last,(get _).trans (if_pos same),content,deleted,?_⟩
      intro q member mine
      have bound := top k last q member mine
      change q.expectedRevision < change.revision
      omega
  · exact ⟨n,x,found,(get _).trans ((if_neg same).trans held),facts⟩

-- Every change above the cursor in the pages of a pull.
def PullSafe (d : Device) (replies : List (Reply PullChangesResponse)) : Prop :=
  ∀ reply ∈ replies, ∀ page ∈ (handleResponse reply).toOption, ∀ change ∈ page.changes,
    currentCursor d.storage < change.serverSeq → Welcome d.made d.storage change

theorem visible_pull {vaultKey : Option Key} (visible : Visible d.made d.storage) (safe : PullSafe d replies)
    (ran : pullRemoteChanges scripted codec vaultKey options clock fuel {d.script with pulls := replies} d.storage =
      some (w',t,result)) : Visible d.made t := by
  obtain ⟨p,ended,looped,objects,_,frame⟩ := pull_ran ran
  have kept := pull_loop_rule
    (fun w s => (∀ reply ∈ w.pulls, reply ∈ replies) ∧ Visible d.made s ∧ requests s = requests d.storage ∧
      currentCursor d.storage ≤ currentCursor s)
    (fun change => currentCursor d.storage < change.serverSeq → Welcome d.made d.storage change)
    ?_ ?_ fuel ⟨fun _ inside => inside,visible,rfl,Nat.le_refl _⟩ looped
  · exact visible_frame kept.2.1 objects (by simp only [requests,frame.mutations])
  · intro after limit w s before
    obtain ⟨served,others⟩ := before
    refine ⟨⟨fun reply inside => served reply (List.mem_of_mem_tail inside),others⟩,?_⟩
    intro page answer change inside
    cases pulls : w.pulls with
    | nil => simp [scripted,pulls,hangUp,handleResponse] at answer
    | cons reply rest =>
        simp only [scripted,pulls,List.headD_cons] at answer
        apply safe reply (served reply (by rw [pulls]; exact List.mem_cons_self)) page _ change inside
        rw [answer]
        rfl
  · intro w s change now before welcome above
    obtain ⟨served,shown,queue,grown⟩ := before
    have fits : Welcome d.made s change := by
      unfold Welcome
      rw [queue]
      exact welcome (Nat.lt_of_le_of_lt grown above)
    exact ⟨served,visible_stored shown fits now,queue,Nat.le_trans grown (Nat.le_of_lt above)⟩

def taken (e : PushRequest × Reply PushResponse) : Bool := (handleResponse e.2).isOk

def Untaken (exchanges : List (PushRequest × Reply PushResponse)) (r : PushRequest) : Prop :=
  ∀ e ∈ exchanges, e.1 = r → taken e = false

def lastTaken (exchanges : List (PushRequest × Reply PushResponse)) (o : String) : Option (PushRequest × Reply PushResponse) :=
  (exchanges.filter (fun e => decide (e.1.objectId = o) && taken e)).getLast?

theorem last_taken_append (exchanges : List (PushRequest × Reply PushResponse)) (e : PushRequest × Reply PushResponse) (o : String) :
    lastTaken (exchanges ++ [e]) o = if e.1.objectId = o ∧ taken e = true then some e else lastTaken exchanges o := by
  unfold lastTaken
  rw [List.filter_append]
  by_cases mine : e.1.objectId = o ∧ taken e = true
  · rw [if_pos mine,List.filter_cons_of_pos (by simp [mine])]
    simp
  · rw [if_neg mine,List.filter_cons_of_neg (by simpa using mine)]
    simp

theorem last_taken_mem (last : lastTaken exchanges o = some e) : e ∈ exchanges :=
  List.mem_of_mem_filter (List.mem_of_getLast? last)

-- A device after some exchanges of a push: the edits they took are out of the
-- queue, and of each object the last one taken is stored.
structure Passed (s₀ : Storage) (exchanges : List (PushRequest × Reply PushResponse)) (s : Storage) : Prop where
  left : ∀ r, r ∈ requests s ↔ r ∈ requests s₀ ∧ Untaken exchanges r
  same : ∀ o, lastTaken exchanges o = none → s.getObject o = s₀.getObject o
  stored : ∀ o e, lastTaken exchanges o = some e → ∃ x resp, s.getObject o = some x ∧ handleResponse e.2 = .ok resp ∧
    x.envelope = e.1.envelope ∧ x.isDeleted = e.1.isDeleted ∧ x.revision = resp.revision

theorem passed_start (s : Storage) : Passed s [] s :=
  ⟨by simp [Untaken],fun _ _ => rfl,by simp [lastTaken]⟩

theorem untaken_append : Untaken (exchanges ++ [e]) r ↔ Untaken exchanges r ∧ (e.1 = r → taken e = false) := by
  simp [Untaken,or_imp,forall_and]

theorem passed_unaccepted (passed : Passed s₀ exchanges s) (refused : handleResponse reply = .error e)
    (objects : t.objects = s.objects) (queue : requests t = requests s) :
    Passed s₀ (exchanges ++ [(request,reply)]) t := by
  have out : taken (request,reply) = false := by simp [taken,refused,Except.isOk,Except.toBool]
  have last : ∀ o, lastTaken (exchanges ++ [(request,reply)]) o = lastTaken exchanges o := by
    intro o
    rw [last_taken_append,if_neg (by simp [out])]
  refine ⟨?_,?_,?_⟩
  · intro r
    rw [queue,passed.left,untaken_append]
    simp [out]
  · intro o none
    rw [last] at none
    simpa only [Storage.getObject,objects] using passed.same o none
  · intro o e some
    rw [last] at some
    simpa only [Storage.getObject,objects] using passed.stored o e some

theorem passed_accepted (passed : Passed s₀ exchanges s) (found : s.getMutation row.mutationId = some row)
    (fine : handleResponse reply = .ok resp) (now : String) :
    Passed s₀ (exchanges ++ [(requestOf row,reply)]) (accept s row resp now) := by
  have good : taken (requestOf row,reply) = true := by simp [taken,fine,Except.isOk,Except.toBool]
  have get : ∀ o, (accept s row resp now).getObject o = if row.objectId = o then some _ else s.getObject o := find_upsert s.objects _
  refine ⟨?_,?_,?_⟩
  · intro r
    rw [requests_accept,List.mem_filter,untaken_append,passed.left]
    simp only [good,decide_eq_true_eq,Bool.true_eq_false,imp_false,and_assoc]
    refine and_congr_right (fun queued => and_congr_right (fun untaken => not_congr ⟨?_,?_⟩))
    · intro same
      obtain ⟨m,member,rfl⟩ := List.mem_map.mp ((passed.left r).mpr ⟨queued,untaken⟩)
      rw [Option.some.inj ((mem_find member same).symm.trans found)]
    · rintro rfl
      rfl
  · intro o none
    rw [last_taken_append] at none
    by_cases mine : row.objectId = o
    · rw [if_pos ⟨mine,good⟩] at none
      cases none
    · rw [if_neg (fun both => mine both.1)] at none
      rw [get,if_neg mine]
      exact passed.same o none
  · intro o e some
    rw [last_taken_append] at some
    by_cases mine : row.objectId = o
    · rw [if_pos ⟨mine,good⟩] at some
      cases some
      exact ⟨_,resp,(get o).trans (if_pos mine),fine,rfl,rfl,rfl⟩
    · rw [if_neg (fun both => mine both.1)] at some
      rw [get,if_neg mine]
      exact passed.stored o e some

theorem passed_turn {options : PushOptions Key} (passed : Passed s₀ exchanges s) (found : s.getMutation row.mutationId = some row)
    (outcome : Outcome options s row (handleResponse reply) t flow) : Passed s₀ (exchanges ++ [(requestOf row,reply)]) t := by
  generalize answered : handleResponse reply = answer at outcome
  cases outcome with
  | accepted resp now => exact passed_accepted passed found answered now
  | conflicting => exact passed_unaccepted passed answered rfl (requests_restatus found _ _)
  | unrecorded => exact passed_unaccepted passed answered rfl (requests_restatus found _ _)
  | transient => exact passed_unaccepted passed answered rfl (requests_restatus found _ _)
  | fatal => exact passed_unaccepted passed answered rfl (requests_restatus found _ _)

-- The requests of one push with the replies they get.
def exchanged (codec : NoteCodec Key Note) (options : PushOptions Key) (ticks : Nat → Tick) (replies : List (Reply PushResponse))
    (d : Device) : List (PushRequest × Reply PushResponse) :=
  (pushPendingChanges scripted codec options ticks {d.script with pushes := replies} d.storage).1.sent.drop d.script.sent.length

def conflicts : Except SyncNetworkError PushResponse → Bool
  | .error (.conflict _) => true
  | _ => false

-- No conflict is resolved by the push itself.
def Unresolved (options : PushOptions Key) (replies : List (Reply PushResponse)) : Prop :=
  options.conflictPolicy = .manual ∨ ∀ reply ∈ replies, conflicts (handleResponse reply) = false

theorem push_passed {options : PushOptions Key} (unresolved : Unresolved options replies) (d : Device) :
    Passed d.storage (exchanged codec options ticks replies d)
      (pushPendingChanges scripted codec options ticks {d.script with pushes := replies} d.storage).2.1 := by
  have passed := push_loop_rule
    (fun _ w s _ => ∃ x, w.sent = d.script.sent ++ x ∧ Passed d.storage x s ∧ ∀ reply ∈ w.pushes, reply ∈ replies)
    (fun w s => ∃ x, w.sent = d.script.sent ++ x ∧ Passed d.storage x s)
    ?_ ?_ ?_ ?_ (listed_start d.storage) ⟨[],by simp,passed_start _,fun _ inside => inside⟩
    (rfl : pushLoop scripted codec options ticks d.storage.listPendingMutations {d.script with pushes := replies} d.storage
      .default = _)
  · obtain ⟨x,sent,after⟩ := passed
    have same : exchanged codec options ticks replies d = x := by
      unfold exchanged pushPendingChanges
      rw [sent,List.drop_left]
    rw [same]
    exact after
  · rintro rest w s n ⟨x,sent,passed,_⟩ _
    exact ⟨x,sent,passed⟩
  · intro row rest w s n kept _
    exact kept
  · rintro row rest w s n ⟨x,sent,passed,served⟩ _ _ _
    refine unresolved.imp id ?_
    intro plain conflict answer
    cases pushes : w.pushes with
    | nil => simp [scripted,pushes,hangUp,handleResponse] at answer
    | cons reply others =>
        have calm := plain reply (served reply (by rw [pushes]; exact List.mem_cons_self))
        simp only [scripted,pushes,List.headD_cons] at answer
        rw [answer] at calm
        cases calm
  · rintro row rest w s n t flow ⟨x,sent,passed,served⟩ _ _ _ found outcome
    have next := passed_turn passed found outcome
    have record : (scripted.pushMutation (requestOf row) w).2.sent = d.script.sent ++ (x ++ [(requestOf row,w.pushes.headD hangUp)]) := by
      simp [scripted,sent]
    refine ⟨fun _ => ⟨_,record,next,?_⟩,fun _ => ⟨_,record,next⟩⟩
    exact fun reply inside => served reply (List.mem_of_mem_tail inside)

-- A success reports the revision after the one its request expected.
def Truthful (exchanges : List (PushRequest × Reply PushResponse)) : Prop :=
  ∀ e ∈ exchanges, ∀ resp ∈ (handleResponse e.2).toOption, resp.revision = e.1.expectedRevision+1

-- Where an object keeps queued edits, the last of its edits that the push got
-- accepted is the newest one made.
def Latest (made : List PushRequest) (s : Storage) (exchanges : List (PushRequest × Reply PushResponse)) : Prop :=
  ∀ r ∈ requests s, Untaken exchanges r → ∀ e ∈ lastTaken exchanges r.objectId, newest made r.objectId = some e.1

theorem visible_push (visible : Visible made s) (passed : Passed s exchanges t) (truthful : Truthful exchanges)
    (latest : Latest made s exchanges) : Visible made t := by
  intro r inside
  obtain ⟨queued,untaken⟩ := (passed.left r).mp inside
  obtain ⟨⟨n,x,found,held,content,deleted,low⟩,top⟩ := visible r queued
  have before : ∀ q ∈ requests t, q ∈ requests s := fun q member => ((passed.left q).mp member).1
  refine ⟨?_,fun k last q member mine => top k last q (before q member) mine⟩
  cases last : lastTaken exchanges r.objectId with
  | none =>
      exact ⟨n,x,found,(passed.same _ last).trans held,content,deleted,fun q member mine => low q (before q member) mine⟩
  | some e =>
      obtain ⟨y,resp,shown,fine,sealed,gone,level⟩ := passed.stored _ e last
      have newer := latest r queued untaken e last
      have told := truthful e (last_taken_mem last) resp (by rw [fine]; rfl)
      refine ⟨e.1,y,newer,shown,sealed,gone,?_⟩
      intro q member mine
      have bound := top e.1 newer q (before q member) mine
      omega

-- Ids are new, no push resolves a conflict by itself, and successes are
-- reported as the server does.
def Event.Genuine (codec : NoteCodec Key Note) : Event Key → Device → Prop
  | .edit command,d => Fresh command d.storage
  | .push options ticks replies,d => Unresolved options replies ∧ Truthful (exchanged codec options ticks replies d)
  | _,_ => True

def Event.Safe (codec : NoteCodec Key Note) : Event Key → Device → Prop
  | .edit command,d => ∀ o ∈ command.purgeTarget d.storage, ∀ r ∈ requests d.storage, r.objectId ≠ o
  | .reset,_ => True
  | .pull _ _ _ _ replies,d => PullSafe d replies
  | .push options ticks replies,d => Latest d.made d.storage (exchanged codec options ticks replies d)

instance (command : Command) (s : Storage) : Decidable (Fresh command s) :=
  inferInstanceAs (Decidable (s.getMutation command.draw.mutationId = none ∧
    (command.creates = true → ∀ r ∈ requests s, r.objectId ≠ command.draw.objectId)))

instance (exchanges : List (PushRequest × Reply PushResponse)) (r : PushRequest) : Decidable (Untaken exchanges r) :=
  inferInstanceAs (Decidable (∀ e ∈ exchanges, e.1 = r → taken e = false))

instance (codec : NoteCodec Key Note) (event : Event Key) (d : Device) : Decidable (event.Genuine codec d) :=
  match event with
  | .edit command => inferInstanceAs (Decidable (Fresh command d.storage))
  | .reset => inferInstanceAs (Decidable True)
  | .pull _ _ _ _ _ => inferInstanceAs (Decidable True)
  | .push options ticks replies => inferInstanceAs (Decidable (
      (options.conflictPolicy = .manual ∨ ∀ reply ∈ replies, conflicts (handleResponse reply) = false) ∧
      ∀ e ∈ exchanged codec options ticks replies d, ∀ resp ∈ (handleResponse e.2).toOption,
        resp.revision = e.1.expectedRevision+1))

instance (codec : NoteCodec Key Note) (event : Event Key) (d : Device) : Decidable (event.Safe codec d) :=
  match event with
  | .edit command =>
    inferInstanceAs (Decidable (∀ o ∈ command.purgeTarget d.storage, ∀ r ∈ requests d.storage, r.objectId ≠ o))
  | .reset => inferInstanceAs (Decidable True)
  | .pull _ _ _ _ replies => inferInstanceAs (Decidable (∀ reply ∈ replies, ∀ page ∈ (handleResponse reply).toOption,
      ∀ change ∈ page.changes, currentCursor d.storage < change.serverSeq → Welcome d.made d.storage change))
  | .push options ticks replies => inferInstanceAs (Decidable (∀ r ∈ requests d.storage,
      Untaken (exchanged codec options ticks replies d) r → ∀ e ∈ lastTaken (exchanged codec options ticks replies d) r.objectId,
        newest d.made r.objectId = some e.1))

theorem event_visible (event : Event Key) (d e : Device) (visible : Visible d.made d.storage) (genuine : event.Genuine codec d)
    (safe : event.Safe codec d) (ran : event.run codec key d = some e) : Visible e.made e.storage := by
  cases event with
  | edit command =>
      cases ran
      exact visible_command visible genuine safe
  | reset =>
      cases ran
      exact visible_frame visible (by rw [reset_in_flight_frame d.storage]) (reset_requests d.storage)
  | pull vaultKey options clock fuel replies =>
      obtain ⟨out,pulled,rfl⟩ := Option.map_eq_some_iff.mp ran
      exact visible_pull (d := d) visible safe pulled
  | push options ticks replies =>
      cases ran
      exact visible_push visible (push_passed genuine.1 d) genuine.2 safe

-- What an update queues next: it was typed over the newest edit's text and
-- expects a revision that includes every queued edit of its note.
def BuildsOn (made : List PushRequest) (s : Storage) (m : PendingMutation) : Prop :=
  ∀ r ∈ requests s, r.objectId = m.objectId → r.expectedRevision < m.expectedRevision ∧
    ∃ prior n, s.getObject m.objectId = some prior ∧ newest made m.objectId = some n ∧ prior.envelope = n.envelope

theorem update_builds_on (visible : Visible made s) (draw : Draw) (noteId : String) (content : Content)
    (fresh : s.getMutation draw.mutationId = none)
    (queued : (updateNote codec key draw noteId content s).2.getMutation draw.mutationId = some m) : BuildsOn made s m := by
  have absent : ∀ t : Storage, t.mutations = s.mutations → t.getMutation draw.mutationId = some m → BuildsOn made s m := by
    intro t queue found
    rw [Storage.getMutation,queue] at found
    rw [Storage.getMutation,found] at fresh
    cases fresh
  cases run_commanded codec key (.update draw noteId content) s fresh with
  | nothing _ queue => exact absent _ queue queued
  | purged o asked => cases asked
  | edited object row edit _ queue =>
      have same : m = row := by
        have found : (s.mutations.upsert row).find row.mutationId = some m := by
          rw [edit.id,← queue]
          exact queued
        rw [find_upsert_same] at found
        exact (Option.some.inj found).symm
      subst same
      intro r inside mine
      obtain ⟨⟨n,x,last,held,shown,_,low⟩,_⟩ := visible r inside
      rw [mine] at last held
      rcases edit.basis with ⟨creates,_,_⟩ | ⟨prior,found,level⟩
      · cases creates
      · rw [← edit.target,held] at found
        cases found
        have below := low r inside rfl
        exact ⟨by omega,x,n,held,last,shown⟩

-- The phases of one cycle against the replies of a script.
def phasesOf (call : CycleCall Key) (one : List (Reply PullChangesResponse)) (two : List (Reply PushResponse))
    (three : List (Reply PullChangesResponse)) : List (Event Key) :=
  [.reset,
    .pull call.vaultKey call.options.pullOptions call.draws.clock call.draws.fuel one,
    .push (pushKey call.options call.vaultKey) call.draws.ticks two,
    .pull call.vaultKey call.options.pullOptions call.draws.followupClock call.draws.fuel three]

theorem cycle_events (call : CycleCall Key) (d : Device)
    (ran : runSyncCycle scripted codec call.vaultKey call.options call.draws d.script d.storage = some (w',t,result)) :
    ∃ two three n, 2 ≤ n ∧ runAll (Event.run codec key) ((phasesOf call d.script.pulls two three).take n) d =
      some ⟨w',t,d.made⟩ := by
  cases cycle_phases ran with
  | unpulled pulled => exact ⟨[],[],2,Nat.le_refl _,by simp [phasesOf,runAll,Event.run,pulled]⟩
  | @unpushed w₁ s₁ _ _ _ _ pulled pushed =>
      refine ⟨w₁.pushes,[],3,by omega,?_⟩
      simp [phasesOf,runAll,Event.run,pulled,pushed]
  | @ended w₁ s₁ _ _ _ _ pulled pushed =>
      refine ⟨w₁.pushes,[],3,by omega,?_⟩
      simp [phasesOf,runAll,Event.run,pulled,pushed]
  | @unfollowed w₁ s₁ _ w₂ s₂ _ _ _ _ pulled pushed again =>
      refine ⟨w₁.pushes,w₂.pulls,4,by omega,?_⟩
      simp [phasesOf,runAll,Event.run,pulled,pushed,again]
  | @followed w₁ s₁ _ w₂ s₂ _ _ _ _ pulled pushed again =>
      refine ⟨w₁.pushes,w₂.pulls,4,by omega,?_⟩
      simp [phasesOf,runAll,Event.run,pulled,pushed,again]

theorem newest_edit_visible (codec : NoteCodec Key Note) (key : Key) (events : List (Event Key)) (d e : Device)
    (idle : d.storage.mutations.rows = []) (genuine : Along (Event.run codec key) (Event.Genuine codec) events d)
    (safe : Along (Event.run codec key) (Event.Safe codec) events d) (ran : runAll (Event.run codec key) events d = some e) :
    Visible e.made e.storage ∧
    (∀ draw noteId content m, e.storage.getMutation draw.mutationId = none →
      (updateNote codec key draw noteId content e.storage).2.getMutation draw.mutationId = some m → BuildsOn e.made e.storage m) ∧
    (∀ (call : CycleCall Key) w t result,
      runSyncCycle scripted codec call.vaultKey call.options call.draws e.script e.storage = some (w,t,result) →
      ∃ two three n, 2 ≤ n ∧ runAll (Event.run codec key) ((phasesOf call e.script.pulls two three).take n) e =
        some ⟨w,t,e.made⟩) := by
  have start : Visible d.made d.storage := by
    intro r inside
    simp [requests,idle] at inside
  have visible : Visible e.made e.storage := run_keeps (fun d => Visible d.made d.storage)
    (fun event d e visible fine stepped => event_visible event d e visible fine.1 fine.2 stepped)
    events (along_both events genuine safe) start ran
  refine ⟨visible,?_,?_⟩
  · intro draw noteId content m fresh queued
    exact update_builds_on visible draw noteId content fresh queued
  · intro call w t result cycled
    exact cycle_events call e cycled

def blankDevice : Device := ⟨⟨[],[],[]⟩,.new,[]⟩

def bobRun : Event Unit → Device → Option Device := Event.run NoteCodec.standIn ()

-- A note is written and then edited, both offline.
def writtenTwice : List (Event Unit) :=
  [.edit (.create ⟨firstNote,change1,"t1",0⟩ ⟨"","aaaa",[]⟩),.edit (.update ⟨"",change2,"t2",0⟩ firstNote ⟨"","bbbb",[]⟩)]

def pushed (replies : List (Reply PushResponse)) : Event Unit := .push .default (fun _ => ⟨"t3","","",0⟩) replies
def pulled (changes : List ObjectChange) : Event Unit :=
  .pull none .default (fun _ => "t3") 2 [.response 200 ⟨.ok ⟨changes,1,false⟩,none,none,""⟩]
def acceptedAt (revision : Nat) : Reply PushResponse := .response 200 ⟨.ok ⟨firstNote,revision,revision⟩,none,none,""⟩
def remoteChange (o : String) : ObjectChange := ⟨1,o,1,objectKindNote,false,sealedText o "dddd"⟩

-- Another note is pulled and both pushes are lost.
def harmless : List (Event Unit) := writtenTwice ++ [pulled [remoteChange secondNote],pushed [.dropped "reset",.dropped "reset"]]

theorem lost_pushes_show_newest : ∃ e, runAll bobRun harmless blankDevice = some e ∧
    (requests e.storage).length = 2 ∧ Visible e.made e.storage := by
  have facts : ∃ e ∈ runAll bobRun harmless blankDevice, (requests e.storage).length = 2 := by decide
  obtain ⟨e,ran,count⟩ := facts
  exact ⟨e,ran,count,(newest_edit_visible NoteCodec.standIn () harmless blankDevice e rfl (by decide) (by decide) ran).1⟩

theorem hidden (queued : r ∈ requests s)
    (differs : (s.getObject r.objectId).map (·.envelope) ≠ (newest made r.objectId).map (·.envelope)) : ¬Visible made s := by
  intro visible
  obtain ⟨⟨n,x,last,held,shown,_⟩,_⟩ := visible r queued
  rw [last,held,Option.map_some,Option.map_some,shown] at differs
  exact differs rfl

def secondEdit : PushRequest := upsertOf change2 firstNote 1 "bbbb"
def thirdText : Draw := ⟨"",change3,"t4",0⟩

-- The first edit is accepted while the second is lost: the note shows the first
-- text again, and a third edit expects what the second already expects. A pull
-- of the note hides both edits.
theorem partial_push_hides_newest :
    (∃ e m, Along bobRun (Event.Genuine NoteCodec.standIn) (writtenTwice ++ [pushed [acceptedAt 1,.dropped "reset"]]) blankDevice ∧
      runAll bobRun (writtenTwice ++ [pushed [acceptedAt 1,.dropped "reset"]]) blankDevice = some e ∧ ¬Visible e.made e.storage ∧
      (updateNote NoteCodec.standIn () thirdText firstNote ⟨"","cccc",[]⟩ e.storage).2.getMutation change3 = some m ∧
      ¬BuildsOn e.made e.storage m) ∧
    ∃ e, Along bobRun (Event.Genuine NoteCodec.standIn) (writtenTwice ++ [pulled [remoteChange firstNote]]) blankDevice ∧
      runAll bobRun (writtenTwice ++ [pulled [remoteChange firstNote]]) blankDevice = some e ∧ ¬Visible e.made e.storage := by
  refine ⟨?_,?_⟩
  · have facts : ∃ e ∈ runAll bobRun (writtenTwice ++ [pushed [acceptedAt 1,.dropped "reset"]]) blankDevice,
        secondEdit ∈ requests e.storage ∧
        (e.storage.getObject firstNote).map (·.envelope) ≠ (newest e.made firstNote).map (·.envelope) ∧
        ∃ m ∈ (updateNote NoteCodec.standIn () thirdText firstNote ⟨"","cccc",[]⟩ e.storage).2.getMutation change3,
          m.objectId = firstNote ∧ m.expectedRevision = 1 := by decide
    obtain ⟨e,ran,queued,differs,m,drafted,object,level⟩ := facts
    refine ⟨e,m,by decide,ran,hidden queued differs,drafted,?_⟩
    intro builds
    have below := (builds secondEdit queued object.symm).1
    rw [level] at below
    exact absurd below (by decide)
  · have facts : ∃ e ∈ runAll bobRun (writtenTwice ++ [pulled [remoteChange firstNote]]) blankDevice,
        secondEdit ∈ requests e.storage ∧
        (e.storage.getObject firstNote).map (·.envelope) ≠ (newest e.made firstNote).map (·.envelope) := by decide
    obtain ⟨e,ran,queued,differs⟩ := facts
    exact ⟨e,by decide,ran,hidden queued differs⟩

end ZkNote.NewestEdit
