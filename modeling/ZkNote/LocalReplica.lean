import ZkNote.NoteEdits
import ZkNote.PullRules
import ZkNote.PushSteps

namespace ZkNote.LocalReplica
open Protocol Adapter KeyedTable ServerStore ServerHistory ServerPages ServerRoutes SyncLink LinkSteps LocalStorage
open PullChanges PullRules PushChanges PushSteps Notes NoteEdits

variable {crates : Crates} {account : String} {Key Note : Type} {codec : NoteCodec Key Note} {key : Key}
variable {log more : List Acceptance} {s t : Storage} {x : StoredEncryptedObject} {e : Acceptance} {row : PendingMutation}

-- A stored object is a copy of one revision the server accepted.
structure Copies (x : StoredEncryptedObject) (e : Acceptance) : Prop where
  object : e.objectId = x.objectId
  revision : x.revision = e.revision
  envelope : x.envelope = (changeOf (headOf e)).envelope
  deleted : x.isDeleted = e.request.isDeleted

-- What a device keeps true beside the server's log, through edits, pulls and
-- pushes: heads at or below the cursor are not newer than what is stored, an
-- object without queued edits is a copy, a revision above the server's comes from
-- an edit the server has not taken, and what it has taken is what is queued.
structure Replica (crates : Crates) (account : String) (log : List Acceptance) (s : Storage) : Prop where
  sound : Sound crates s
  admitted : ∀ e ∈ log, Admitted crates e.request
  cursor : currentCursor s ≤ (ofAccount log account).length
  seen : ∀ o h, (ofObject log account o).getLast? = some h → h.seq ≤ currentCursor s →
    ∀ x, s.getObject o = some x → h.revision ≤ x.revision
  clean : ∀ x ∈ s.objects.rows, (∀ r ∈ requests s, r.objectId ≠ x.objectId) → ∃ e ∈ log, e.accountId = account ∧ Copies x e
  level : ∀ x ∈ s.objects.rows, x.revision ≤ headRevision log account x.objectId ∨
    ∃ r ∈ requests s, r.objectId = x.objectId ∧ ofMutation log account r.mutationId = none ∧ x.revision ≤ r.expectedRevision+1
  own : ∀ r ∈ requests s, ∀ e, ofMutation log account r.mutationId = some e → e.request = r

theorem new_replica (crates : Crates) (account : String) : Replica crates account [] .new := by
  refine ⟨⟨?_,?_⟩,?_,Nat.le_refl _,?_,?_,?_,?_⟩
  · intro x inside; cases inside
  · intro m inside; cases inside
  · intro e inside; cases inside
  · intro o h last; cases last
  · intro x inside; cases inside
  · intro x inside; cases inside
  · intro r inside; cases inside

theorem sound_requests (sound : Sound crates s) : ∀ r ∈ requests s, Sendable crates r := by
  intro r inside
  obtain ⟨m,member,rfl⟩ := List.mem_map.mp inside
  exact sound.queue m member

-- Statuses, base versions and conflict records are no part of it.
theorem replica_frame (replica : Replica crates account log s) (objects : t.objects = s.objects) (queue : requests t = requests s)
    (state : currentCursor t = currentCursor s) : Replica crates account log t := by
  obtain ⟨sound,admitted,cursor,seen,clean,level,own⟩ := replica
  refine ⟨⟨by rw [objects]; exact sound.stored,?_⟩,admitted,by rw [state]; exact cursor,?_,?_,?_,by rw [queue]; exact own⟩
  · intro m inside
    exact sound_requests sound _ (queue ▸ List.mem_map_of_mem inside)
  · simpa only [Storage.getObject,objects,queue,state] using seen
  · simpa only [objects,queue] using clean
  · simpa only [objects,queue] using level

-- What others send: it passes the handler and does not use the queued ids.
def Foreign (crates : Crates) (account : String) (queue : List PushRequest) (calls : List Call) : Prop :=
  ∀ call ∈ calls, (rejectPush crates call.2).isNone = true ∧
    (call.1 = account → ∀ r ∈ queue, (crates.parseUuid call.2.mutationId).toOption ≠ some r.mutationId)

instance (crates : Crates) (account : String) (queue : List PushRequest) (calls : List Call) :
    Decidable (Foreign crates account queue calls) :=
  inferInstanceAs (Decidable (∀ call ∈ calls, (rejectPush crates call.2).isNone = true ∧
    (call.1 = account → ∀ r ∈ queue, (crates.parseUuid call.2.mutationId).toOption ≠ some r.mutationId)))

theorem passes_admitted (passes : rejectPush crates request = none) : Admitted crates request := by
  unfold rejectPush at passes
  split at passes
  · cases passes
  rename_i mutation
  split at passes
  · cases passes
  rename_i object
  split at passes
  · cases passes
  rename_i envelope
  split at passes
  · cases passes
  rename_i version
  split at passes
  · cases passes
  rename_i decodable
  simp only [Bool.not_eq_true',Bool.not_eq_false,Bool.and_eq_true] at decodable
  obtain ⟨⟨⟨keyNonce,keyText⟩,payloadNonce⟩,payloadText⟩ := decodable
  refine ⟨?_,?_,not_not.mp envelope,not_not.mp version,keyNonce,keyText,payloadNonce,payloadText⟩
  · cases parsed : crates.parseUuid request.mutationId with
    | ok m => exact ⟨m,rfl⟩
    | error e => simp [parsed,Except.toOption] at mutation
  · cases parsed : crates.parseUuid request.objectId with
    | ok o => exact ⟨o,rfl⟩
    | error e => simp [parsed,Except.toOption] at object

theorem foreign_admitted (foreign : Foreign crates account queue calls) :
    ∀ e ∈ acceptedBy crates db calls, Admitted crates e.request := by
  intro e inside
  obtain ⟨call,member,_,same,_⟩ := accepted_call inside
  rw [same]
  exact passes_admitted (Option.isNone_iff_eq_none.mp (foreign call member).1)

theorem foreign_ids (foreign : Foreign crates account queue calls) :
    ∀ e ∈ acceptedBy crates db calls, e.accountId = account → ∀ r ∈ queue, e.mutationId ≠ r.mutationId := by
  intro e inside own r queued equal
  obtain ⟨call,member,caller,_,parsed⟩ := accepted_call inside
  apply (foreign call member).2 (caller.symm.trans own) r queued
  rw [parsed,← equal]
  rfl

theorem of_mutation_append (log more : List Acceptance) (a m : String) :
    ofMutation (log ++ more) a m = (ofMutation log a m).or (ofMutation more a m) := by
  unfold ofMutation
  rw [List.find?_append]

-- New entries of the log: those under queued ids carry what is queued.
def Mine (account : String) (s : Storage) (more : List Acceptance) : Prop :=
  ∀ e ∈ more, e.accountId = account → ∀ r ∈ requests s, e.mutationId = r.mutationId → e.request = r

theorem head_grows (log more : List Acceptance) (account o : String) :
    headRevision log account o ≤ headRevision (log ++ more) account o := by
  simp [headRevision,ofObject]

theorem entry_object (rep : Represents crates log db) (inside : e ∈ log) (spelled : Spelled crates e.request.objectId) :
    e.objectId = e.request.objectId :=
  Except.ok.inj ((rep.parsed e inside).object.symm.trans spelled)

-- A new head lies above every cursor of before.
theorem head_old (rep : Represents crates log db) (later : Represents crates (log ++ more) next)
    (below : h.seq ≤ (ofAccount log account).length) (last : (ofObject (log ++ more) account o).getLast? = some h) :
    (ofObject log account o).getLast? = some h := by
  rw [last_append] at last
  cases tail : (ofObject more account o).getLast? with
  | none => rwa [tail,Option.none_or] at last
  | some f =>
      rw [tail,Option.some_or] at last
      cases last
      obtain ⟨new,own,_⟩ := last_mem tail
      have high := added_seq rep later new
      rw [own,rep.sequence] at high
      omega

theorem replica_grow (replica : Replica crates account log s) (rep : Represents crates log db)
    (later : Represents crates (log ++ more) next) (admitted : ∀ e ∈ more, Admitted crates e.request)
    (mine : Mine account s more) : Replica crates account (log ++ more) s := by
  refine ⟨replica.sound,?_,?_,?_,?_,?_,?_⟩
  · intro e inside
    rcases List.mem_append.mp inside with old | new
    · exact replica.admitted e old
    · exact admitted e new
  · have bound := replica.cursor
    simp only [ofAccount,List.filter_append,List.length_append] at bound ⊢
    omega
  · intro o h last below
    exact replica.seen o h (head_old rep later (Nat.le_trans below replica.cursor) last) below
  · intro x inside free
    obtain ⟨e,old,facts⟩ := replica.clean x inside free
    exact ⟨e,List.mem_append_left _ old,facts⟩
  · intro x inside
    rcases replica.level x inside with below | ⟨r,queued,object,fresh,bound⟩
    · exact .inl (Nat.le_trans below (head_grows log more account x.objectId))
    · cases seen : ofMutation more account r.mutationId with
      | none => exact .inr ⟨r,queued,object,by rw [of_mutation_append,fresh,seen]; rfl,bound⟩
      | some e =>
          obtain ⟨new,own,id⟩ := ofMutation_mem seen
          have inside := List.mem_append_right log new
          have request := mine e new own r queued id
          have spelled := (sound_requests replica.sound r queued).object
          have target := entry_object later inside (by rw [request]; exact spelled)
          have based := later.based e inside
          have count := (represented_revision_bound later inside).2
          rw [own,target,request,object] at count
          rw [request] at based
          left
          change x.revision ≤ (ofObject (log ++ more) account x.objectId).length
          omega
  · intro r queued e found
    rw [of_mutation_append] at found
    cases old : ofMutation log account r.mutationId with
    | some f =>
        rw [old,Option.some_or] at found
        cases found
        exact replica.own r queued e old
    | none =>
        rw [old,Option.none_or] at found
        obtain ⟨new,own,id⟩ := ofMutation_mem found
        exact mine e new own r queued id

theorem head_entry (rep : Represents crates log db) (member : r ∈ db.objects.rows) (own : r.accountId = account) :
    ∃ h, (ofObject log account r.objectId).getLast? = some h ∧ r = headOf h := by
  have found := mem_iff_find.mp member
  rw [own,rep.head] at found
  obtain ⟨h,last,same⟩ := Option.map_eq_some_iff.mp found
  exact ⟨h,last,same.symm⟩

theorem get_put (s : Storage) (x : StoredEncryptedObject) (o : String) :
    (s.putObject x).getObject o = if x.objectId = o then some x else s.getObject o :=
  find_upsert s.objects x o

theorem mem_put (inside : y ∈ (s.putObject x).objects.rows) : y = x ∨ y ∈ s.objects.rows ∧ y.objectId ≠ x.objectId :=
  mem_upsert.mp inside

theorem entry_spelled (rep : Represents crates log db) (inside : e ∈ log) : Spelled crates e.objectId :=
  crates.canonical _ _ (rep.parsed e inside).object

-- Storing the next head above the cursor.
theorem replica_take (replica : Replica crates account log s) (rep : Represents crates log db)
    (head : NextHead account db (currentCursor s) r) (now : String) :
    Replica crates account log ((s.putObject (storedOf (changeOf r) now)).setSyncCursor r.serverSeq) := by
  obtain ⟨h,last,rfl⟩ := head_entry rep head.member head.own
  obtain ⟨inside,own,object⟩ := last_mem last
  have admitted := replica.admitted h inside
  refine ⟨⟨?_,replica.sound.queue⟩,replica.admitted,?_,?_,?_,?_,replica.own⟩
  · intro y stored
    rcases mem_put stored with rfl | ⟨old,_⟩
    · refine ⟨entry_spelled rep inside,fun kind => ?_⟩
      exact ⟨rfl,kind,admitted.version,admitted.keyNonce,admitted.keyText,admitted.payloadNonce,admitted.payloadText⟩
    · exact replica.sound.stored y old
  · have bound := (represented_seq_bound rep inside).2
    rw [own,rep.sequence] at bound
    exact bound
  · intro o f final below x held
    by_cases same : h.objectId = o
    · have equal : f = h := by
        have last : (ofObject log account h.objectId).getLast? = some h := last
        rw [same] at last
        exact Option.some.inj (final.symm.trans last)
      have new : x = storedOf (changeOf (headOf h)) now :=
        Option.some.inj (held.symm.trans ((get_put ..).trans (if_pos same)))
      rw [equal,new]
      exact Nat.le_refl _
    · have unchanged : ((s.putObject (storedOf (changeOf (headOf h)) now)).setSyncCursor (headOf h).serverSeq).getObject o =
          s.getObject o := (get_put ..).trans (if_neg same)
      have old : f.seq ≤ currentCursor s := by
        by_contra above
        obtain ⟨member,ownF,objectF⟩ := last_mem final
        have row : headOf f ∈ db.objects.rows := by
          apply find_mem (k := (account,o))
          rw [rep.head,final]
          rfl
        have equal := head.next (headOf f) row ownF (Nat.lt_of_not_le above) below
        have ids : f.objectId = h.objectId := congrArg EncryptedObjectRow.objectId equal
        exact same (ids.symm.trans objectF)
      exact replica.seen o f final old x (unchanged.symm.trans held)
  · intro y stored free
    rcases mem_put stored with rfl | ⟨old,_⟩
    · exact ⟨h,inside,own,rfl,rfl,rfl,rfl⟩
    · exact replica.clean y old free
  · intro y stored
    rcases mem_put stored with rfl | ⟨old,_⟩
    · exact .inl (Nat.le_of_eq (last_revision rep last))
    · exact replica.level y old

theorem request_unique {r : PushRequest} (found : s.getMutation row.mutationId = some row) (inside : r ∈ requests s)
    (same : r.mutationId = row.mutationId) : r = requestOf row := by
  obtain ⟨m,member,rfl⟩ := List.mem_map.mp inside
  rw [Option.some.inj ((mem_find member same).symm.trans found)]

-- Acknowledging a queued edit with a revision the log holds for it.
theorem replica_ack (replica : Replica crates account log s) (rep : Represents crates log db)
    (found : s.getMutation row.mutationId = some row) (inside : e ∈ log) (own : e.accountId = account)
    (request : e.request = requestOf row)
    (newest : ∀ h, (ofObject log account row.objectId).getLast? = some h → h.seq ≤ currentCursor s → h.revision ≤ e.revision)
    (now : String) : Replica crates account log (accept s row (responseOf e) now) := by
  have sendable := replica.sound.queue row (find_mem found)
  have target : e.objectId = row.objectId := by
    have parsed := entry_object rep inside (by rw [request]; exact sendable.object)
    rwa [request] at parsed
  have queue := requests_accept s row (responseOf e) now
  have kept : ∀ r ∈ requests (accept s row (responseOf e) now), r ∈ requests s := by
    intro r member
    rw [queue] at member
    exact (List.mem_filter.mp member).1
  have others : ∀ r ∈ requests s, r.objectId ≠ row.objectId → r ∈ requests (accept s row (responseOf e) now) := by
    intro r member differs
    rw [queue]
    have other : r.mutationId ≠ row.mutationId := fun same => differs (by rw [request_unique found member same]; rfl)
    simpa using ⟨member,other⟩
  have stored : (accept s row (responseOf e) now).objects.rows = (s.putObject ⟨row.objectId,row.objectKind,e.revision,e.seq,
    decide (row.mutationType = .delete),row.envelope,now⟩).objects.rows := rfl
  have copies : Copies ⟨row.objectId,row.objectKind,e.revision,e.seq,decide (row.mutationType = .delete),row.envelope,now⟩ e := by
    refine ⟨target,rfl,?_,by rw [request]; rfl⟩
    have fits := sendable.envelope
    have kind := sendable.kind
    simp only [changeOf,headOf,request,target,requestOf] at fits kind ⊢
    rw [kind,← fits.kind]
    conv_rhs => rw [← fits.object]
  have bound := (represented_revision_bound rep inside).2
  rw [own,target] at bound
  refine ⟨⟨?_,?_⟩,replica.admitted,replica.cursor,?_,?_,?_,fun r member => replica.own r (kept r member)⟩
  · intro y member
    rw [stored] at member
    rcases mem_put member with rfl | ⟨old,_⟩
    · exact ⟨sendable.object,fun _ => sendable.envelope⟩
    · exact replica.sound.stored y old
  · intro m member
    exact sound_requests replica.sound _ (kept _ (List.mem_map_of_mem member))
  · intro o h last below x held
    have get : (accept s row (responseOf e) now).getObject o = if row.objectId = o then some _ else s.getObject o := get_put s _ o
    rw [get] at held
    by_cases same : row.objectId = o
    · rw [if_pos same] at held
      cases held
      exact newest h (by rw [same]; exact last) below
    · rw [if_neg same] at held
      exact replica.seen o h last below x held
  · intro y member free
    rw [stored] at member
    rcases mem_put member with rfl | ⟨old,other⟩
    · exact ⟨e,inside,own,copies⟩
    · refine replica.clean y old ?_
      intro r queued same
      by_cases mine : r.objectId = row.objectId
      · exact other (same.symm.trans mine)
      · exact free r (others r queued mine) same
  · intro y member
    rw [stored] at member
    rcases mem_put member with rfl | ⟨old,other⟩
    · exact .inl bound
    · rcases replica.level y old with below | ⟨r,queued,object,fresh,high⟩
      · exact .inl below
      · refine .inr ⟨r,others r queued ?_,object,fresh,high⟩
        intro mine
        exact other (object.symm.trans mine)

theorem requests_edit (edit : Edit codec key command s object m) (fresh : s.getMutation command.draw.mutationId = none)
    (queue : t.mutations = s.mutations.upsert m) : requests t = requests s ++ [requestOf m] := by
  have free : s.mutations.find m.mutationId = none := by rw [edit.id]; exact fresh
  simp only [requests,queue,upsert_fresh_rows free,List.map_append,List.map_cons,List.map_nil]

-- An edit by the user, with ids the server has not seen.
theorem replica_edited (replica : Replica crates account log s) (sound : Sound crates t)
    (novel : Novel crates (headRevision log account) command s) (edit : Edit codec key command s object m)
    (unseen : ofMutation log account command.draw.mutationId = none) (objects : t.objects = s.objects.upsert object)
    (queue : t.mutations = s.mutations.upsert m) (state : currentCursor t = currentCursor s) : Replica crates account log t := by
  have requested := requests_edit edit novel.mutation queue
  have new : requestOf m ∈ requests t := by rw [requested]; simp
  have old : ∀ r ∈ requests s, r ∈ requests t := by
    intro r inside
    rw [requested]
    exact List.mem_append_left _ inside
  have fresh : ofMutation log account (requestOf m).mutationId = none := by
    rw [request_mutation,edit.id]; exact unseen
  have get : ∀ o, t.getObject o = if object.objectId = o then some object else s.getObject o := by
    intro o
    simp only [Storage.getObject,objects]
    exact find_upsert s.objects object o
  refine ⟨sound,replica.admitted,by rw [state]; exact replica.cursor,?_,?_,?_,?_⟩
  · intro o h last below x found
    rw [state] at below
    rw [get] at found
    by_cases same : object.objectId = o
    · rw [if_pos same] at found
      cases found
      rw [edit.revision]
      rcases edit.basis with ⟨creates,drawn,_⟩ | ⟨prior,held,level⟩
      · -- a new id has no head
        have none := (novel.object creates).2.1
        rw [← drawn,same] at none
        exact absurd none (last_present last)
      · have high := replica.seen o h last below prior (by rw [← same]; exact held)
        omega
    · rw [if_neg same] at found
      exact replica.seen o h last below x found
  · intro y stored free
    rw [objects] at stored
    rcases mem_upsert.mp stored with rfl | ⟨before,_⟩
    · exact absurd edit.target (free _ new)
    · exact replica.clean y before (fun r inside => free r (old r inside))
  · intro y stored
    rw [objects] at stored
    rcases mem_upsert.mp stored with rfl | ⟨before,_⟩
    · exact .inr ⟨requestOf m,new,edit.target,fresh,Nat.le_of_eq edit.revision⟩
    · rcases replica.level y before with below | ⟨r,inside,object,unlogged,bound⟩
      · exact .inl below
      · exact .inr ⟨r,old r inside,object,unlogged,bound⟩
  · intro r inside e found
    rw [requested] at inside
    rcases List.mem_append.mp inside with before | final
    · exact replica.own r before e found
    · rw [List.mem_singleton.mp final,fresh] at found
      cases found

theorem replica_purged (replica : Replica crates account log s) (objects : t.objects = s.objects.delete (fun x => x.objectId = o))
    (queue : t.mutations = s.mutations) (state : currentCursor t = currentCursor s) : Replica crates account log t := by
  have same : requests t = requests s := by simp only [requests,queue]
  have kept : ∀ y ∈ t.objects.rows, y ∈ s.objects.rows := by
    intro y inside
    rw [objects] at inside
    exact (mem_delete.mp inside).1
  obtain ⟨sound,admitted,cursor,seen,clean,level,own⟩ := replica
  refine ⟨⟨fun y inside => sound.stored y (kept y inside),by rw [queue]; exact sound.queue⟩,admitted,by rw [state]; exact cursor,?_,
    fun y inside => by rw [same]; exact clean y (kept y inside),fun y inside => by rw [same]; exact level y (kept y inside),
    by rw [same]; exact own⟩
  intro k h last below x held
  rw [state] at below
  exact seen k h last below x (mem_find (kept x (find_mem held)) (find_key held))

-- Every edit of an object that is still queued has reached the server.
def Pushed (account : String) (log : List Acceptance) (s : Storage) (o : String) : Prop :=
  ∀ r ∈ requests s, r.objectId = o → ofMutation log account r.mutationId ≠ none

-- From one state to a later one: what had been pushed stays so, and its stored
-- revision does not go down.
def Steady (account : String) (log₀ : List Acceptance) (s₀ : Storage) (log : List Acceptance) (s : Storage) : Prop :=
  ∀ o, Pushed account log₀ s₀ o → Pushed account log s o ∧
    ∀ x, s₀.getObject o = some x → ∃ y, s.getObject o = some y ∧ x.revision ≤ y.revision

theorem steady_refl (account : String) (log : List Acceptance) (s : Storage) : Steady account log s log s :=
  fun _ pushed => ⟨pushed,fun x held => ⟨x,held,Nat.le_refl _⟩⟩

theorem steady_trans {log₀ log₁ log₂ : List Acceptance} {s₀ s₁ s₂ : Storage} (one : Steady account log₀ s₀ log₁ s₁)
    (two : Steady account log₁ s₁ log₂ s₂) : Steady account log₀ s₀ log₂ s₂ := by
  intro o pushed
  obtain ⟨still,grown⟩ := one o pushed
  obtain ⟨final,further⟩ := two o still
  refine ⟨final,?_⟩
  intro x held
  obtain ⟨y,middle,low⟩ := grown x held
  obtain ⟨z,last,high⟩ := further y middle
  exact ⟨z,last,Nat.le_trans low high⟩

theorem steady_grow (account : String) (log more : List Acceptance) (s : Storage) : Steady account log s (log ++ more) s := by
  intro o pushed
  refine ⟨?_,fun x held => ⟨x,held,Nat.le_refl _⟩⟩
  intro r inside mine none
  rw [of_mutation_append,Option.or_eq_none_iff] at none
  exact pushed r inside mine none.1

theorem steady_frame (account : String) (log : List Acceptance) (objects : t.objects = s.objects) (queue : requests t = requests s) :
    Steady account log s log t := by
  intro o pushed
  refine ⟨by unfold Pushed; rw [queue]; exact pushed,?_⟩
  intro x held
  exact ⟨x,by simpa only [Storage.getObject,objects] using held,Nat.le_refl _⟩

theorem steady_take (replica : Replica crates account log s) (rep : Represents crates log db)
    (head : NextHead account db (currentCursor s) r) (now : String) :
    Steady account log s log ((s.putObject (storedOf (changeOf r) now)).setSyncCursor r.serverSeq) := by
  intro o pushed
  refine ⟨pushed,?_⟩
  intro x held
  obtain ⟨h,last,rfl⟩ := head_entry rep head.member head.own
  have get := get_put s (storedOf (changeOf (headOf h)) now) o
  by_cases same : h.objectId = o
  · refine ⟨_,get.trans (if_pos same),?_⟩
    have own := find_key held
    rcases replica.level x (find_mem held) with below | ⟨q,inside,mine,fresh,_⟩
    · rw [own,← same] at below
      exact Nat.le_trans below (Nat.le_of_eq (last_revision rep last).symm)
    · exact absurd fresh (pushed q inside (mine.trans own))
  · exact ⟨x,get.trans ((if_neg same).trans held),Nat.le_refl _⟩

theorem steady_ack {log₁ : List Acceptance} (found : s.getMutation row.mutationId = some row) (grown : Steady account log s log₁ s)
    (low : ofMutation log account row.mutationId = none ∨ ∀ x, s.getObject row.objectId = some x → x.revision ≤ resp.revision)
    (now : String) : Steady account log s log₁ (accept s row resp now) := by
  intro o pushed
  obtain ⟨still,_⟩ := grown o pushed
  refine ⟨?_,?_⟩
  · intro r inside
    rw [requests_accept] at inside
    exact still r (List.mem_filter.mp inside).1
  · intro x held
    have get : (accept s row resp now).getObject o = if row.objectId = o then some _ else s.getObject o := get_put s _ o
    by_cases same : row.objectId = o
    · refine ⟨_,get.trans (if_pos same),?_⟩
      rcases low with fresh | below
      · exact absurd fresh (pushed (requestOf row) (List.mem_map_of_mem (find_mem found)) same)
      · exact below x (by rw [same]; exact held)
    · exact ⟨x,get.trans ((if_neg same).trans held),Nat.le_refl _⟩

end ZkNote.LocalReplica
