import ZkNote.BlobRecords
import ZkNote.BlobRuns

namespace ZkNote.BlobLeaks
open KeyedTable WorkerBlobs BlobBooks BlobAccounting BlobRecords BlobRuns Runs

variable {vars : WorkerVars} {w w' : World} {db : D1} {key storageKey : String} {task : Task} {tasks : List Task} {i j : Nat}

-- The key whose put a task carries on.
def owner : Task → Option String
  | .upload storageKey => some storageKey
  | .cancel storageKey => some storageKey
  | .publish storageKey => some storageKey
  | _ => none

def Single (tasks : List Task) : Prop := (tasks.map owner).Pairwise (fun a b => a = none ∨ a ≠ b)

theorem single_index (single : Single tasks) {a b : Task} (first : tasks[i]? = some a) (second : tasks[j]? = some b)
    (mine : owner a = some key) (yours : owner b = some key) : i = j := by
  obtain ⟨low,is⟩ := List.getElem?_eq_some_iff.mp first
  obtain ⟨high,is'⟩ := List.getElem?_eq_some_iff.mp second
  have pairs := List.pairwise_iff_getElem.mp (List.pairwise_map.mp single)
  rcases Nat.lt_trichotomy i j with less | same | more
  · have far := pairs i j low high less
    rw [is,is',mine,yours] at far
    simp at far
  · exact same
  · have far := pairs j i high low more
    rw [is,is',mine,yours] at far
    simp at far

theorem single_apart (single : Single tasks) (uploading : .upload key ∈ tasks) : .publish key ∉ tasks := by
  intro publishing
  obtain ⟨i,first⟩ := List.mem_iff_getElem?.mp uploading
  obtain ⟨j,second⟩ := List.mem_iff_getElem?.mp publishing
  have same := single_index single first second rfl rfl
  rw [same,second] at first
  cases first

theorem single_set (single : Single tasks) (old : tasks[i]? = some task) {new : Task} (same : owner new = owner task) : Single (tasks.set i new) := by
  have unchanged : (tasks.set i new).map owner = tasks.map owner := by
    apply List.ext_getElem?
    intro j
    rw [List.getElem?_map,List.getElem?_map,List.getElem?_set]
    split
    · rename_i here
      obtain ⟨inside,_⟩ := List.getElem?_eq_some_iff.mp old
      rw [← here,old,if_pos inside,Option.map_some,Option.map_some,same]
    · rfl
  rw [Single,unchanged]
  exact single

theorem single_erase (single : Single tasks) (i : Nat) : Single (tasks.eraseIdx i) :=
  single.sublist ((List.eraseIdx_sublist tasks i).map owner)

theorem single_append (single : Single tasks) (fresh : ∀ old ∈ tasks, owner old = none ∨ owner old ≠ owner task) : Single (tasks ++ [task]) := by
  rw [Single,List.map_append]
  refine List.pairwise_append.mpr ⟨single,List.pairwise_singleton _ _,fun a inside b last => ?_⟩
  obtain ⟨old,member,rfl⟩ := List.mem_map.mp inside
  rw [List.mem_singleton.mp last]
  exact fresh old member

-- Another task than the one that was replaced.
theorem set_others {new : Task} (inside : task ∈ tasks.set i new) : task = new ∨ ∃ j, j ≠ i ∧ tasks[j]? = some task := by
  obtain ⟨j,is⟩ := List.mem_iff_getElem?.mp inside
  rw [List.getElem?_set] at is
  split at is
  · split at is
    · cases is
      exact .inl rfl
    · cases is
  · rename_i other
    exact .inr ⟨j,fun same => other same.symm,is⟩

-- A key that was published once: its blob, or a note of it that goes when the object does.
def Issued (w : World) (key : String) : Prop :=
  Published w.db key ∨ ∃ task ∈ w.tasks, ∃ row ∈ taskRows task, row.storageKey = key ∧ row.retryForever = false

structure Tracked (w : World) : Prop where
  sent : ∀ key ∈ w.sent, key ∉ w.cleared → Recorded w.db key
  bucket : ∀ key ∈ w.bucket, Recorded w.db key
  late : ∀ key ∈ w.late, Open w.db key ∧ .upload key ∉ w.tasks ∧ .publish key ∉ w.tasks
  uploading : ∀ key, .upload key ∈ w.tasks → Open w.db key
  issued : ∀ key, Issued w key → key ∉ w.late ∧ .upload key ∉ w.tasks
  apart : Apart w.db
  settled : ∀ row rest, .settle row rest ∈ w.tasks → row.storageKey ∈ w.cleared ∧ (row.retryForever = false → row.storageKey ∉ w.bucket)
  single : Single w.tasks
  drawnLate : ∀ key ∈ w.late, key ∈ w.drawn
  drawnTasks : ∀ task ∈ w.tasks, ∀ key, owner task = some key → key ∈ w.drawn

-- What a task of the next world is.
inductive Source (w : World) (drawn : Option String) (db' : D1) : Task → Prop where
  | old {task : Task} (inside : task ∈ w.tasks) : Source w drawn db' task
  | upload {key : String} (new : drawn = some key) (uploading : Uploading db' key) : Source w drawn db' (.upload key)
  | list : Source w drawn db' .list
  | sweep {rows : List GarbageRow} (issued : ∀ row ∈ rows, row.retryForever = false → Issued w row.storageKey) : Source w drawn db' (.sweep rows)

theorem issued_drawn (sound : Sound vars w) (issued : Issued w key) : key ∈ w.drawn := by
  rcases issued with (⟨b,inside,rfl⟩ | ⟨g,inside,rfl,_⟩) | ⟨task,inside,row,member,rfl,_⟩
  · exact sound.drawnBlobs b inside
  · exact (sound.garbage g inside).drawn
  · exact (sound.held task inside row member).drawn

theorem called_tracked {drawn published released : Option String} {now : Nat} (sound : Sound vars w) (tracked : Tracked w)
    (called : Called vars w w' drawn published now) (filing : Filing w.db w'.db published released)
    (sent : w'.sent = w.sent) (late : w'.late = w.late) (cleared : w'.cleared = w.cleared) (single : Single w'.tasks)
    (publisher : ∀ key, published = some key → .publish key ∈ w.tasks)
    (releaser : ∀ key, released = some key → key ∈ w.cleared ∧ key ∉ w.bucket ∧ Issued w key)
    (source : ∀ task ∈ w'.tasks, Source w drawn w'.db task) : Tracked w' := by
  have uploads : ∀ key, .upload key ∈ w'.tasks → .upload key ∈ w.tasks ∨ drawn = some key ∧ Uploading w'.db key := by
    intro key inside
    cases source _ inside with
    | old before => exact .inl before
    | upload new uploading => exact .inr ⟨new,uploading⟩
  have publishes : ∀ key, .publish key ∈ w'.tasks → .publish key ∈ w.tasks := by
    intro key inside
    cases source _ inside with
    | old before => exact before
  have issues : ∀ key, Issued w' key → Issued w key ∨ published = some key ∧ Stored w'.db key := by
    rintro key (is | ⟨task,inside,row,member,own,kind⟩)
    · exact (filing.published key is).imp_left .inl
    · cases source task inside with
      | old before => exact .inl (.inr ⟨task,before,row,member,own,kind⟩)
      | upload => cases member
      | list => cases member
      | sweep issued => exact .inl (own ▸ issued row member kind)
  -- A key still to be put is neither published nor released by the call.
  have opened : ∀ key, Open w.db key → .publish key ∉ w.tasks → ¬Issued w key → Open w'.db key := by
    intro key record unpublished unissued
    rcases filing.opened key record with more | is | is
    · exact more
    · exact absurd (publisher key is) unpublished
    · exact absurd (releaser key is).2.2 unissued
  have unlate : ∀ key ∈ w.late, drawn ≠ some key := fun key inside new => (called.fresh key new).1 (tracked.drawnLate key inside)
  have exclusive : ∀ key, .publish key ∈ w.tasks → .upload key ∉ w'.tasks := by
    intro key publishing uploading
    rcases uploads key uploading with old | ⟨new,_⟩
    · exact single_apart tracked.single old publishing
    · exact (called.fresh key new).1 (tracked.drawnTasks _ publishing key rfl)
  refine ⟨fun key inside dirty => ?_,fun key inside => ?_,fun key inside => ?_,fun key inside => ?_,fun key is => ?_,fun key is uploading => ?_,
    fun row rest inside => ?_,single,fun key inside => ?_,fun task inside key own => ?_⟩
  · rw [sent] at inside
    rw [cleared] at dirty
    exact (filing.recorded key (tracked.sent key inside dirty)).resolve_right (fun is => dirty (releaser key is).1)
  · rw [called.bucket] at inside
    exact (filing.recorded key (tracked.bucket key inside)).resolve_right (fun is => (releaser key is).2.1 inside)
  · rw [late] at inside
    obtain ⟨record,unsent,unpublished⟩ := tracked.late key inside
    refine ⟨opened key record unpublished (fun is => (tracked.issued key is).1 inside),fun uploading => ?_,fun publishing => unpublished (publishes key publishing)⟩
    rcases uploads key uploading with old | ⟨new,_⟩
    · exact unsent old
    · exact unlate key inside new
  · rcases uploads key inside with old | ⟨_,uploading⟩
    · exact opened key (tracked.uploading key old) (single_apart tracked.single old) (fun is => (tracked.issued key is).2 old)
    · exact .inl uploading
  · rw [late]
    rcases issues key is with old | ⟨new,_⟩
    · refine ⟨(tracked.issued key old).1,fun uploading => ?_⟩
      rcases uploads key uploading with before | ⟨drawing,_⟩
      · exact (tracked.issued key old).2 before
      · exact (called.fresh key drawing).1 (issued_drawn sound old)
    · have publishing := publisher key new
      exact ⟨fun inside => (tracked.late key inside).2.2 publishing,exclusive key publishing⟩
  · obtain ⟨u,inside,own⟩ := uploading
    rcases filing.published key is with old | ⟨_,b,member,is⟩
    · rcases called.change.uploads u inside with before | new
      · exact tracked.apart key old ⟨u,before,own⟩
      · exact (called.fresh _ new).1 (own ▸ issued_drawn sound (.inl old))
    · exact called.fit.apart b member u inside (own.trans is.symm)
  · rw [cleared,called.bucket]
    cases source _ inside with
    | old before => exact tracked.settled row rest before
  · rw [late] at inside
    exact called.draws key (tracked.drawnLate key inside)
  · cases source task inside with
    | old before => exact called.draws key (tracked.drawnTasks task before key own)
    | upload new uploading =>
        cases own
        exact (called.fresh _ new).2
    | list => cases own
    | sweep => cases own

theorem applied_filing {published released : Option String} {result : Except Abort (D1 × Bool)} (outcome : Outcome)
    (done : outcome ≠ .failed → ∀ db' returned, result = .ok (db',returned) → Filing db db' published released) :
    Filing db (outcome.apply db result).1 published released := by
  cases result with
  | error e => cases outcome <;> exact filing_refl db _ _
  | ok left =>
      obtain ⟨db',returned⟩ := left
      cases outcome with
      | failed => exact filing_refl db _ _
      | answered => exact done (by decide) db' returned rfl
      | unanswered => exact done (by decide) db' returned rfl

theorem applied_returned {result : Except Abort (D1 × Bool)} {outcome : Outcome} (returned : (outcome.apply db result).2 = true) :
    result = .ok ((outcome.apply db result).1,true) := by
  cases result with
  | error e => cases outcome <;> cases returned
  | ok left =>
      obtain ⟨db',row⟩ := left
      cases outcome with
      | failed => cases returned
      | unanswered => cases returned
      | answered =>
          cases (show row = true from returned)
          rfl

theorem put_tracked {request : PutRequest} {uuid : String} {now : Nat} {outcome : Outcome} (sound : Sound vars w) (tracked : Tracked w)
    (taken : step vars (.put request uuid now outcome) w = some w') : Tracked w' := by
  simp only [step] at taken
  split at taken
  · rename_i allowed
    obtain ⟨order,fresh⟩ := allowed
    cases taken
    have filing : Filing w.db (outcome.apply w.db (query vars (.put request uuid now outcome) w)).1 none none := by
      refine applied_filing outcome (fun _ db' returned done => ?_)
      simp only [query] at done
      split at done
      · cases done
        exact filing_refl w.db _ _
      · exact (reserve_filing sound.fit done none none).1
    have uploading : (outcome.apply w.db (query vars (.put request uuid now outcome) w)).2 = true →
        Uploading (outcome.apply w.db (query vars (.put request uuid now outcome) w)).1 (keyOf request uuid) := by
      intro returned
      have done := applied_returned returned
      generalize (outcome.apply w.db (query vars (.put request uuid now outcome) w)).1 = db' at done
      simp only [query] at done
      split at done
      · cases done
      · exact (reserve_filing sound.fit done none none).2 rfl
    refine called_tracked sound tracked (put_called sound order fresh _) filing rfl rfl rfl ?_ (fun _ is => by cases is) (fun _ is => by cases is)
      (fun task inside => ?_)
    · dsimp only
      split
      · refine single_append tracked.single (fun old inside => .inr (fun same => ?_))
        exact fresh (tracked.drawnTasks old inside (keyOf request uuid) same)
      · exact tracked.single
    · dsimp only at inside
      split at inside
      · rename_i returned
        rcases List.mem_append.mp inside with old | new
        · exact .old old
        · rw [List.mem_singleton.mp new]
          exact .upload rfl (uploading returned)
      · exact .old inside
  · cases taken

theorem cancel_tracked {now : Nat} {outcome : Outcome} (sound : Sound vars w) (tracked : Tracked w)
    (taken : step vars (.cancel i now outcome) w = some w') : Tracked w' := by
  simp only [step] at taken
  split at taken
  · rename_i held
    split at taken
    · rename_i order
      cases taken
      have filing : Filing w.db (outcome.apply w.db (query vars (.cancel i now outcome) w)).1 none none := by
        refine applied_filing outcome (fun _ db' returned done => ?_)
        simp only [query,held] at done
        exact cancel_filing sound.fit tracked.apart done none none
      exact called_tracked sound tracked (cancel_called sound held order _) filing rfl rfl rfl (single_erase tracked.single i)
        (fun _ is => by cases is) (fun _ is => by cases is) (fun task inside => .old (erased inside))
    · cases taken
  · cases taken

theorem publish_tracked {now : Nat} {outcome : Outcome} (sound : Sound vars w) (tracked : Tracked w)
    (taken : step vars (.publish i now outcome) w = some w') : Tracked w' := by
  simp only [step] at taken
  split at taken
  · rename_i storageKey held
    split at taken
    · rename_i order
      cases taken
      have filing : Filing w.db (outcome.apply w.db (query vars (.publish i now outcome) w)).1 (some storageKey) none := by
        refine applied_filing outcome (fun _ db' returned done => ?_)
        simp only [query,held] at done
        exact publish_filing sound.fit done none
      refine called_tracked sound tracked (publish_called sound held order _) filing rfl rfl rfl (single_erase tracked.single i)
        (fun key is => ?_) (fun _ is => by cases is) (fun task inside => .old (erased inside))
      cases is
      exact List.mem_of_getElem? held
    · cases taken
  · cases taken

theorem delete_tracked {accountId blobId : String} {now : Nat} {outcome : Outcome} (sound : Sound vars w) (tracked : Tracked w)
    (taken : step vars (.delete accountId blobId now outcome) w = some w') : Tracked w' := by
  simp only [step] at taken
  split at taken
  · rename_i order
    cases taken
    have filing : Filing w.db (outcome.apply w.db (query vars (.delete accountId blobId now outcome) w)).1 none none :=
      applied_filing outcome (fun _ db' returned done => delete_filing sound.fit done none none)
    exact called_tracked sound tracked (delete_called sound order) filing rfl rfl rfl tracked.single
      (fun _ is => by cases is) (fun _ is => by cases is) (fun task inside => .old inside)
  · cases taken

theorem reconcile_tracked {rank rank' : String → Nat} {now later : Nat} {outcome : Outcome} (sound : Sound vars w) (tracked : Tracked w)
    (steady : outcome ≠ .failed → Steady rank rank' now later w.db)
    (taken : step vars (.reconcile rank rank' now later outcome) w = some w') : Tracked w' := by
  simp only [step] at taken
  split at taken
  · rename_i allowed
    cases taken
    have filing : Filing w.db (outcome.apply w.db (query vars (.reconcile rank rank' now later outcome) w)).1 none none :=
      applied_filing outcome (fun applied db' returned done => collect_filing sound.fit tracked.apart (steady applied) done none)
    refine called_tracked sound tracked (reconcile_called sound allowed.1 allowed.2 _) filing rfl rfl rfl ?_
      (fun _ is => by cases is) (fun _ is => by cases is) (fun task inside => ?_)
    · dsimp only
      split
      · exact single_append tracked.single (fun old _ => by
          cases is : owner old with
          | none => exact .inl rfl
          | some key => exact .inr (fun same => by cases same))
      · exact tracked.single
    · dsimp only at inside
      split at inside
      · rcases List.mem_append.mp inside with old | new
        · exact .old old
        · rw [List.mem_singleton.mp new]
          exact .list
      · exact .old inside
  · cases taken

theorem list_tracked {rank : String → Nat} {now : Nat} {outcome : Outcome} (sound : Sound vars w) (tracked : Tracked w)
    (taken : step vars (.list i rank now outcome) w = some w') : Tracked w' := by
  simp only [step] at taken
  split at taken
  · rename_i held
    split at taken
    · rename_i order
      cases taken
      refine called_tracked sound tracked (plain_called sound.fit (change_refl w.db _ _ now now) order (Nat.le_refl now)) (filing_refl w.db none none)
        rfl rfl rfl ?_ (fun _ is => by cases is) (fun _ is => by cases is) (fun task inside => ?_)
      · dsimp only
        split
        · exact single_set tracked.single held rfl
        · exact single_erase tracked.single i
      · dsimp only at inside
        split at inside
        · rcases replaced inside with old | rfl
          · exact .old old
          · exact .sweep (fun row member kind => .inl (.inr ⟨row,(List.mem_filter.mp member).1,rfl,kind⟩))
        · exact .old (erased inside)
    · cases taken
  · cases taken

theorem settle_tracked {now : Nat} {outcome : Outcome} (sound : Sound vars w) (tracked : Tracked w)
    (taken : step vars (.settle i now outcome) w = some w') : Tracked w' := by
  simp only [step] at taken
  split at taken
  · rename_i row rest held
    split at taken
    · rename_i order
      cases taken
      have inside := List.mem_of_getElem? held
      have issued : ∀ other ∈ row :: rest, other.retryForever = false → Issued w other.storageKey :=
        fun other member kind => .inr ⟨_,inside,other,member,rfl,kind⟩
      have filing : Filing w.db (outcome.apply w.db (query vars (.settle i now outcome) w)).1 none
          (if row.retryForever then none else some row.storageKey) := by
        refine applied_filing outcome (fun _ db' returned done => ?_)
        simp only [query,held] at done
        cases done
        exact settle_filing w.db row now none
      refine called_tracked sound tracked (settle_called sound held order _) filing rfl rfl rfl ?_ (fun _ is => by cases is) (fun key is => ?_)
        (fun task inside => ?_)
      · dsimp only
        split
        · exact single_set tracked.single held rfl
        · exact single_erase tracked.single i
      · split at is
        · cases is
        · rename_i kind
          cases is
          obtain ⟨cleared,absent⟩ := tracked.settled row rest inside
          have kind : row.retryForever = false := by simpa using kind
          exact ⟨cleared,absent kind,issued row List.mem_cons_self kind⟩
      · dsimp only at inside
        split at inside
        · rcases replaced inside with old | rfl
          · exact .old old
          · exact .sweep (fun other member kind => issued other (List.mem_cons_of_mem _ member) kind)
        · exact .old (erased inside)
    · cases taken
  · cases taken

theorem upload_tracked {stored reported : Bool} (tracked : Tracked w) (taken : step vars (.upload i stored reported) w = some w') : Tracked w' := by
  simp only [step] at taken
  split at taken
  · rename_i storageKey held
    split at taken
    · cases taken
    · cases taken
      have inside := List.mem_of_getElem? held
      have record := tracked.uploading storageKey inside
      have unissued : ¬Issued w storageKey := fun is => (tracked.issued storageKey is).2 inside
      -- The task goes on with the key; no other task has it.
      obtain ⟨new,is⟩ : ∃ new, new = (if reported then Task.publish storageKey else Task.cancel storageKey) := ⟨_,rfl⟩
      have mine : owner new = some storageKey := by
        rw [is]
        split <;> rfl
      have rowless : taskRows new = [] := by
        rw [is]
        split <;> rfl
      rw [← is]
      have others : ∀ task ∈ w.tasks.set i new, task = new ∨ task ∈ w.tasks ∧ owner task ≠ some storageKey := by
        intro task member
        rcases set_others member with same | ⟨j,other,found⟩
        · exact .inl same
        · exact .inr ⟨List.mem_of_getElem? found,fun yours => other (single_index tracked.single found held yours rfl)⟩
      have uploads : ∀ key, .upload key ∈ w.tasks.set i new → .upload key ∈ w.tasks ∧ key ≠ storageKey := by
        intro key member
        rcases others _ member with same | ⟨old,other⟩
        · rw [is] at same
          split at same <;> cases same
        · exact ⟨old,fun same => other (congrArg some same)⟩
      have publishes : ∀ key, .publish key ∈ w.tasks.set i new → .publish key ∈ w.tasks ∧ key ≠ storageKey ∨ key = storageKey ∧ reported = true := by
        intro key member
        rcases others _ member with same | ⟨old,other⟩
        · rw [is] at same
          split at same
          · rename_i told
            cases same
            exact .inr ⟨rfl,told⟩
          · cases same
        · exact .inl ⟨old,fun same => other (congrArg some same)⟩
      refine ⟨fun key member dirty => ?_,fun key member => ?_,fun key member => ?_,fun key member => tracked.uploading key (uploads key member).1,
        fun key issued => ?_,tracked.apart,fun row rest member => ?_,single_set tracked.single held mine,fun key member => ?_,fun task member key own => ?_⟩
      · rcases List.mem_cons.mp member with rfl | old
        · exact recorded_open record
        · exact tracked.sent key old dirty
      · dsimp only at member
        split at member
        · rcases List.mem_cons.mp member with rfl | old
          · exact recorded_open record
          · exact tracked.bucket key old
        · exact tracked.bucket key member
      · have late : key ∈ w.late ∨ key = storageKey ∧ reported = false := by
          dsimp only at member
          split at member
          · exact .inl member
          · rename_i told
            rcases List.mem_cons.mp member with same | old
            · exact .inr ⟨same,by simpa using told⟩
            · exact .inl old
        rcases late with old | ⟨rfl,told⟩
        · obtain ⟨open',unsent,unpublished⟩ := tracked.late key old
          refine ⟨open',fun uploading => unsent (uploads key uploading).1,fun publishing => ?_⟩
          rcases publishes key publishing with ⟨before,_⟩ | ⟨rfl,_⟩
          · exact unpublished before
          · exact unsent inside
        · refine ⟨record,fun uploading => (uploads key uploading).2 rfl,fun publishing => ?_⟩
          rcases publishes key publishing with ⟨_,other⟩ | ⟨_,yes⟩
          · exact other rfl
          · rw [told] at yes
            cases yes
      · have old : Issued w key := by
          rcases issued with is | ⟨task,member,row,has,own,kind⟩
          · exact .inl is
          · rcases others task member with rfl | ⟨before,_⟩
            · rw [rowless] at has
              cases has
            · exact .inr ⟨task,before,row,has,own,kind⟩
        refine ⟨fun member => ?_,fun uploading => (tracked.issued key old).2 (uploads key uploading).1⟩
        dsimp only at member
        split at member
        · exact (tracked.issued key old).1 member
        · rcases List.mem_cons.mp member with rfl | before
          · exact unissued old
          · exact (tracked.issued key old).1 before
      · rcases others _ member with same | ⟨old,_⟩
        · rw [is] at same
          split at same <;> cases same
        · obtain ⟨cleared,absent⟩ := tracked.settled row rest old
          refine ⟨cleared,fun kind has => ?_⟩
          dsimp only at has
          split at has
          · rcases List.mem_cons.mp has with same | before
            · exact unissued (same ▸ .inr ⟨_,old,row,List.mem_cons_self,rfl,kind⟩)
            · exact absent kind before
          · exact absent kind has
      · dsimp only at member
        split at member
        · exact tracked.drawnLate key member
        · rcases List.mem_cons.mp member with rfl | old
          · exact tracked.drawnTasks _ inside key rfl
          · exact tracked.drawnLate key old
      · rcases others task member with rfl | ⟨old,_⟩
        · rw [mine] at own
          cases own
          exact tracked.drawnTasks _ inside storageKey rfl
        · exact tracked.drawnTasks task old key own
  · cases taken

theorem land_tracked (tracked : Tracked w) (taken : step vars (.land storageKey) w = some w') : Tracked w' := by
  simp only [step] at taken
  split at taken
  · rename_i late
    cases taken
    refine ⟨tracked.sent,fun key member => ?_,tracked.late,tracked.uploading,tracked.issued,tracked.apart,fun row rest member => ?_,tracked.single,
      tracked.drawnLate,tracked.drawnTasks⟩
    · rcases List.mem_cons.mp member with rfl | old
      · exact recorded_open (tracked.late key late).1
      · exact tracked.bucket key old
    · obtain ⟨cleared,absent⟩ := tracked.settled row rest member
      refine ⟨cleared,fun kind has => ?_⟩
      rcases List.mem_cons.mp has with same | old
      · have issued : Issued w row.storageKey := .inr ⟨_,member,row,List.mem_cons_self,rfl,kind⟩
        exact (tracked.issued _ issued).1 (same ▸ late)
      · exact absent kind old
  · cases taken

theorem sweep_tracked {deleted reported : Bool} (tracked : Tracked w) (taken : step vars (.sweep i deleted reported) w = some w') : Tracked w' := by
  simp only [step] at taken
  split at taken
  · rename_i row rest held
    split at taken
    · cases taken
    · rename_i possible
      cases taken
      have inside := List.mem_of_getElem? held
      have others : ∀ task ∈ (if reported then w.tasks.set i (.settle row rest) else w.tasks.eraseIdx i),
          task ∈ w.tasks ∨ task = .settle row rest ∧ reported = true := by
        intro task member
        split at member
        · rename_i told
          exact (replaced member).imp_right (fun is => ⟨is,told⟩)
        · exact .inl (erased member)
      have less : ∀ key ∈ (if deleted then w.bucket.filter (· ≠ row.storageKey) else w.bucket), key ∈ w.bucket := by
        intro key member
        split at member
        · exact (List.mem_filter.mp member).1
        · exact member
      have more : ∀ key ∈ w.cleared, key ∈ (if reported then row.storageKey :: w.cleared else w.cleared) := by
        intro key member
        split
        · exact List.mem_cons_of_mem _ member
        · exact member
      have uploads : ∀ key, .upload key ∈ (if reported then w.tasks.set i (.settle row rest) else w.tasks.eraseIdx i) → .upload key ∈ w.tasks :=
        fun key member => (others _ member).resolve_right (fun is => by cases is.1)
      have publishes : ∀ key, .publish key ∈ (if reported then w.tasks.set i (.settle row rest) else w.tasks.eraseIdx i) → .publish key ∈ w.tasks :=
        fun key member => (others _ member).resolve_right (fun is => by cases is.1)
      refine ⟨fun key member dirty => tracked.sent key member (fun old => dirty (more key old)),fun key member => tracked.bucket key (less key member),
        fun key member => ?_,fun key member => tracked.uploading key (uploads key member),fun key issued => ?_,tracked.apart,fun other later member => ?_,
        ?_,tracked.drawnLate,fun task member key own => ?_⟩
      · obtain ⟨record,unsent,unpublished⟩ := tracked.late key member
        exact ⟨record,fun is => unsent (uploads key is),fun is => unpublished (publishes key is)⟩
      · have old : Issued w key := by
          rcases issued with is | ⟨task,member,line,has,own,kind⟩
          · exact .inl is
          · rcases others task member with before | ⟨rfl,_⟩
            · exact .inr ⟨task,before,line,has,own,kind⟩
            · exact .inr ⟨_,inside,line,has,own,kind⟩
        exact ⟨(tracked.issued key old).1,fun is => (tracked.issued key old).2 (uploads key is)⟩
      · rcases others _ member with old | ⟨is,told⟩
        · obtain ⟨cleared,absent⟩ := tracked.settled other later old
          exact ⟨more _ cleared,fun kind has => absent kind (less _ has)⟩
        · cases is
          have gone : deleted = true := by simpa [told] using possible
          refine ⟨?_,fun _ has => ?_⟩
          · dsimp only
            rw [if_pos told]
            exact List.mem_cons_self
          · rw [if_pos gone] at has
            exact of_decide_eq_true (List.mem_filter.mp has).2 rfl
      · dsimp only
        split
        · exact single_set tracked.single held rfl
        · exact single_erase tracked.single i
      · rcases others task member with old | ⟨rfl,_⟩
        · exact tracked.drawnTasks task old key own
        · cases own
  · cases taken

theorem register_tracked {accountId : String} (tracked : Tracked w) (taken : step vars (.register accountId) w = some w') : Tracked w' := by
  cases taken
  exact ⟨tracked.sent,tracked.bucket,tracked.late,tracked.uploading,tracked.issued,tracked.apart,tracked.settled,tracked.single,tracked.drawnLate,
    tracked.drawnTasks⟩

-- What a reconcile must meet, unless its call is not applied.
def Steadily : Event → World → Prop
  | .reconcile rank rank' now later outcome,w => outcome ≠ .failed → Steady rank rank' now later w.db
  | _,_ => True

theorem step_tracked (sound : Sound vars w) (tracked : Tracked w) (event : Event) (steadily : Steadily event w)
    (taken : step vars event w = some w') : Tracked w' := by
  cases event with
  | register => exact register_tracked tracked taken
  | put => exact put_tracked sound tracked taken
  | upload => exact upload_tracked tracked taken
  | land => exact land_tracked tracked taken
  | cancel => exact cancel_tracked sound tracked taken
  | publish => exact publish_tracked sound tracked taken
  | delete => exact delete_tracked sound tracked taken
  | reconcile => exact reconcile_tracked sound tracked steadily taken
  | list => exact list_tracked sound tracked taken
  | sweep => exact sweep_tracked tracked taken
  | settle => exact settle_tracked sound tracked taken

theorem new_tracked : Tracked .new := by
  refine ⟨?_,?_,?_,?_,?_,?_,?_,List.Pairwise.nil,?_,?_⟩
  case refine_5 =>
    rintro key ((⟨b,inside,_⟩ | ⟨g,inside,_⟩) | ⟨task,inside,_⟩)
    all_goals cases inside
  case refine_6 =>
    rintro key (⟨b,inside,_⟩ | ⟨g,inside,_⟩)
    all_goals cases inside
  case refine_7 =>
    intro row rest inside
    cases inside
  all_goals
    intro x inside
    cases inside

-- Bytes may be under a key the bucket has, one whose put may still complete and
-- one that was sent there, until a delete of it was reported done.
def MayExist (w : World) (key : String) : Prop := key ∈ w.bucket ∨ key ∈ w.late ∨ key ∈ w.sent ∧ key ∉ w.cleared

def Covered (w : World) : Prop := ∀ key, MayExist w key → Recorded w.db key

theorem run_covered {events : List Event} (steadily : Along (step vars) Steadily events .new) (ran : runAll (step vars) events .new = some w) :
    Covered w := by
  have both : Sound vars w ∧ Tracked w :=
    run_keeps (fun w => Sound vars w ∧ Tracked w)
      (fun event _ _ held fine taken => ⟨(step_kept held.1 event taken).sound,step_tracked held.1 held.2 event fine taken⟩)
      events steadily ⟨new_sound,new_tracked⟩ ran
  obtain ⟨_,tracked⟩ := both
  rintro key (present | late | ⟨sent,dirty⟩)
  · exact tracked.bucket key present
  · exact recorded_open (tracked.late key late).1
  · exact tracked.sent key sent dirty

instance (db : D1) (key : String) : Decidable (Recorded db key) :=
  inferInstanceAs (Decidable ((∃ u ∈ db.uploads.rows, u.storageKey = key) ∨ (∃ b ∈ db.blobs.rows, b.storageKey = key) ∨
    ∃ g ∈ db.garbage.rows, g.storageKey = key))

instance (rank rank' : String → Nat) (now later : Nat) (db : D1) : Decidable (Steady rank rank' now later db) :=
  decidable_of_iff ((∀ u ∈ db.uploads.rows, now < u.expiresAt → u.expiresAt ≤ later → 8 ≤ (db.uploads.rows.filter (fun x => x.expiresAt ≤ now)).length) ∧
      ∀ u ∈ db.uploads.rows, u.expiresAt ≤ now → (ahead rank' db u).length < 8 → (ahead rank db u).length < 8)
    ⟨fun ⟨expiring,ties⟩ => ⟨expiring,ties⟩,fun steady => ⟨steady.expiring,steady.ties⟩⟩

instance : (event : Event) → (w : World) → Decidable (Steadily event w)
  | .reconcile rank rank' now later outcome,w => inferInstanceAs (Decidable (outcome ≠ .failed → Steady rank rank' now later w.db))
  | .register _,_ | .put ..,_ | .upload ..,_ | .land _,_ | .cancel ..,_ | .publish ..,_ | .delete ..,_ | .list ..,_ | .sweep ..,_ | .settle ..,_ =>
    inferInstanceAs (Decidable True)

-- A put that failed but may have stored its bytes, its cancel lost, collected an hour later.
def collecting : List Event :=
  [.register "a",.put ⟨"a","b",[],[[1]]⟩ "1" 0 .answered,.upload 0 true false,.cancel 0 1 .failed,
    .reconcile (fun _ => 0) (fun _ => 0) 3700 3701 .answered,.list 0 (fun _ => 0) 3702 .answered,.sweep 0 true true,.settle 0 3703 .answered,.land "a/b/1"]

theorem collected_covered : (runAll (step ⟨1048576,4⟩) collecting .new).isSome = true ∧ ∀ w ∈ runAll (step ⟨1048576,4⟩) collecting .new, Covered w :=
  ⟨by decide +kernel,fun _ ran => run_covered (by decide +kernel) ran⟩

-- A worker that stops between its put and its publication, and a reconcile whose
-- second statement reads the clock in the second the upload expires.
def expiring : List Event :=
  [.register "a",.put ⟨"a","b",[],[[1]]⟩ "1" 0 .answered,.upload 0 true true,.reconcile (fun _ => 0) (fun _ => 0) 3599 3600 .answered]

theorem expiring_leaked : (runAll (step ⟨1048576,4⟩) expiring .new).isSome = true ∧
    ∀ w ∈ runAll (step ⟨1048576,4⟩) expiring .new, "a/b/1" ∈ w.bucket ∧ w.cleared = [] ∧ ¬Covered w := by
  have leaked : (runAll (step ⟨1048576,4⟩) expiring .new).isSome = true ∧
      ∀ w ∈ runAll (step ⟨1048576,4⟩) expiring .new, "a/b/1" ∈ w.bucket ∧ w.cleared = [] ∧ ¬Recorded w.db "a/b/1" := by
    decide +kernel
  refine ⟨leaked.1,fun w ran => ?_⟩
  obtain ⟨present,none,lost⟩ := leaked.2 w ran
  exact ⟨present,none,fun covered => lost (covered "a/b/1" (.inl present))⟩

end ZkNote.BlobLeaks
