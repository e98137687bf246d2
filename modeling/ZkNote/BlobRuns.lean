import ZkNote.BlobAccounting

namespace ZkNote.BlobRuns
open KeyedTable WorkerBlobs BlobBooks BlobAccounting Runs

variable {vars : WorkerVars} {w w' : World} {db : D1} {storageKey : String} {task : Task}

-- A key that no blob has and none will have.
structure Dead (w : World) (storageKey : String) : Prop where
  drawn : storageKey ∈ w.drawn
  gone : Gone w.db w.now storageKey

def taskRows : Task → List GarbageRow
  | .sweep rows => rows
  | .settle row rest => row :: rest
  | _ => []

structure Sound (vars : WorkerVars) (w : World) : Prop where
  fit : Fit vars.accountBlobQuota w.db
  drawnUploads : ∀ u ∈ w.db.uploads.rows, u.storageKey ∈ w.drawn
  drawnBlobs : ∀ b ∈ w.db.blobs.rows, b.storageKey ∈ w.drawn
  garbage : ∀ g ∈ w.db.garbage.rows, Dead w g.storageKey
  held : ∀ task ∈ w.tasks, ∀ row ∈ taskRows task, Dead w row.storageKey
  stored : ∀ b ∈ w.db.blobs.rows, b.storageKey ∈ w.bucket
  ready : ∀ storageKey, .publish storageKey ∈ w.tasks → storageKey ∈ w.bucket ∨ Dead w storageKey

-- What an event keeps: the invariant, and that the dead stay dead.
structure Kept (vars : WorkerVars) (w w' : World) : Prop where
  sound : Sound vars w'
  dead : ∀ storageKey, Dead w storageKey → Dead w' storageKey

-- A database call between two worlds: which key it draws, which it may publish.
structure Called (vars : WorkerVars) (w w' : World) (drawn published : Option String) (now : Nat) : Prop where
  fit : Fit vars.accountBlobQuota w'.db
  change : Change w.db w'.db drawn published now w'.now
  order : w.now ≤ now
  order' : now ≤ w'.now
  bucket : w'.bucket = w.bucket
  draws : ∀ storageKey ∈ w.drawn, storageKey ∈ w'.drawn
  fresh : ∀ storageKey, drawn = some storageKey → storageKey ∉ w.drawn ∧ storageKey ∈ w'.drawn
  ready : ∀ storageKey, published = some storageKey → storageKey ∈ w.bucket ∨ Dead w storageKey

theorem dead_called {drawn published : Option String} {now : Nat} (called : Called vars w w' drawn published now) (dead : Dead w storageKey) :
    Dead w' storageKey := by
  refine ⟨called.draws _ dead.drawn,⟨fun b inside same => ?_,fun u inside same => ?_⟩⟩
  · rcases called.change.blobs b inside with old | ⟨_,u,member,own,live⟩
    · exact dead.gone.blobs b old same
    · have past := dead.gone.uploads u member (own.trans same)
      have order := called.order
      omega
  · have order := called.order
    have order' := called.order'
    rcases called.change.uploads u inside with old | new
    · have past := dead.gone.uploads u old same
      omega
    · exact absurd (same ▸ dead.drawn) (called.fresh _ new).1

theorem called_kept {drawn published : Option String} {now : Nat} (sound : Sound vars w) (called : Called vars w w' drawn published now)
    (tasks : ∀ task ∈ w'.tasks, (∀ row ∈ taskRows task, Dead w row.storageKey) ∧ ∀ storageKey, task = .publish storageKey → task ∈ w.tasks) :
    Kept vars w w' := by
  refine ⟨⟨called.fit,fun u inside => ?_,fun b inside => ?_,fun g inside => ?_,
    fun task inside row member => dead_called called ((tasks task inside).1 row member),fun b inside => ?_,fun storageKey inside => ?_⟩,
    fun _ => dead_called called⟩
  · rcases called.change.uploads u inside with old | new
    · exact called.draws _ (sound.drawnUploads u old)
    · exact (called.fresh _ new).2
  · rcases called.change.blobs b inside with old | ⟨_,u,member,own,_⟩
    · exact called.draws _ (sound.drawnBlobs b old)
    · exact called.draws _ (own ▸ sound.drawnUploads u member)
  · rcases called.change.garbage g inside with ⟨h,old,same⟩ | ⟨known,gone⟩
    · exact dead_called called (same ▸ sound.garbage h old)
    · refine ⟨called.draws _ ?_,gone⟩
      rcases known with ⟨u,member,own⟩ | ⟨b,member,own⟩
      · exact own ▸ sound.drawnUploads u member
      · exact own ▸ sound.drawnBlobs b member
  · rw [called.bucket]
    rcases called.change.blobs b inside with old | ⟨is,u,member,own,live⟩
    · exact sound.stored b old
    · refine (called.ready _ is).resolve_right (fun dead => ?_)
      have past := dead.gone.uploads u member own
      have order := called.order
      omega
  · rw [called.bucket]
    exact (sound.ready storageKey ((tasks _ inside).2 storageKey rfl)).imp_right (dead_called called)

-- The call of an event, answered or not.
theorem applied_fit {quota : Nat} {drawn published : Option String} {now later : Nat} {result : Except Abort (D1 × Bool)} (outcome : Outcome)
    (fit : Fit quota db) (done : ∀ db' returned, result = .ok (db',returned) → Fit quota db' ∧ Change db db' drawn published now later) :
    Fit quota (outcome.apply db result).1 ∧ Change db (outcome.apply db result).1 drawn published now later := by
  have same : Fit quota db ∧ Change db db drawn published now later := ⟨fit,change_refl db _ _ _ _⟩
  cases result with
  | error e => cases outcome <;> exact same
  | ok left =>
      obtain ⟨db',returned⟩ := left
      cases outcome with
      | failed => exact same
      | answered => exact done db' returned rfl
      | unanswered => exact done db' returned rfl

theorem tasks_kept (sound : Sound vars w) {tasks : List Task} (kept : ∀ task ∈ tasks, task ∈ w.tasks ∨ taskRows task = [] ∧ ∀ storageKey, task ≠ .publish storageKey) :
    ∀ task ∈ tasks, (∀ row ∈ taskRows task, Dead w row.storageKey) ∧ ∀ storageKey, task = .publish storageKey → task ∈ w.tasks := by
  intro task inside
  rcases kept task inside with old | ⟨none,other⟩
  · exact ⟨sound.held task old,fun _ _ => old⟩
  · refine ⟨fun row member => ?_,fun storageKey is => absurd is (other storageKey)⟩
    rw [none] at member
    cases member

theorem erased {i : Nat} {tasks : List Task} (inside : task ∈ tasks.eraseIdx i) : task ∈ tasks := List.mem_of_mem_eraseIdx inside

theorem replaced {i : Nat} {new : Task} {tasks : List Task} (inside : task ∈ tasks.set i new) : task ∈ tasks ∨ task = new :=
  List.mem_or_eq_of_mem_set inside

theorem put_called {request : PutRequest} {uuid : String} {now : Nat} {outcome : Outcome} (sound : Sound vars w) (order : w.now ≤ now)
    (fresh : keyOf request uuid ∉ w.drawn) (tasks : List Task) :
    Called vars w {w with
      db := (outcome.apply w.db (query vars (.put request uuid now outcome) w)).1
      now := now
      drawn := keyOf request uuid :: w.drawn
      tasks := tasks} (some (keyOf request uuid)) none now := by
  have unlike : ∀ b ∈ w.db.blobs.rows, b.storageKey ≠ keyOf request uuid := fun b inside same => fresh (same ▸ sound.drawnBlobs b inside)
  obtain ⟨fit,change⟩ : Fit vars.accountBlobQuota (outcome.apply w.db (query vars (.put request uuid now outcome) w)).1 ∧
      Change w.db (outcome.apply w.db (query vars (.put request uuid now outcome) w)).1 (some (keyOf request uuid)) none now now := by
    refine applied_fit outcome sound.fit (fun db' returned done => ?_)
    simp only [query] at done
    split at done
    · cases done
      exact ⟨sound.fit,change_refl w.db _ _ _ _⟩
    · exact reserve_fit sound.fit unlike done
  refine ⟨fit,change,order,Nat.le_refl now,rfl,fun _ old => List.mem_cons_of_mem _ old,fun storageKey is => ?_,fun storageKey is => by cases is⟩
  cases is
  exact ⟨fresh,List.mem_cons_self⟩

theorem put_kept {request : PutRequest} {uuid : String} {now : Nat} {outcome : Outcome} (sound : Sound vars w)
    (taken : step vars (.put request uuid now outcome) w = some w') : Kept vars w w' := by
  simp only [step] at taken
  split at taken
  · rename_i allowed
    cases taken
    refine called_kept sound (put_called sound allowed.1 allowed.2 _) (tasks_kept sound (fun task inside => ?_))
    dsimp only at inside
    split at inside
    · rcases List.mem_append.mp inside with old | new
      · exact .inl old
      · rw [List.mem_singleton.mp new]
        exact .inr ⟨rfl,fun _ is => by cases is⟩
    · exact .inl inside
  · cases taken

-- A call that draws and publishes no key.
theorem plain_called {now later : Nat} {tasks : List Task} (fit : Fit vars.accountBlobQuota db) (change : Change w.db db none none now later)
    (order : w.now ≤ now) (order' : now ≤ later) : Called vars w {w with db := db, now := later, tasks := tasks} none none now :=
  ⟨fit,change,order,order',rfl,fun _ old => old,fun storageKey is => (by cases is),fun storageKey is => (by cases is)⟩

theorem cancel_called {i now : Nat} {outcome : Outcome} (sound : Sound vars w) (held : w.tasks[i]? = some (.cancel storageKey))
    (order : w.now ≤ now) (tasks : List Task) :
    Called vars w {w with db := (outcome.apply w.db (query vars (.cancel i now outcome) w)).1, now := now, tasks := tasks} none none now := by
  obtain ⟨fit,change⟩ : Fit vars.accountBlobQuota (outcome.apply w.db (query vars (.cancel i now outcome) w)).1 ∧
      Change w.db (outcome.apply w.db (query vars (.cancel i now outcome) w)).1 none none now now := by
    refine applied_fit outcome sound.fit (fun db' returned done => ?_)
    simp only [query,held] at done
    exact cancel_fit sound.fit done none none
  exact plain_called fit change order (Nat.le_refl now)

theorem cancel_kept {i now : Nat} {outcome : Outcome} (sound : Sound vars w) (taken : step vars (.cancel i now outcome) w = some w') :
    Kept vars w w' := by
  simp only [step] at taken
  split at taken
  · rename_i held
    split at taken
    · rename_i order
      cases taken
      exact called_kept sound (cancel_called sound held order _) (tasks_kept sound (fun task inside => .inl (erased inside)))
    · cases taken
  · cases taken

theorem publish_called {i now : Nat} {outcome : Outcome} (sound : Sound vars w) (held : w.tasks[i]? = some (.publish storageKey))
    (order : w.now ≤ now) (tasks : List Task) :
    Called vars w {w with db := (outcome.apply w.db (query vars (.publish i now outcome) w)).1, now := now, tasks := tasks}
      none (some storageKey) now := by
  obtain ⟨fit,change⟩ : Fit vars.accountBlobQuota (outcome.apply w.db (query vars (.publish i now outcome) w)).1 ∧
      Change w.db (outcome.apply w.db (query vars (.publish i now outcome) w)).1 none (some storageKey) now now := by
    refine applied_fit outcome sound.fit (fun db' returned done => ?_)
    simp only [query,held] at done
    exact publish_fit sound.fit done none
  refine ⟨fit,change,order,Nat.le_refl now,rfl,fun _ old => old,fun storageKey is => (by cases is),fun key is => ?_⟩
  cases is
  exact sound.ready storageKey (List.mem_of_getElem? held)

theorem publish_kept {i now : Nat} {outcome : Outcome} (sound : Sound vars w) (taken : step vars (.publish i now outcome) w = some w') :
    Kept vars w w' := by
  simp only [step] at taken
  split at taken
  · rename_i held
    split at taken
    · rename_i order
      cases taken
      exact called_kept sound (publish_called sound held order _) (tasks_kept sound (fun task inside => .inl (erased inside)))
    · cases taken
  · cases taken

theorem delete_called {accountId blobId : String} {now : Nat} {outcome : Outcome} (sound : Sound vars w) (order : w.now ≤ now) :
    Called vars w {w with db := (outcome.apply w.db (query vars (.delete accountId blobId now outcome) w)).1, now := now} none none now := by
  obtain ⟨fit,change⟩ : Fit vars.accountBlobQuota (outcome.apply w.db (query vars (.delete accountId blobId now outcome) w)).1 ∧
      Change w.db (outcome.apply w.db (query vars (.delete accountId blobId now outcome) w)).1 none none now now :=
    applied_fit outcome sound.fit (fun db' returned done => delete_fit sound.fit done none none)
  exact plain_called fit change order (Nat.le_refl now)

theorem delete_kept {accountId blobId : String} {now : Nat} {outcome : Outcome} (sound : Sound vars w)
    (taken : step vars (.delete accountId blobId now outcome) w = some w') : Kept vars w w' := by
  simp only [step] at taken
  split at taken
  · rename_i order
    cases taken
    exact called_kept sound (delete_called sound order) (tasks_kept sound (fun task inside => .inl inside))
  · cases taken

theorem reconcile_called {rank rank' : String → Nat} {now later : Nat} {outcome : Outcome} (sound : Sound vars w) (order : w.now ≤ now)
    (order' : now ≤ later) (tasks : List Task) :
    Called vars w {w with db := (outcome.apply w.db (query vars (.reconcile rank rank' now later outcome) w)).1, now := later, tasks := tasks}
      none none now := by
  obtain ⟨fit,change⟩ : Fit vars.accountBlobQuota (outcome.apply w.db (query vars (.reconcile rank rank' now later outcome) w)).1 ∧
      Change w.db (outcome.apply w.db (query vars (.reconcile rank rank' now later outcome) w)).1 none none now later :=
    applied_fit outcome sound.fit (fun db' returned done => collect_fit sound.fit order' done none none)
  exact plain_called fit change order order'

theorem reconcile_kept {rank rank' : String → Nat} {now later : Nat} {outcome : Outcome} (sound : Sound vars w)
    (taken : step vars (.reconcile rank rank' now later outcome) w = some w') : Kept vars w w' := by
  simp only [step] at taken
  split at taken
  · rename_i allowed
    cases taken
    refine called_kept sound (reconcile_called sound allowed.1 allowed.2 _) (tasks_kept sound (fun task inside => ?_))
    dsimp only at inside
    split at inside
    · rcases List.mem_append.mp inside with old | new
      · exact .inl old
      · rw [List.mem_singleton.mp new]
        exact .inr ⟨rfl,fun _ is => by cases is⟩
    · exact .inl inside
  · cases taken

theorem list_kept {i : Nat} {rank : String → Nat} {now : Nat} {outcome : Outcome} (sound : Sound vars w)
    (taken : step vars (.list i rank now outcome) w = some w') : Kept vars w w' := by
  simp only [step] at taken
  split at taken
  · split at taken
    · rename_i order
      cases taken
      refine called_kept sound (plain_called sound.fit (change_refl w.db _ _ now now) order (Nat.le_refl now)) (fun task inside => ?_)
      dsimp only at inside
      split at inside
      · rcases replaced inside with old | rfl
        · exact ⟨sound.held task old,fun _ _ => old⟩
        · exact ⟨fun row member => sound.garbage row (List.mem_filter.mp member).1,fun _ is => by cases is⟩
      · exact ⟨sound.held task (erased inside),fun _ _ => erased inside⟩
    · cases taken
  · cases taken

theorem settle_called {i now : Nat} {outcome : Outcome} {row : GarbageRow} {rest : List GarbageRow} (sound : Sound vars w)
    (held : w.tasks[i]? = some (.settle row rest)) (order : w.now ≤ now) (tasks : List Task) :
    Called vars w {w with db := (outcome.apply w.db (query vars (.settle i now outcome) w)).1, now := now, tasks := tasks} none none now := by
  obtain ⟨fit,change⟩ : Fit vars.accountBlobQuota (outcome.apply w.db (query vars (.settle i now outcome) w)).1 ∧
      Change w.db (outcome.apply w.db (query vars (.settle i now outcome) w)).1 none none now now := by
    refine applied_fit outcome sound.fit (fun db' returned done => ?_)
    simp only [query,held] at done
    cases done
    exact settle_fit sound.fit row none none
  exact plain_called fit change order (Nat.le_refl now)

theorem settle_kept {i now : Nat} {outcome : Outcome} (sound : Sound vars w) (taken : step vars (.settle i now outcome) w = some w') :
    Kept vars w w' := by
  simp only [step] at taken
  split at taken
  · rename_i held
    split at taken
    · rename_i order
      cases taken
      refine called_kept sound (settle_called sound held order _) (fun task inside => ?_)
      dsimp only at inside
      split at inside
      · rcases replaced inside with old | rfl
        · exact ⟨sound.held task old,fun _ _ => old⟩
        · exact ⟨fun other member => sound.held _ (List.mem_of_getElem? held) other (List.mem_cons_of_mem _ member),fun _ is => by cases is⟩
      · exact ⟨sound.held task (erased inside),fun _ _ => erased inside⟩
    · cases taken
  · cases taken

-- An event that moves no row and no key.
theorem moved_kept {bucket sent late cleared : List String} {tasks : List Task} (sound : Sound vars w)
    (kept : ∀ storageKey ∈ w.bucket, storageKey ∈ bucket ∨ Dead w storageKey)
    (held : ∀ task ∈ tasks, (∀ row ∈ taskRows task, Dead w row.storageKey) ∧
      ∀ storageKey, task = .publish storageKey → task ∈ w.tasks ∨ storageKey ∈ bucket) :
    Kept vars w {w with bucket := bucket, sent := sent, late := late, cleared := cleared, tasks := tasks} := by
  have same : ∀ storageKey, Dead w storageKey →
      Dead {w with bucket := bucket, sent := sent, late := late, cleared := cleared, tasks := tasks} storageKey :=
    fun _ dead => ⟨dead.drawn,dead.gone⟩
  refine ⟨⟨sound.fit,sound.drawnUploads,sound.drawnBlobs,fun g inside => same _ (sound.garbage g inside),
    fun task inside row member => same _ ((held task inside).1 row member),fun b inside => ?_,fun storageKey inside => ?_⟩,same⟩
  · exact (kept _ (sound.stored b inside)).resolve_right (fun dead => dead.gone.blobs b inside rfl)
  · rcases (held _ inside).2 storageKey rfl with old | put
    · rcases sound.ready storageKey old with present | dead
      · exact (kept storageKey present).imp_right (same storageKey)
      · exact .inr (same storageKey dead)
    · exact .inl put

theorem upload_kept {i : Nat} {stored reported : Bool} (sound : Sound vars w) (taken : step vars (.upload i stored reported) w = some w') :
    Kept vars w w' := by
  simp only [step] at taken
  split at taken
  · split at taken
    · cases taken
    · rename_i possible
      cases taken
      refine moved_kept sound (fun key present => ?_) (fun task inside => ?_)
      · split
        · exact .inl (List.mem_cons_of_mem _ present)
        · exact .inl present
      · rcases replaced inside with old | rfl
        · exact ⟨sound.held task old,fun _ _ => .inl old⟩
        · cases reported with
          | false => exact ⟨fun row member => (by cases member),fun key is => (by cases is)⟩
          | true =>
              refine ⟨fun row member => (by cases member),fun key is => ?_⟩
              cases is
              have put : stored = true := by simpa using possible
              rw [if_pos put]
              exact .inr List.mem_cons_self
  · cases taken

theorem land_kept (sound : Sound vars w) (taken : step vars (.land storageKey) w = some w') : Kept vars w w' := by
  simp only [step] at taken
  split at taken
  · cases taken
    exact moved_kept sound (fun _ present => .inl (List.mem_cons_of_mem _ present))
      (fun task inside => ⟨sound.held task inside,fun _ _ => .inl inside⟩)
  · cases taken

-- What the bucket is asked to delete is dead.
theorem sweep_kept {i : Nat} {deleted reported : Bool} (sound : Sound vars w) (taken : step vars (.sweep i deleted reported) w = some w') :
    Kept vars w w' := by
  simp only [step] at taken
  split at taken
  · rename_i row rest held
    have dead : ∀ other ∈ row :: rest, Dead w other.storageKey := sound.held _ (List.mem_of_getElem? held)
    split at taken
    · cases taken
    · cases taken
      refine moved_kept sound (fun key present => ?_) (fun task inside => ?_)
      · split
        · by_cases is : key = row.storageKey
          · exact .inr (is ▸ dead row List.mem_cons_self)
          · exact .inl (List.mem_filter.mpr ⟨present,decide_eq_true is⟩)
        · exact .inl present
      · split at inside
        · rcases replaced inside with old | rfl
          · exact ⟨sound.held task old,fun _ _ => .inl old⟩
          · exact ⟨dead,fun _ is => by cases is⟩
        · exact ⟨sound.held task (erased inside),fun _ _ => .inl (erased inside)⟩
  · cases taken

theorem register_kept {accountId : String} (sound : Sound vars w) (taken : step vars (.register accountId) w = some w') : Kept vars w w' := by
  cases taken
  cases inserted : w.db.accounts.insert ⟨accountId,0,0⟩ with
  | none => exact ⟨sound,fun _ dead => dead⟩
  | some accounts =>
      have same : ∀ storageKey, Dead w storageKey → Dead {w with db := {w.db with accounts := accounts}} storageKey :=
        fun _ dead => ⟨dead.drawn,⟨dead.gone.blobs,dead.gone.uploads⟩⟩
      exact ⟨⟨opened_fit sound.fit inserted,sound.drawnUploads,sound.drawnBlobs,fun g inside => same _ (sound.garbage g inside),
        fun task inside row member => same _ (sound.held task inside row member),sound.stored,
        fun key inside => (sound.ready key inside).imp_right (same key)⟩,same⟩

theorem step_kept (sound : Sound vars w) (event : Event) (taken : step vars event w = some w') : Kept vars w w' := by
  cases event with
  | register => exact register_kept sound taken
  | put => exact put_kept sound taken
  | upload => exact upload_kept sound taken
  | land => exact land_kept sound taken
  | cancel => exact cancel_kept sound taken
  | publish => exact publish_kept sound taken
  | delete => exact delete_kept sound taken
  | reconcile => exact reconcile_kept sound taken
  | list => exact list_kept sound taken
  | sweep => exact sweep_kept sound taken
  | settle => exact settle_kept sound taken

theorem new_sound : Sound vars .new := by
  refine ⟨⟨⟨?_,?_,?_,?_⟩,?_,?_,?_,?_,?_⟩,?_,?_,?_,?_,?_,?_⟩
  all_goals
    intro x inside
    cases inside

theorem run_sound {events : List Event} (ran : runAll (step vars) events .new = some w) : Sound vars w :=
  run_invariant (Sound vars) (fun event _ _ sound taken => (step_kept sound event taken).sound) events new_sound ran

theorem run_dead {events : List Event} (sound : Sound vars w) (dead : Dead w storageKey) (ran : runAll (step vars) events w = some w') :
    Dead w' storageKey := by
  have both : Sound vars w' ∧ Dead w' storageKey :=
    run_invariant (fun w => Sound vars w ∧ Dead w storageKey)
      (fun event _ _ held taken => ⟨(step_kept held.1 event taken).sound,(step_kept held.1 event taken).dead storageKey held.2⟩) events ⟨sound,dead⟩ ran
  exact both.2

theorem query_passes (fit : Fit vars.accountBlobQuota w.db) (event : Event) : query vars event w ≠ .error .check := by
  intro failed
  cases event with
  | put request uuid now outcome =>
      simp only [query] at failed
      split at failed
      · cases failed
      · exact reserve_passes fit (Int.natCast_nonneg _) failed
  | cancel i now outcome =>
      simp only [query] at failed
      split at failed
      · exact cancel_passes fit _ now failed
      · cases failed
  | publish i now outcome =>
      simp only [query] at failed
      split at failed
      · exact publish_passes fit _ now failed
      · cases failed
  | delete accountId blobId now outcome => exact delete_blob_passes fit.balanced accountId blobId now failed
  | reconcile rank rank' now later outcome => exact collect_passes fit rank rank' now later failed
  | settle i now outcome =>
      simp only [query] at failed
      split at failed
      · cases failed
      · cases failed
  | register => cases failed
  | upload => cases failed
  | land => cases failed
  | list => cases failed
  | sweep => cases failed

-- What holds between two batches: `ran` is any run from here on.
structure Accounted (vars : WorkerVars) (w : World) : Prop where
  blobBytes : ∀ a ∈ w.db.accounts.rows, a.blobBytes = w.db.blobs.total (blobShare a.id)
  reservedBytes : ∀ a ∈ w.db.accounts.rows, a.reservedBytes = w.db.uploads.total (uploadShare a.id)
  quota : ∀ a ∈ w.db.accounts.rows, a.blobBytes + a.reservedBytes ≤ vars.accountBlobQuota
  checks : ∀ event, query vars event w ≠ .error .check
  stored : ∀ b ∈ w.db.blobs.rows, b.storageKey ∈ w.bucket
  garbage : ∀ g ∈ w.db.garbage.rows, ∀ events, ∀ after ∈ runAll (step vars) events w, ∀ b ∈ after.db.blobs.rows, b.storageKey ≠ g.storageKey

theorem run_accounted {events : List Event} (ran : runAll (step vars) events .new = some w) : Accounted vars w := by
  have sound := run_sound ran
  have fit := sound.fit
  refine ⟨fun a inside => balanced_blobs fit.balanced inside,fun a inside => balanced_reserved fit.balanced inside,fun a inside => ?_,
    query_passes fit,sound.stored,fun g inside events after more => ?_⟩
  · have owned : (w.db.accounts.find a.id).isSome := by
      rw [show w.db.accounts.find a.id = some a from mem_iff_find.mp inside]
      rfl
    rw [balanced_blobs fit.balanced inside,balanced_reserved fit.balanced inside]
    exact fit.within a.id owned
  · exact (run_dead sound (sound.garbage g inside) more).gone.blobs

-- A blob put twice and deleted, with a reconcile and a lost answer between.
def replacing : List Event :=
  [.register "a",.put ⟨"a","b",[],[[1,2]]⟩ "1" 0 .answered,.upload 0 true true,.publish 0 1 .answered,
    .put ⟨"a","b",[],[[3]]⟩ "2" 2 .answered,.upload 0 true true,.publish 0 3 .unanswered,
    .reconcile (fun _ => 0) (fun _ => 0) 4 5 .answered,.list 0 (fun _ => 0) 6 .answered,.sweep 0 true true,.settle 0 7 .answered,
    .delete "a" "b" 8 .answered]

theorem replaced_accounted : (runAll (step ⟨1048576,4⟩) replacing .new).isSome = true ∧
    ∀ w ∈ runAll (step ⟨1048576,4⟩) replacing .new, Accounted ⟨1048576,4⟩ w :=
  ⟨by decide +kernel,fun _ ran => run_accounted ran⟩

end ZkNote.BlobRuns
