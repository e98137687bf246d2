import ZkNote.EngineServer
import ZkNote.StorageBackends

namespace ZkNote.EngineAgreement
open Protocol Adapter KeyedTable LocalStorage IndexedDb PullChanges PushChanges PushSteps Orchestrator
open ServerStore ServerHistory SyncLink CrashSafePull EnginePair EngineServer StorageBackends
open StateMachine SyncStateMachine StateMachineRuns BrowserSync BrowserSteps

variable {Key Note World : Type} {s t : Storage} {db : WebDb}

theorem web_reset (pending : ∀ m ∈ db.mutations.rows, m.status = .pending) : db.resetInFlightMutations = .ok (0,db) := by
  have none : db.allMutations.filter (fun m => m.status = .inFlight) = [] := by
    apply List.filter_eq_nil_iff.mpr
    intro m inside
    have member : m ∈ db.mutations.rows := (List.mem_insertionSort byKey).mp inside
    simp [pending m member]
  rw [WebDb.resetInFlightMutations,none]
  rfl

variable {Good : Recorded World → Prop} {Named : PushRequest → Prop} {nativeLimit : Option Nat} {webLimit : Nat}
  {adapter : SyncServerAdapter (Recorded World)} {inner : SyncServerAdapter World} {sorting : Sorting}
  {b : Browser (Recorded World) Key Note} {deviceId : Option String} {c : SyncCycle (Recorded World)} {w w' : Recorded World}

-- The loop with the time stamp of a success, with the vault locked.
theorem phase_level (deviceId : Option String) (serves : Serves adapter Good Named nativeLimit webLimit) (server : b.server = browserServer sorting adapter)
    (codec : NoteCodec Key Note) (clock : Nat → String) (fuel : Nat) (good : Good w) (queued : c.actions = [c.machine.fetch])
    (world : c.world = w) (cursor : c.machine.currentCursor = currentCursor s)
    (limit : max 1 (min 500 c.machine.pageLimit) = webLimit) (level : Level b.identity s c.storage)
    (ran : pullRemoteChanges adapter codec none ⟨nativeLimit,none⟩ clock fuel w s = some (w',t,result)) :
    (∃ report, result = .ok report) ∧ Good w' ∧ t.mutations = s.mutations ∧
      ∃ d m now, Reaches b deviceId c d ∧ Pulled c.machine m ∧ m.currentCursor = currentCursor t ∧
        d.machine = (closePull m now).1 ∧ d.actions = (closePull m now).2 ∧ d.world = w' ∧ Level b.identity t d.storage := by
  have frame := pull_frame ran
  unfold pullRemoteChanges at ran
  cases looped : pullLoop adapter ⟨nativeLimit,none⟩ clock fuel w (startPull s) with
  | none =>
      rw [looped] at ran
      cases ran
  | some out =>
      obtain ⟨w₁,q,ended⟩ := out
      obtain ⟨rfl,good₁,durable,d,m,now,reaches,pulled,stands,machine,actions,world₁,after⟩ :=
        pull_level deviceId serves server clock fuel good queued world cursor limit level rfl looped
      simp only [looped,Option.some.injEq,Prod.mk.injEq] at ran
      obtain ⟨rfl,rfl,rfl⟩ := ran
      exact ⟨⟨_,rfl⟩,good₁,frame.mutations,d,m,now,reaches,pulled,stands.trans durable.symm,machine,actions,world₁,
        ⟨after.objects,after.mutations,after.cursor⟩⟩

theorem pull_calm {codec : NoteCodec Key Note} {vaultKey : Option Key}
    (ran : pullRemoteChanges (recording inner) codec vaultKey options clock fuel w s = some (w',t,result)) (calm : w'.Calm) : w.Calm := by
  by_contra broken
  have kept := pull_world (fun r : Recorded World => ¬r.Calm) (fun _ _ _ broken after => broken (ask_calm after).1) broken ran
  exact kept calm

-- The last turn of the machine, once nothing is left to pull.
theorem close_level (actions : c.actions = [.updateSyncState cursor now]) (stands : cursor = currentCursor t)
    (level : Level b.identity t c.storage) :
    ∃ d, Reaches b deviceId c d ∧ d.actions = [] ∧ d.world = c.world ∧ Level b.identity t d.storage := by
  refine ⟨_,reaches_step actions rfl,rfl,rfl,level.objects,level.mutations,?_⟩
  rw [set_state_cursor]
  exact stands

-- One cycle of each engine, over the same server and set up alike.
structure Paired (adapter : SyncServerAdapter (Recorded World)) (sorting : Sorting) (b : Browser (Recorded World) Key Note)
    (options : SyncCycleOptions Key) (limit : Nat) : Prop where
  server : b.server = browserServer sorting adapter
  nativePages : options.pullOptions = ⟨some limit,none⟩
  webPages : b.options.pageLimit = limit
  unlimited : options.pushOptions.maxMutations = none
  followup : b.options.alwaysFollowupPull = options.alwaysFollowupPull

-- The same store on both sides, with a queue of pending mutations that both
-- list in one order.
structure SameStart (b : Browser (Recorded World) Key Note) (s : Storage) (db : WebDb) : Prop where
  level : Level b.identity s db
  pending : ∀ m ∈ s.mutations.rows, m.status = .pending
  ordered : db.listPendingMutations b.collation = s.listPendingMutations

-- A queue that waits in the order of enqueueing is listed in that order by both.
theorem in_step_start (level : Level b.identity s db) (inStep : InStep b.collation s.mutations.rows) : SameStart b s db := by
  refine ⟨level,inStep.waiting,?_⟩
  have whole : s.mutations.rows.filter (fun m => m.status = .pending) = s.mutations.rows :=
    List.filter_eq_self.mpr (fun m inside => by simp [inStep.waiting m inside])
  have native : s.listPendingMutations = s.mutations.rows := (created_iff s.mutations.rows).mpr inStep.clock
  rw [native]
  exact (web_listed b.collation db s.mutations.rows (by rw [level.mutations,whole])).mpr inStep.collated

variable {options : SyncCycleOptions Key} {draws : Draws}

-- The machine as `sync` sets it up, past its reset.
def opened (b : Browser (Recorded World) Key Note) (db : WebDb) : SyncStateMachine :=
  (new (db.getSyncState b.identity).syncCursor (db.listPendingMutations b.collation) b.options).start.1

theorem opened_reach (same : SameStart b s db) (w : Recorded World) :
    Reaches b deviceId (BrowserSync.start b w db) ⟨opened b db,[(opened b db).fetch],db,w,0,[.resetInFlightMutations]⟩ := by
  have pending : ∀ m ∈ db.mutations.rows, m.status = .pending := by
    rw [same.level.mutations]
    exact same.pending
  refine reaches_step rfl ?_
  simp only [perform,BrowserSync.start,web_reset pending]
  rfl

-- The simulation of a whole cycle.
theorem cycle_level (serves : Serves (recording inner) Good Named (some limit) (max 1 (min 500 (max 1 (min limit 500)))))
    (paired : Paired (recording inner) sorting b options limit) (same : SameStart b s db)
    (named : ∀ m ∈ s.mutations.rows, Named (requestOf m)) (codec : NoteCodec Key Note) (good : Good w)
    (ran : runSyncCycle (recording inner) codec none options draws w s = some (w',t,result)) (calm : w'.Calm) :
    (∃ report, result = .ok report) ∧
      ∃ turns d, sync b turns w db = some (d,.ok ()) ∧ d.world = w' ∧ Level b.identity t d.storage := by
  obtain ⟨server,nativePages,webPages,unlimited,followup⟩ := paired
  suffices finished : (∃ report, result = .ok report) ∧ ∃ d, Reaches b (db.getSyncState b.identity).deviceId
      (BrowserSync.start b w db) d ∧ d.actions = [] ∧ d.world = w' ∧ Level b.identity t d.storage by
    obtain ⟨fine,d,reaches,empty,world,level⟩ := finished
    obtain ⟨turns,ended⟩ := reaches_end reaches empty
    exact ⟨fine,turns,d,ended,world,level⟩
  have first : Reaches b (db.getSyncState b.identity).deviceId (BrowserSync.start b w db) _ := opened_reach same w
  have pages : max 1 (min 500 (opened b db).pageLimit) = max 1 (min 500 (max 1 (min limit 500))) := by
    simp only [opened,new,SyncStateMachine.start,webPages]
  unfold runSyncCycle at ran
  simp only [native_reset same.pending,nativePages] at ran
  cases pulled : pullRemoteChanges (recording inner) codec none ⟨some limit,none⟩ draws.clock draws.fuel w s with
  | none =>
      rw [pulled] at ran
      cases ran
  | some out =>
  obtain ⟨w₁,s₁,result₁⟩ := out
  obtain ⟨⟨report₁,rfl⟩,good₁,mutations,d₁,m₁,now₁,second,⟨cursor₁,one,two,rfl⟩,stands₁,machine₁,actions₁,world₁,level₁⟩ :=
    phase_level _ (c := ⟨opened b db,[(opened b db).fetch],db,w,0,[.resetInFlightMutations]⟩) serves server codec draws.clock
      draws.fuel good rfl rfl same.level.cursor pages same.level pulled
  rw [pulled] at ran
  dsimp only at ran
  -- the initial pull hands over to the push phase
  have left : Left {opened b db with currentCursor := cursor₁,initialPull := one,followupPull := two,phase := .pushing}
      s₁.listPendingMutations := by
    have list : s₁.listPendingMutations = s.listPendingMutations := by simp only [Storage.listPendingMutations,mutations]
    refine ⟨rfl,list ▸ same.ordered,?_,rfl,rfl⟩
    intro x inside
    rw [list,mem_pending] at inside
    simp [ready,same.pending x inside]
  cases pushed : pushPendingChanges (recording inner) codec (pushKey options none) draws.ticks w₁ s₁ with
  | mk w₂ out =>
  obtain ⟨s₂,result₂⟩ := out
  rw [pushed] at ran
  have calm₂ : w₂.Calm := by
    cases result₂ with
    | error e =>
        cases ran
        exact calm
    | ok report =>
        dsimp only at ran
        split at ran
        · cases again : pullRemoteChanges (recording inner) codec none ⟨some limit,none⟩ draws.followupClock draws.fuel w₂ s₂ with
          | none =>
              rw [again] at ran
              cases ran
          | some out =>
              obtain ⟨w₃,s₃,result₃⟩ := out
              rw [again] at ran
              have ended : w₃ = w' := by cases result₃ <;> cases ran <;> rfl
              exact pull_calm again (ended ▸ calm)
        · cases ran
          exact calm
  obtain ⟨good₂,state,report₂,d₂,m₂,now₂,rfl,third,sent,machine₂,actions₂,world₂,level₂⟩ :=
    push_level _ serves server codec (show (pushKey options none).maxMutations = none from unlimited) draws.ticks good₁ (listed_start s₁)
      (fun x inside => named x (by rw [mem_pending,mutations] at inside; exact inside)) left machine₁ actions₁ world₁ level₁ rfl
      pushed calm₂
  have so₂ := reaches_trans first (reaches_trans second third)
  have stands₂ : m₂.currentCursor = currentCursor s₂ := by
    rw [sent.cursor,PullChanges.currentCursor,state]
    exact stands₁
  have condition : (m₂.push.accepted ≠ [] ∨ m₂.alwaysFollowupPull = true) ↔
      (report₂.accepted ≠ [] ∨ options.alwaysFollowupPull = true) := by
    have always : m₂.alwaysFollowupPull = options.alwaysFollowupPull := sent.always.trans followup
    rw [always,← List.length_pos_iff,← List.length_pos_iff,sent.counted]
  dsimp only at ran
  by_cases more : report₂.accepted ≠ [] ∨ options.alwaysFollowupPull = true
  · have finish : m₂.finish now₂ = ({m₂ with phase := .pullingFollowup},[m₂.fetch]) := if_pos (condition.mpr more)
    rw [finish] at machine₂ actions₂
    rw [if_pos more] at ran
    cases again : pullRemoteChanges (recording inner) codec none ⟨some limit,none⟩ draws.followupClock draws.fuel w₂ s₂ with
    | none =>
        rw [again] at ran
        cases ran
    | some out =>
        obtain ⟨w₃,s₃,result₃⟩ := out
        obtain ⟨⟨report₃,rfl⟩,_,_,d₃,m₃,now₃,fourth,⟨cursor₃,one',two',rfl⟩,stands₃,machine₃,actions₃,world₃,level₃⟩ :=
          phase_level _ serves server codec draws.followupClock draws.fuel good₂ (by rw [actions₂,machine₂]; rfl) world₂
            (by rw [machine₂]; exact stands₂) (by rw [machine₂,← pages]; exact congrArg _ (congrArg _ sent.limit)) level₂ again
        rw [again] at ran
        cases ran
        rw [machine₂] at actions₃
        obtain ⟨d,fifth,empty,world,level⟩ := close_level actions₃ stands₃ level₃
        exact ⟨⟨_,rfl⟩,d,reaches_trans so₂ (reaches_trans fourth fifth),empty,world.trans world₃,level⟩
  · have finish : m₂.finish now₂ = ({m₂ with phase := .complete,completed := true},[.updateSyncState m₂.currentCursor now₂]) :=
      if_neg (fun held => more (condition.mp held))
    rw [finish] at machine₂ actions₂
    rw [if_neg more] at ran
    cases ran
    obtain ⟨d,fifth,empty,world,level⟩ := close_level actions₂ stands₂ level₂
    exact ⟨⟨_,rfl⟩,d,reaches_trans so₂ fifth,empty,world.trans world₂,level⟩

-- Every native cycle that meets no error and no conflict is matched by the
-- browser's: the same questions in the same order, the same server after them,
-- and stores that stay level. The native cycle does return.
theorem engines_agree (crates : Crates) (account : String) (sorting : Sorting) (codec : NoteCodec Key Note)
    (b : Browser (Recorded Link) Key Note) (options : SyncCycleOptions Key) (draws : Draws) (limit : Nat) (log : List Acceptance)
    (l : Link) (s : Storage) (db : WebDb) (positive : 1 ≤ limit)
    (paired : Paired (recording (honest crates account)) sorting b options limit) (same : SameStart b s db)
    (ids : ∀ m ∈ s.mutations.rows, Canonical crates (requestOf m))
    (rep : Represents crates log l.db) (spelled : Spelled log) (quiet : l.schedule = []) :
    (∀ fuel w' t result,
      runSyncCycle (recording (honest crates account)) codec none options {draws with fuel := fuel} ⟨l,[]⟩ s = some (w',t,result) →
      w'.Calm → (∃ report, result = .ok report) ∧
        ∃ turns d, sync b turns ⟨l,[]⟩ db = some (d,.ok ()) ∧ d.world.asked = w'.asked ∧ d.world.world = w'.world ∧
          Level b.identity t d.storage) ∧
    (currentCursor s < 2^63 → currentSequence l.db account + s.mutations.rows.length < 2^63 →
      ∃ fuel out, runSyncCycle (recording (honest crates account)) codec none options {draws with fuel := fuel} ⟨l,[]⟩ s = some out) := by
  refine ⟨?_,?_⟩
  · intro fuel w' t result ran calm
    obtain ⟨fine,turns,d,ended,world,level⟩ := cycle_level (honest_serves crates account positive) paired same ids codec
      ⟨log,rep,spelled,quiet⟩ ran calm
    exact ⟨fine,turns,d,ended,congrArg _ world,congrArg _ world,level⟩
  · intro start small
    exact cycle_returns crates account codec options draws limit rep quiet paired.nativePages same.pending start small

-- Two notes of another client wait, and an edit of the first one is queued.
def sharedLink : Link := ⟨pushAll .standIn .newInMemory twoNotes,[],[],[]⟩

def editedQueue : Table String PendingMutation (·.mutationId) :=
  Table.empty.upsert (queued change3 firstNote 1 .pending "cccc" "t1")

def editedStorage : Storage := {Storage.new with mutations := editedQueue}
def editedDb : WebDb := {WebDb.new with mutations := editedQueue}

def strict : Sorting := ⟨fun _ => .fatal "push failed",fun _ => "pull failed"⟩

def nativeOptions (limit : Nat) : SyncCycleOptions Unit := ⟨⟨some limit,none⟩,.default,false⟩

def pagedTab (limit : Nat) : Browser (Recorded Link) Unit String :=
  ⟨browserServer strict (recording (honest .standIn "alice")),NoteCodec.standIn,none,Collation.plain,"alice",⟨limit,false,false⟩,
    fun n => ⟨fun _ => s!"t{n+2}","conflict",0⟩⟩

def editDraws (fuel : Nat) : Draws :=
  ⟨fun _ => "t2",fun _ => ⟨"t3","retry","conflict",0⟩,fun _ => "t4",fuel⟩

def nativeCycle (limit fuel : Nat) : Option (Recorded Link × Storage × Except SyncCycleError (SyncCycleReport String)) :=
  runSyncCycle (recording (honest .standIn "alice")) NoteCodec.standIn none (nativeOptions limit) (editDraws fuel) ⟨sharedLink,[]⟩ editedStorage

theorem edit_paired (limit : Nat) :
    Paired (recording (honest .standIn "alice")) strict (pagedTab limit) (nativeOptions limit) limit := ⟨rfl,rfl,rfl,rfl,rfl⟩

theorem edit_start (limit : Nat) : SameStart (pagedTab limit) editedStorage editedDb := by
  refine in_step_start ⟨fun _ => rfl,rfl,rfl⟩ ⟨by decide,by decide,?_⟩
  exact List.pairwise_singleton _ _

theorem edit_canonical : ∀ m ∈ editedStorage.mutations.rows, Canonical .standIn (requestOf m) := by
  intro m inside
  cases List.mem_singleton.mp inside
  exact show Crates.standIn.parseUuid firstNote = .ok firstNote by decide

theorem shared_represents : Represents .standIn (acceptedBy .standIn .newInMemory twoNotes) sharedLink.db := reached_represents twoNotes

theorem shared_spelled : Spelled (acceptedBy .standIn .newInMemory twoNotes) :=
  show ∀ e ∈ acceptedBy .standIn .newInMemory twoNotes, e.request.objectId = e.objectId by decide

theorem edited_note_engines_agree :
    (nativeCycle 1 3).map (fun out => out.1.asked) = some
      ([⟨.pull 0,true⟩,⟨.pull 1,true⟩,⟨.push (requestOf (queued change3 firstNote 1 .pending "cccc" "t1")),true⟩,⟨.pull 2,true⟩] : List Asked) ∧
    ∃ w' t result, nativeCycle 1 3 = some (w',t,result) ∧
      ∃ turns d, sync (pagedTab 1) turns ⟨sharedLink,[]⟩ editedDb = some (d,.ok ()) ∧ d.world.asked = w'.asked ∧
        Level "alice" t d.storage := by
  have asked : (nativeCycle 1 3).map (fun out => out.1.asked) = some
      ([⟨.pull 0,true⟩,⟨.pull 1,true⟩,⟨.push (requestOf (queued change3 firstNote 1 .pending "cccc" "t1")),true⟩,⟨.pull 2,true⟩] :
        List Asked) := by decide +kernel
  obtain ⟨⟨w',t,result⟩,ran,same⟩ := Option.map_eq_some_iff.mp asked
  have calm : w'.Calm := by
    intro x inside
    have same : w'.asked = _ := same
    rw [same] at inside
    simp only [List.mem_cons,List.not_mem_nil,or_false] at inside
    rcases inside with rfl | rfl | rfl | rfl <;> rfl
  obtain ⟨_,turns,d,ended,questions,_,level⟩ := (engines_agree .standIn "alice" strict NoteCodec.standIn (pagedTab 1) (nativeOptions 1)
    (editDraws 0) 1 (acceptedBy .standIn .newInMemory twoNotes) sharedLink editedStorage editedDb (by decide) (edit_paired 1)
    (edit_start 1) edit_canonical shared_represents shared_spelled rfl).1 3 w' t result ran calm
  exact ⟨asked,w',t,result,ran,turns,d,ended,questions,level⟩

def Recorded.cursors (r : Recorded Link) : List Nat :=
  r.asked.filterMap (fun x => match x.question with | .pull after => some after | .push _ => none)

-- A page limit of zero is the server's default to the native engine and one to
-- the machine.
theorem zero_limit_disagrees :
    Paired (recording (honest .standIn "alice")) strict (pagedTab 0) (nativeOptions 0) 0 ∧
    SameStart (pagedTab 0) editedStorage editedDb ∧
    (∀ m ∈ editedStorage.mutations.rows, Canonical .standIn (requestOf m)) ∧ Honest .standIn ⟨sharedLink,[]⟩ ∧
    (nativeCycle 0 3).map (fun out => (Recorded.cursors out.1,decide out.1.Calm)) = some ([0,2],true) ∧
    (sync (pagedTab 0) 20 ⟨sharedLink,[]⟩ editedDb).map (fun out => (Recorded.cursors out.1.world,out.2)) = some ([0,1,2],.ok ()) := by
  refine ⟨edit_paired 0,edit_start 0,edit_canonical,⟨_,shared_represents,shared_spelled,rfl⟩,?_,?_⟩
  · decide +kernel
  · decide +kernel

end ZkNote.EngineAgreement
