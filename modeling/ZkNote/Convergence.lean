import ZkNote.ReplicaPhases
import ZkNote.Runs

namespace ZkNote.Convergence
open Protocol Adapter KeyedTable ServerStore ServerHistory ServerRoutes SyncLink LocalStorage MutationQueue Conflict PullChanges
open PullRules PushChanges PushSteps Orchestrator CycleSteps Notes NoteEdits LocalReplica ReplicaPhases Runs

variable {crates : Crates} {account : String} {Key Note : Type} {codec : NoteCodec Key Note} {key : Key}
variable {s t : Storage} {l l' : Link}

-- One move of a device and the world around it. A sync cycle is made of the
-- last three; `schedule` is the network during the move.
inductive Stage (Key : Type) where
  | edit (command : Command)
  | remote (calls : List Call)
  | reset
  | pull (vaultKey : Option Key) (options : PullOptions) (clock : Nat → String) (fuel : Nat) (schedule : List Slot)
  | push (options : PushOptions Key) (ticks : Nat → Tick) (schedule : List Slot)

def Stage.run (crates : Crates) (account : String) (codec : NoteCodec Key Note) (key : Key) :
    Stage Key → Link × Storage → Option (Link × Storage)
  | .edit command,(l,s) => some (l,command.run codec key s)
  | .remote calls,(l,s) => some ({l with db := pushAll crates l.db calls},s)
  | .reset,(l,s) => some (l,(resetInFlight s).2)
  | .pull vaultKey options clock fuel schedule,(l,s) =>
    (pullRemoteChanges (honest crates account) codec vaultKey options clock fuel {l with schedule := schedule} s).map
      (fun out => (out.1,out.2.1))
  | .push options ticks schedule,(l,s) =>
    let out := pushPendingChanges (honest crates account) codec options ticks {l with schedule := schedule} s
    some (out.1,out.2.1)

-- Ids are new where they are drawn, others send what the handler lets through
-- and not under this device's queued ids, and pushes follow the default policy.
def Stage.Genuine (crates : Crates) (account : String) : Stage Key → Link × Storage → Prop
  | .edit command,(l,s) =>
    Novel crates (headAt l.db account) command s ∧ l.db.processed.find (account,command.draw.mutationId) = none
  | .remote calls,(_,s) => Foreign crates account (requests s) calls
  | .reset,_ => True
  | .pull _ _ _ _ schedule,(_,s) => ∀ slot ∈ schedule, Foreign crates account (requests s) slot.others
  | .push options _ schedule,(_,s) =>
    options.conflictPolicy = .manual ∧ ∀ slot ∈ schedule, Foreign crates account (requests s) slot.others

def Stage.Safe (account : String) : Stage Key → Link × Storage → Prop
  | .push _ _ _,(l,s) => ReplaySafe account l.db s
  | _,_ => True

instance (crates : Crates) (account : String) (stage : Stage Key) (state : Link × Storage) :
    Decidable (stage.Genuine crates account state) :=
  match stage,state with
  | .edit command,(l,s) => inferInstanceAs (Decidable (Novel crates (headAt l.db account) command s ∧
      l.db.processed.find (account,command.draw.mutationId) = none))
  | .remote calls,(_,s) => inferInstanceAs (Decidable (Foreign crates account (requests s) calls))
  | .reset,_ => inferInstanceAs (Decidable True)
  | .pull _ _ _ _ schedule,(_,s) =>
    inferInstanceAs (Decidable (∀ slot ∈ schedule, Foreign crates account (requests s) slot.others))
  | .push options _ schedule,(_,s) => inferInstanceAs (Decidable (options.conflictPolicy = .manual ∧
      ∀ slot ∈ schedule, Foreign crates account (requests s) slot.others))

instance (account : String) (stage : Stage Key) (state : Link × Storage) : Decidable (stage.Safe account state) :=
  match stage,state with
  | .push _ _ _,(l,s) => inferInstanceAs (Decidable (ReplaySafe account l.db s))
  | .edit _,_ => inferInstanceAs (Decidable True)
  | .remote _,_ => inferInstanceAs (Decidable True)
  | .reset,_ => inferInstanceAs (Decidable True)
  | .pull _ _ _ _ _,_ => inferInstanceAs (Decidable True)

-- A new device at an empty server.
def blank : Link × Storage := (⟨.newInMemory,[],[],[]⟩,.new)

-- The device is a replica of the server.
def Synced (crates : Crates) (account : String) (state : Link × Storage) : Prop :=
  ∃ log, Represents crates log state.1.db ∧ Replica crates account log state.2

-- The server has on record every queued edit of the object.
def OnRecord (account : String) (db : ServerDb) (s : Storage) (o : String) : Prop :=
  ∀ m ∈ s.mutations.rows, m.objectId = o → (db.processed.find (account,m.mutationId)).isSome = true

instance (account : String) (db : ServerDb) (s : Storage) (o : String) : Decidable (OnRecord account db s o) :=
  inferInstanceAs (Decidable (∀ m ∈ s.mutations.rows, m.objectId = o →
    (db.processed.find (account,m.mutationId)).isSome = true))

theorem on_record_pushed (rep : Represents crates log db) (recorded : OnRecord account db s o) : Pushed account log s o := by
  intro r inside mine none
  obtain ⟨m,member,rfl⟩ := List.mem_map.mp inside
  have held := recorded m member mine
  rw [rep.processed] at held
  rw [request_mutation] at none
  simp [none] at held

def NoRegress (account : String) (before after : Link × Storage) : Prop :=
  ∀ o x y, OnRecord account before.1.db before.2 o → before.2.getObject o = some x → after.2.getObject o = some y →
    x.revision ≤ y.revision

theorem steady_no_regress (rep : Represents crates log l.db) (steady : Steady account log s more t) :
    NoRegress account (l,s) (l',t) := by
  intro o x y recorded held after
  obtain ⟨z,same,low⟩ := (steady o (on_record_pushed rep recorded)).2 x held
  rw [after] at same
  cases same
  exact low

theorem between_start (rep : Represents crates log l.db) (replica : Replica crates account log s) (schedule : List Slot)
    (foreign : ∀ slot ∈ schedule, Foreign crates account (requests s) slot.others) :
    Between crates account (requests s) log s {l with schedule := schedule} s :=
  ⟨log,rep,going_start replica,foreign⟩

theorem between_end (rep : Represents crates log l.db) (between : Between crates account queue log s l' t) :
    Synced crates account (l',t) ∧ NoRegress account (l,s) (l',t) := by
  obtain ⟨later,after,going,_⟩ := between
  exact ⟨⟨later,after,going.replica⟩,steady_no_regress rep going.steady⟩

-- An edit keeps every stored revision or raises it; a purge removes the object.
theorem command_stage (seals : Seals crates codec) (rep : Represents crates log l.db) (replica : Replica crates account log s)
    (novel : Novel crates (headAt l.db account) command s)
    (unseen : l.db.processed.find (account,command.draw.mutationId) = none) :
    Synced crates account (l,command.run codec key s) ∧ NoRegress account (l,s) (l,command.run codec key s) := by
  have heads : headAt l.db account = headRevision log account := funext (head_at_eq rep)
  rw [heads] at novel
  have fresh : ofMutation log account command.draw.mutationId = none := by
    rw [rep.processed] at unseen
    exact Option.map_eq_none_iff.mp unseen
  have state : currentCursor (command.run codec key s) = currentCursor s := by
    unfold currentCursor
    rw [(run_frame command s).1]
  have sound : Sound crates (command.run codec key s) := sound_command seals replica.sound novel
  cases run_commanded codec key command s novel.mutation with
  | nothing objects queue =>
      refine ⟨⟨log,rep,replica_frame replica objects (by simp only [requests,queue]) state⟩,?_⟩
      intro o x y _ held after
      simp only [Storage.getObject,objects] at held after
      rw [held] at after
      cases after
      exact Nat.le_refl _
  | purged o _ _ objects queue =>
      refine ⟨⟨log,rep,replica_purged replica objects queue state⟩,?_⟩
      intro k x y _ held after
      have stored := find_mem after
      rw [objects] at stored
      have same := mem_find (mem_delete.mp stored).1 (find_key after)
      rw [Storage.getObject,same] at held
      cases held
      exact Nat.le_refl _
  | edited object m edit objects queue =>
      refine ⟨⟨log,rep,replica_edited replica sound novel edit fresh objects queue state⟩,?_⟩
      intro o x y _ held after
      have get : (command.run codec key s).getObject o = if object.objectId = o then some object else s.getObject o := by
        simp only [Storage.getObject,objects]
        exact find_upsert s.objects object o
      rw [get] at after
      by_cases same : object.objectId = o
      · rw [if_pos same] at after
        cases after
        rcases edit.basis with ⟨creates,drawn,_⟩ | ⟨prior,found,level⟩
        · have absent := (novel.object creates).2.2.1
          rw [← drawn,same,held] at absent
          cases absent
        · rw [same,held] at found
          cases found
          have next := edit.revision
          omega
      · rw [if_neg same,held] at after
        cases after
        exact Nat.le_refl _

theorem reset_replica (replica : Replica crates account log s) : Replica crates account log (resetInFlight s).2 := by
  have frame := reset_in_flight_frame s
  exact replica_frame replica (by rw [frame]) (reset_requests s) (by rw [frame]; rfl)

theorem stage_synced (seals : Seals crates codec) (synced : Synced crates account state) (stage : Stage Key)
    (genuine : stage.Genuine crates account state) (safe : stage.Safe account state)
    (ran : stage.run crates account codec key state = some next) :
    Synced crates account next ∧ NoRegress account state next := by
  obtain ⟨l,s⟩ := state
  obtain ⟨log,rep,replica⟩ := synced
  cases stage with
  | edit command =>
      cases ran
      exact command_stage seals rep replica genuine.1 genuine.2
  | remote calls =>
      cases ran
      have grown := going_others (going_start replica) rep genuine
      exact ⟨⟨_,pushAll_represents rep calls,grown.replica⟩,steady_no_regress rep grown.steady⟩
  | reset =>
      cases ran
      refine ⟨⟨log,rep,reset_replica replica⟩,?_⟩
      exact steady_no_regress rep (steady_frame account log (by rw [reset_in_flight_frame s]) (reset_requests s))
  | pull vaultKey options clock fuel schedule =>
      obtain ⟨out,pulled,rfl⟩ := Option.map_eq_some_iff.mp ran
      exact between_end rep (pull_going (between_start rep replica schedule genuine) pulled)
  | push options ticks schedule =>
      cases ran
      exact between_end rep (push_going genuine.1 (between_start rep replica schedule genuine.2)
        (fun _ again => safe_due safe again)
        (rfl : pushPendingChanges (honest crates account) codec options ticks {l with schedule := schedule} s = _))

theorem blank_synced : Synced crates account blank :=
  ⟨[],initial_represents,new_replica crates account⟩

-- The phases of one cycle, with what is left of the network's schedule at each.
def phasesOf (call : CycleCall Key) (one two three : List Slot) : List (Stage Key) :=
  [.reset,
    .pull call.vaultKey call.options.pullOptions call.draws.clock call.draws.fuel one,
    .push (pushKey call.options call.vaultKey) call.draws.ticks two,
    .pull call.vaultKey call.options.pullOptions call.draws.followupClock call.draws.fuel three]

-- A cycle runs a beginning of its phases.
def RunsPhases (crates : Crates) (account : String) (codec : NoteCodec Key Note) (key : Key) (call : CycleCall Key)
    (schedule : List Slot) (state next : Link × Storage) : Prop :=
  ∃ two three n, 2 ≤ n ∧ runAll (Stage.run crates account codec key) ((phasesOf call schedule two three).take n) state = some next

theorem cycle_stages (call : CycleCall Key) (schedule : List Slot)
    (ran : runSyncCycle (honest crates account) codec call.vaultKey call.options call.draws {l with schedule := schedule} s =
      some (l',t,result)) : RunsPhases crates account codec key call schedule (l,s) (l',t) := by
  cases cycle_phases ran with
  | unpulled pulled => exact ⟨[],[],2,Nat.le_refl _,by simp [phasesOf,runAll,Stage.run,pulled]⟩
  | @unpushed l₁ s₁ _ _ _ _ pulled pushed =>
      refine ⟨l₁.schedule,[],3,by omega,?_⟩
      simp [phasesOf,runAll,Stage.run,pulled,pushed]
  | @ended l₁ s₁ _ _ _ _ pulled pushed =>
      refine ⟨l₁.schedule,[],3,by omega,?_⟩
      simp [phasesOf,runAll,Stage.run,pulled,pushed]
  | @unfollowed l₁ s₁ _ l₂ s₂ _ _ _ _ pulled pushed again =>
      refine ⟨l₁.schedule,l₂.schedule,4,by omega,?_⟩
      simp [phasesOf,runAll,Stage.run,pulled,pushed,again]
  | @followed l₁ s₁ _ l₂ s₂ _ _ _ _ pulled pushed again =>
      refine ⟨l₁.schedule,l₂.schedule,4,by omega,?_⟩
      simp [phasesOf,runAll,Stage.run,pulled,pushed,again]

theorem pull_catches_up {vaultKey : Option Key} (synced : Synced crates account (l,s)) (empty : s.mutations.rows = [])
    (unlimited : options.maxPages = none) (foreign : ∀ slot ∈ schedule, Foreign crates account [] slot.others)
    (ran : pullRemoteChanges (honest crates account) codec vaultKey options clock fuel {l with schedule := schedule} s =
      some (l',t,result)) (whole : ∀ e, result ≠ .error (.network e)) : CaughtUp account l'.db t := by
  obtain ⟨log,rep,replica⟩ := synced
  have none : requests s = [] := by simp [requests,empty]
  obtain ⟨p,looped,rfl⟩ := pull_unbroken ran whole
  obtain ⟨⟨⟨more,after,⟨going,_⟩⟩,durable,_⟩,_,covered⟩ := pull_loop_keeps
    (pull_keeps_going crates account clock (requests s) log s) quiet_allowed fuel (l := {l with schedule := schedule}) (p := startPull s)
    rep (by rw [none]; exact foreign) rfl ⟨going_start replica,rfl⟩ looped
  have stamped := going_frame (t := recordSyncSuccess p.storage (clock p.applied.length)) going rfl rfl rfl
  refine replica_converged stamped.replica after ?_ ?_
  · have left := going.queued
    rw [none] at left
    exact List.eq_nil_iff_forall_not_mem.mpr (fun r inside => absurd (left r inside) List.not_mem_nil)
  · have reached := covered rfl unlimited
    rw [← durable] at reached
    exact reached

theorem quiet_pull_returns (vaultKey : Option Key) (synced : Synced crates account (l,s)) (options : PullOptions)
    (clock : Nat → String) (small : currentSequence l.db account < 2^63) :
    ∃ fuel l' t result, pullRemoteChanges (honest crates account) codec vaultKey options clock fuel {l with schedule := []} s =
      some (l',t,result) ∧ ∀ e, result ≠ .error (.network e) := by
  obtain ⟨log,rep,replica⟩ := synced
  have issued : currentCursor s ≤ (ofAccount log account).length := replica.cursor
  have start : currentCursor s < 2^63 := by
    rw [rep.sequence] at small
    omega
  exact quiet_pull_ends (l := {l with schedule := []}) codec vaultKey options clock rep rfl start small

-- In a run whose replays are safe, no stage lowers the revision of an object
-- without unpushed edits, and with an empty queue one more pull shows the heads.
-- Such a pull does return on a quiet network, and cycles are runs of stages.
theorem replica_converges (seals : Seals crates codec) (stages : List (Stage Key))
    (genuine : Along (Stage.run crates account codec key) (Stage.Genuine crates account) stages blank)
    (safe : Along (Stage.run crates account codec key) (Stage.Safe account) stages blank)
    (ran : runAll (Stage.run crates account codec key) stages blank = some (l,s)) :
    (∀ (stage : Stage Key) next, stage.Genuine crates account (l,s) → stage.Safe account (l,s) →
      stage.run crates account codec key (l,s) = some next → NoRegress account (l,s) next) ∧
    (s.mutations.rows = [] → ∀ (vaultKey : Option Key) options clock, options.maxPages = none →
      (∀ fuel schedule l' t result, (∀ slot ∈ schedule, Foreign crates account [] slot.others) →
        pullRemoteChanges (honest crates account) codec vaultKey options clock fuel {l with schedule := schedule} s =
          some (l',t,result) →
        (∀ e, result ≠ .error (.network e)) → CaughtUp account l'.db t) ∧
      (currentSequence l.db account < 2^63 → ∃ fuel l' t result,
        pullRemoteChanges (honest crates account) codec vaultKey options clock fuel {l with schedule := []} s =
          some (l',t,result) ∧ ∀ e, result ≠ .error (.network e))) ∧
    (∀ (call : CycleCall Key) schedule l' t result,
      runSyncCycle (honest crates account) codec call.vaultKey call.options call.draws {l with schedule := schedule} s =
        some (l',t,result) → RunsPhases crates account codec key call schedule (l,s) (l',t)) := by
  have synced : Synced crates account (l,s) := run_keeps (Synced crates account)
    (fun stage state next synced fine stepped => (stage_synced seals synced stage fine.1 fine.2 stepped).1)
    stages (along_both stages genuine safe) blank_synced ran
  refine ⟨?_,?_,?_⟩
  · intro stage next real harmless stepped
    exact (stage_synced seals synced stage real harmless stepped).2
  · intro empty vaultKey options clock unlimited
    refine ⟨?_,quiet_pull_returns vaultKey synced options clock⟩
    intro fuel schedule l' t result foreign pulled whole
    exact pull_catches_up synced empty unlimited foreign pulled whole
  · intro call schedule l' t result cycled
    exact cycle_stages call schedule cycled

def aliceRun : Stage Unit → Link × Storage → Option (Link × Storage) := Stage.run .standIn "alice" NoteCodec.standIn ()

-- A note is created, and the answer to its push is lost on the way.
def answerLost : List (Stage Unit) :=
  [.edit (.create ⟨firstNote,change1,"t1",0⟩ ⟨"","aaaa",[]⟩),
    .push .default (fun _ => ⟨"t2","","",0⟩) [⟨[],some (.responseLost (.connectionFailed "reset"))⟩]]

-- Another device builds on it before or after the replay.
def builtOn : Stage Unit := .remote [("alice",upsertOf change2 firstNote 1 "bbbb")]
def fetched : Stage Unit := .pull none .default (fun _ => "t3") 3 []
def replayed : Stage Unit := .push .default (fun _ => ⟨"t4","","",0⟩) []

-- Replayed before anything was built on it, the lost answer does no harm.
theorem early_replay_harmless : ∃ l s l' t result,
    runAll aliceRun (answerLost ++ [fetched,replayed,builtOn]) blank = some (l,s) ∧
    pullRemoteChanges (honest .standIn "alice") NoteCodec.standIn none .default (fun _ => "t5") 3 {l with schedule := []} s =
      some (l',t,result) ∧ t.objects.rows.map (·.revision) = [2] ∧ CaughtUp "alice" l'.db t := by
  obtain ⟨⟨l,s⟩,ran⟩ := Option.isSome_iff_exists.mp (show (runAll aliceRun
    (answerLost ++ [fetched,replayed,builtOn]) blank).isSome = true by decide)
  have facts : ∀ state ∈ runAll aliceRun (answerLost ++ [fetched,replayed,builtOn]) blank,
      state.2.mutations.rows = [] ∧ ∃ out ∈ pullRemoteChanges (honest .standIn "alice") NoteCodec.standIn none .default
        (fun _ => "t5") 3 {state.1 with schedule := []} state.2,
        out.2.2.isOk = true ∧ out.2.1.objects.rows.map (·.revision) = [2] := by decide
  obtain ⟨empty,⟨l',t,result⟩,pulled,fine,shown⟩ := facts (l,s) ran
  have whole : ∀ e, result ≠ .error (.network e) := by
    rintro e rfl
    cases fine
  have converged := (replica_converges stand_in_seals (answerLost ++ [fetched,replayed,builtOn]) (by decide) (by decide)
    ran).2.1 empty none .default (fun _ => "t5") rfl
  exact ⟨l,s,l',t,result,ran,pulled,shown,converged.1 3 [] l' t result (by simp) pulled whole⟩

theorem regressed (recorded : OnRecord account before.1.db before.2 o)
    (high : (before.2.getObject o).map (·.revision) = some a) (low : (after.2.getObject o).map (·.revision) = some b)
    (less : b < a) : ¬NoRegress account before after := by
  intro kept
  obtain ⟨x,held,rfl⟩ := Option.map_eq_some_iff.mp high
  obtain ⟨y,stored,rfl⟩ := Option.map_eq_some_iff.mp low
  exact Nat.not_le_of_lt less (kept o x y recorded held stored)

def nextCycle : CycleCall Unit := ⟨none,.default,⟨fun _ => "t3",fun _ => ⟨"t4","","",0⟩,fun _ => "t5",3⟩⟩

-- Replayed after a pull of what was built on it, the lost answer takes the note
-- back one revision, and no later pull brings the head again.
theorem late_replay_regresses :
    Along aliceRun (Stage.Genuine .standIn "alice") (answerLost ++ [builtOn,fetched,replayed]) blank ∧
    (∃ before after, runAll aliceRun (answerLost ++ [builtOn,fetched]) blank = some before ∧
      aliceRun replayed before = some after ∧ ¬NoRegress "alice" before after) ∧
    ∃ l s l₁ s₁ report l₂ s₂, runAll aliceRun (answerLost ++ [builtOn]) blank = some (l,s) ∧
      runSyncCycle (honest .standIn "alice") NoteCodec.standIn nextCycle.vaultKey nextCycle.options nextCycle.draws l s =
        some (l₁,s₁,.ok report) ∧ s₁.mutations.rows = [] ∧ s₁.conflicts.rows = [] ∧
      aliceRun fetched (l₁,s₁) = some (l₂,s₂) ∧ ¬CaughtUp "alice" l₂.db s₂ := by
  refine ⟨by decide,?_,?_⟩
  · have facts : ∃ before ∈ runAll aliceRun (answerLost ++ [builtOn,fetched]) blank,
        ∃ after ∈ aliceRun replayed before,
          OnRecord "alice" before.1.db before.2 firstNote ∧ (before.2.getObject firstNote).map (·.revision) = some 2 ∧
            (after.2.getObject firstNote).map (·.revision) = some 1 := by decide
    obtain ⟨before,ran,after,stepped,recorded,high,low⟩ := facts
    exact ⟨before,after,ran,stepped,regressed recorded high low (by decide)⟩
  · have facts : ∃ state ∈ runAll aliceRun (answerLost ++ [builtOn]) blank,
        ∃ out ∈ runSyncCycle (honest .standIn "alice") NoteCodec.standIn nextCycle.vaultKey nextCycle.options nextCycle.draws
          state.1 state.2, out.2.2.isOk = true ∧ out.2.1.mutations.rows = [] ∧ out.2.1.conflicts.rows = [] ∧
            ∃ later ∈ aliceRun fetched (out.1,out.2.1), ¬CaughtUp "alice" later.1.db later.2 := by
      decide
    obtain ⟨⟨l,s⟩,ran,⟨l₁,s₁,result⟩,cycled,fine,empty,calm,⟨l₂,s₂⟩,pulled,stale⟩ := facts
    cases result with
    | error e => cases fine
    | ok report => exact ⟨l,s,l₁,s₁,report,l₂,s₂,ran,cycled,empty,calm,pulled,stale⟩

end ZkNote.Convergence
