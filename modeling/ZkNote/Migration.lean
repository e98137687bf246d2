import ZkNote.IndexedDb
import ZkNote.Runs

namespace ZkNote.Migration
open Protocol KeyedTable LocalStorage IndexedDb Runs

-- A record of one of the five stores that are migrated.
inductive Record where
  | object (row : StoredEncryptedObject)
  | mutation (row : PendingMutation)
  | baseVersion (row : BaseVersion)
  | conflict (row : ConflictRecord)
  | blob (row : BlobRow)
  deriving DecidableEq, Repr

-- The local variables of `migrateFrom`.
structure Copy where
  objects : List StoredEncryptedObject
  mutations : List PendingMutation
  baseVersions : List BaseVersion
  conflicts : List ConflictRecord
  blobs : List BlobRow
  deriving DecidableEq, Repr

def Holds (db : WebDb) : Record → Prop
  | .object row => row ∈ db.objects.rows
  | .mutation row => row ∈ db.mutations.rows
  | .baseVersion row => row ∈ db.baseVersions.rows
  | .conflict row => row ∈ db.conflicts.rows
  | .blob row => row ∈ db.blobs.rows

instance (db : WebDb) : ∀ record : Record, Decidable (Holds db record)
  | .object _ | .mutation _ | .baseVersion _ | .conflict _ | .blob _ => inferInstanceAs (Decidable (_ ∈ _))

def sourceHasData (source : WebDb) : Bool :=
  decide (0 < source.objects.rows.length + source.mutations.rows.length + source.conflicts.rows.length)

-- The one write transaction: every record is put, whatever the target has.
def putAll (target : WebDb) (copy : Copy) : WebDb :=
  {target with
    objects := target.objects.upserts copy.objects
    mutations := target.mutations.upserts copy.mutations
    baseVersions := target.baseVersions.upserts copy.baseVersions
    conflicts := target.conflicts.upserts copy.conflicts
    blobs := target.blobs.upserts copy.blobs}

def clearAllData (db : WebDb) : WebDb :=
  {db with objects := .empty,mutations := .empty,baseVersions := .empty,conflicts := .empty,blobs := .empty}

inductive Store where
  | objects
  | mutations
  | baseVersions
  | conflicts
  | blobs
  deriving DecidableEq, Repr

-- Between which two transactions `migrateFrom` stands. A store that is not read
-- yet is empty in the copy.
inductive Progress where
  | idle
  | reading (next : Store) (copy : Copy)
  | writing (copy : Copy)
  | clearing (copy : Copy)
  deriving DecidableEq, Repr

-- `past` has the contents the target had before each step.
structure Databases where
  source : WebDb
  target : WebDb
  progress : Progress
  past : List WebDb

def migrateFrom (s : Databases) : Databases :=
  let s := {s with past := s.target :: s.past}
  match s.progress with
  | .idle => if sourceHasData s.source then {s with progress := .reading .objects ⟨[],[],[],[],[]⟩} else s
  | .reading .objects copy => {s with progress := .reading .mutations {copy with objects := s.source.objects.rows}}
  | .reading .mutations copy => {s with progress := .reading .baseVersions {copy with mutations := s.source.mutations.rows}}
  | .reading .baseVersions copy => {s with progress := .reading .conflicts {copy with baseVersions := s.source.baseVersions.rows}}
  | .reading .conflicts copy => {s with progress := .reading .blobs {copy with conflicts := s.source.conflicts.rows}}
  | .reading .blobs copy => {s with progress := .writing {copy with blobs := s.source.blobs.rows}}
  | .writing copy => {s with target := putAll s.target copy,progress := .clearing copy}
  | .clearing _ => {s with source := clearAllData s.source,progress := .idle}

-- One transaction of the migration, a crash that ends it, or what another
-- client makes of one of the databases in a transaction of its own.
inductive Event where
  | migrate
  | crash
  | writeSource (db : WebDb)
  | writeTarget (db : WebDb)

def Event.run : Event → Databases → Option Databases
  | .migrate,s => some (migrateFrom s)
  | .crash,s => some {s with progress := .idle,past := s.target :: s.past}
  | .writeSource db,s => some {s with source := db,past := s.target :: s.past}
  | .writeTarget db,s => some {s with target := db,past := s.target :: s.past}

-- What the source holds, the target has no newer revision of and has not dropped
-- from its queue.
def Compatible (source target : WebDb) (past : List WebDb) : Prop :=
  (∀ old ∈ source.objects.rows, ∀ new ∈ target.objects.rows, new.objectId = old.objectId → new.revision ≤ old.revision) ∧
  ∀ m ∈ source.mutations.rows, ∀ db ∈ past, m.mutationId ∈ db.mutations.rows.map (·.mutationId) →
    m.mutationId ∈ target.mutations.rows.map (·.mutationId)

instance (source target : WebDb) (past : List WebDb) : Decidable (Compatible source target past) :=
  inferInstanceAs (Decidable (_ ∧ _))

-- The stores that are read are still as they were read.
def Progress.Current (source : WebDb) : Progress → Prop
  | .idle | .reading .objects _ => True
  | .reading .mutations copy => copy.objects = source.objects.rows
  | .reading .baseVersions copy => copy.objects = source.objects.rows ∧ copy.mutations = source.mutations.rows
  | .reading .conflicts copy => copy.objects = source.objects.rows ∧ copy.mutations = source.mutations.rows ∧
      copy.baseVersions = source.baseVersions.rows
  | .reading .blobs copy => copy.objects = source.objects.rows ∧ copy.mutations = source.mutations.rows ∧
      copy.baseVersions = source.baseVersions.rows ∧ copy.conflicts = source.conflicts.rows
  | .writing copy | .clearing copy => copy.objects = source.objects.rows ∧ copy.mutations = source.mutations.rows ∧
      copy.baseVersions = source.baseVersions.rows ∧ copy.conflicts = source.conflicts.rows ∧ copy.blobs = source.blobs.rows

def Progress.copied : Progress → Bool
  | .clearing _ => true
  | _ => false

-- Other clients leave alone what has been read until it is cleared, the target
-- gets ahead only once everything is copied, and then there is no crash.
def Event.Fine : Event → Databases → Prop
  | .migrate,_ => True
  | .crash,s => s.progress.copied = true → Compatible s.source s.target (s.target :: s.past)
  | .writeSource db,s => s.progress.Current db ∧ (s.progress.copied = true ∨ Compatible db s.target (s.target :: s.past))
  | .writeTarget db,s => s.progress.copied = true ∨ Compatible s.source db (s.target :: s.past)

instance (source : WebDb) : ∀ progress : Progress, Decidable (progress.Current source)
  | .idle | .reading .objects _ => inferInstanceAs (Decidable True)
  | .reading .mutations _ => inferInstanceAs (Decidable (_ = _))
  | .reading .baseVersions _ | .reading .conflicts _ | .reading .blobs _ | .writing _ | .clearing _ => inferInstanceAs (Decidable (_ ∧ _))

instance : ∀ (event : Event) (s : Databases), Decidable (event.Fine s)
  | .migrate,_ => inferInstanceAs (Decidable True)
  | .crash,_ => inferInstanceAs (Decidable (_ → _))
  | .writeSource _,_ => inferInstanceAs (Decidable (_ ∧ _))
  | .writeTarget _,_ => inferInstanceAs (Decidable (_ ∨ _))

variable {s t : Databases} {source target : WebDb} {past : List WebDb} {copy : Copy}

-- Everything that is about to be cleared has been in the target.
def Delivered (s : Databases) : Prop := ∃ db ∈ s.target :: s.past, ∀ record, Holds s.source record → Holds db record

structure Inv (s : Databases) : Prop where
  current : s.progress.Current s.source
  compatible : s.progress.copied = false → Compatible s.source s.target s.past
  delivered : s.progress.copied = true → Delivered s

-- A step that leaves the target alone drops nothing from its queue.
theorem compatible_later (compatible : Compatible source target past) : Compatible source target (target :: past) := by
  refine ⟨compatible.1,?_⟩
  intro m inside db seen queued
  rcases List.mem_cons.mp seen with rfl | old
  · exact queued
  · exact compatible.2 m inside db old queued

theorem cleared_compatible (source target : WebDb) (past : List WebDb) : Compatible (clearAllData source) target past := by
  constructor
  · intro old inside
    cases inside
  · intro m inside
    cases inside

theorem put_all_holds (current : Progress.Current source (.writing copy)) (held : Holds source record) :
    Holds (putAll target copy) record := by
  obtain ⟨objects,mutations,baseVersions,conflicts,blobs⟩ := current
  cases record with
  | object row => exact upserts_mem (objects ▸ source.objects.unique) (.inl (objects ▸ held))
  | mutation row => exact upserts_mem (mutations ▸ source.mutations.unique) (.inl (mutations ▸ held))
  | baseVersion row => exact upserts_mem (baseVersions ▸ source.baseVersions.unique) (.inl (baseVersions ▸ held))
  | conflict row => exact upserts_mem (conflicts ▸ source.conflicts.unique) (.inl (conflicts ▸ held))
  | blob row => exact upserts_mem (blobs ▸ source.blobs.unique) (.inl (blobs ▸ held))

theorem migrate_inv (inv : Inv s) : Inv (migrateFrom s) := by
  obtain ⟨source,target,progress,past⟩ := s
  obtain ⟨current,compatible,delivered⟩ := inv
  cases progress with
  | idle =>
      unfold migrateFrom
      dsimp only
      split
      · exact ⟨trivial,fun _ => compatible_later (compatible rfl),fun copied => by cases copied⟩
      · exact ⟨trivial,fun _ => compatible_later (compatible rfl),fun copied => by cases copied⟩
  | reading next copy =>
      have later := compatible_later (compatible rfl)
      cases next with
      | objects => exact ⟨rfl,fun _ => later,fun copied => by cases copied⟩
      | mutations => exact ⟨⟨current,rfl⟩,fun _ => later,fun copied => by cases copied⟩
      | baseVersions => exact ⟨⟨current.1,current.2,rfl⟩,fun _ => later,fun copied => by cases copied⟩
      | conflicts => exact ⟨⟨current.1,current.2.1,current.2.2,rfl⟩,fun _ => later,fun copied => by cases copied⟩
      | blobs => exact ⟨⟨current.1,current.2.1,current.2.2.1,current.2.2.2,rfl⟩,fun _ => later,fun copied => by cases copied⟩
  | writing copy =>
      refine ⟨current,(fun fresh => by cases fresh),fun _ => ?_⟩
      exact ⟨putAll target copy,List.mem_cons_self,fun record held => put_all_holds current held⟩
  | clearing copy => exact ⟨trivial,fun _ => cleared_compatible _ _ _,fun copied => by cases copied⟩

theorem delivered_later (delivered : Delivered s) (db : WebDb) (progress : Progress) :
    Delivered {s with target := db,progress := progress,past := s.target :: s.past} := by
  obtain ⟨held,seen,all⟩ := delivered
  exact ⟨held,List.mem_cons_of_mem _ seen,all⟩

theorem copied_source (copied : s.progress.copied = true) (before : s.progress.Current s.source) (after : s.progress.Current db) :
    Holds db record → Holds s.source record := by
  obtain ⟨source,target,progress,past⟩ := s
  cases progress with
  | clearing copy =>
      obtain ⟨objects,mutations,baseVersions,conflicts,blobs⟩ := before
      obtain ⟨objects',mutations',baseVersions',conflicts',blobs'⟩ := after
      cases record with
      | object row => exact (iff_of_eq (congrArg (row ∈ ·) (objects'.symm.trans objects))).mp
      | mutation row => exact (iff_of_eq (congrArg (row ∈ ·) (mutations'.symm.trans mutations))).mp
      | baseVersion row => exact (iff_of_eq (congrArg (row ∈ ·) (baseVersions'.symm.trans baseVersions))).mp
      | conflict row => exact (iff_of_eq (congrArg (row ∈ ·) (conflicts'.symm.trans conflicts))).mp
      | blob row => exact (iff_of_eq (congrArg (row ∈ ·) (blobs'.symm.trans blobs))).mp
  | _ => cases copied

theorem event_inv (event : Event) (inv : Inv s) (fine : event.Fine s) (ran : event.run s = some t) : Inv t := by
  cases event with
  | migrate => cases ran; exact migrate_inv inv
  | crash =>
      cases ran
      refine ⟨trivial,fun _ => ?_,fun copied => by cases copied⟩
      cases copied : s.progress.copied with
      | true => exact fine copied
      | false => exact compatible_later (inv.compatible copied)
  | writeSource db =>
      cases ran
      obtain ⟨current,choice⟩ := fine
      refine ⟨current,?_,?_⟩
      · intro fresh
        rcases choice with copied | compatible
        · exact absurd (copied.symm.trans fresh) (by decide)
        · exact compatible
      · intro copied
        obtain ⟨held,seen,all⟩ := inv.delivered copied
        exact ⟨held,List.mem_cons_of_mem _ seen,fun record inside => all record (copied_source copied inv.current current inside)⟩
  | writeTarget db =>
      cases ran
      refine ⟨inv.current,?_,fun copied => delivered_later (inv.delivered copied) db _⟩
      intro fresh
      rcases fine with copied | compatible
      · exact absurd (copied.symm.trans fresh) (by decide)
      · exact compatible

-- A transaction of the migration: no record is lost, no newer object is replaced
-- and nothing that left the target's queue comes back.
structure Safe (s t : Databases) : Prop where
  lost : ∀ record, Holds s.source record → Holds t.source record ∨ ∃ db ∈ t.target :: t.past, Holds db record
  newest : ∀ old ∈ s.target.objects.rows, ∀ new ∈ t.target.objects.rows, new.objectId = old.objectId → old.revision ≤ new.revision
  accepted : ∀ mutationId, (∃ db ∈ s.past, mutationId ∈ db.mutations.rows.map (·.mutationId)) →
    mutationId ∉ s.target.mutations.rows.map (·.mutationId) → mutationId ∉ t.target.mutations.rows.map (·.mutationId)

theorem same_target_newest (db : WebDb) (old new : StoredEncryptedObject) (first : old ∈ db.objects.rows) (second : new ∈ db.objects.rows)
    (same : new.objectId = old.objectId) : old.revision ≤ new.revision := by
  have equal := List.inj_on_of_nodup_map db.objects.unique second first same
  rw [equal]

theorem migrate_safe (inv : Inv s) : Safe s (migrateFrom s) := by
  have quiet : (migrateFrom s).source = s.source → (migrateFrom s).target = s.target → Safe s (migrateFrom s) := by
    intro sources targets
    refine ⟨fun record held => .inl (sources ▸ held),?_,?_⟩
    · intro old first new second same
      exact same_target_newest s.target old new first (targets ▸ second) same
    · intro mutationId _ gone
      rw [targets]
      exact gone
  obtain ⟨source,target,progress,past⟩ := s
  obtain ⟨current,compatible,delivered⟩ := inv
  cases progress with
  | idle =>
      apply quiet
      · unfold migrateFrom
        dsimp only
        split <;> rfl
      · unfold migrateFrom
        dsimp only
        split <;> rfl
  | reading next copy => cases next <;> exact quiet rfl rfl
  | writing copy =>
      obtain ⟨behind,queued⟩ := compatible rfl
      refine ⟨fun record held => .inl held,?_,?_⟩
      · intro old first new second same
        rcases mem_upserts second with copied | kept
        · exact behind new (current.1 ▸ copied) old first same.symm
        · exact same_target_newest target old new first kept same
      · rintro mutationId ⟨db,seen,was⟩ gone back
        obtain ⟨m,inside,rfl⟩ := List.mem_map.mp back
        rcases mem_upserts inside with copied | kept
        · exact gone (queued m (current.2.1 ▸ copied) db seen was)
        · exact gone (List.mem_map_of_mem kept)
  | clearing copy =>
      refine ⟨?_,fun old first new second => same_target_newest target old new first second,fun _ _ gone => gone⟩
      intro record held
      obtain ⟨db,seen,all⟩ := delivered rfl
      exact .inr ⟨db,List.mem_cons_of_mem _ seen,all record held⟩

-- From compatible databases, with any number of runs of the migration broken off
-- and other clients at work in between.
theorem migration_safe (source target : WebDb) (compatible : Compatible source target []) (events : List Event)
    (fine : Along Event.run Event.Fine events ⟨source,target,.idle,[]⟩) (ran : runAll Event.run events ⟨source,target,.idle,[]⟩ = some s)
    (moved : Event.run .migrate s = some t) : Safe s t := by
  have inv : Inv s := by
    refine run_keeps Inv (fun event _ _ inv fine ran => event_inv event inv fine ran) events fine ?_ ran
    exact ⟨trivial,fun _ => compatible,fun copied => by cases copied⟩
  cases moved
  exact migrate_safe inv

-- Left to itself the migration gets everything across.
theorem migration_completes (some : sourceHasData source = true) (target : WebDb) (past : List WebDb) :
    ∃ t, runAll Event.run (List.replicate 8 .migrate) ⟨source,target,.idle,past⟩ = .some t ∧ t.progress = .idle ∧
      t.source = clearAllData source ∧ ∀ record, Holds source record → Holds t.target record := by
  have counted : Event.run .migrate ⟨source,target,.idle,past⟩ =
      .some ⟨source,target,.reading .objects ⟨[],[],[],[],[]⟩,target :: past⟩ := by
    simp only [Event.run,migrateFrom,some,if_true]
  rw [List.replicate_succ,runAll,counted]
  refine ⟨_,rfl,rfl,rfl,fun record held => ?_⟩
  exact put_all_holds ⟨rfl,rfl,rfl,rfl,rfl⟩ held

def noteAt (objectId : String) (revision : Nat) (text : String) : StoredEncryptedObject :=
  ⟨objectId,objectKindNote,revision,revision,false,sealedText objectId text,"t1"⟩

def withNote (db : WebDb) (note : StoredEncryptedObject) : WebDb := {db with objects := db.objects.upsert note}

def offline : WebDb := {withNote .new (noteAt firstNote 1 "aaaa") with
  mutations := ⟨[queued change1 firstNote 1 .pending "bbbb" "t1"],by decide⟩}

def moves (n : Nat) : List Event := List.replicate n .migrate

-- A first run breaks off before it has copied anything, a note is added, and a
-- second run stands before its clear.
theorem broken_migration_safe : ∃ s t,
    runAll Event.run (moves 4 ++ [.crash,.writeSource (withNote offline (noteAt secondNote 1 "cccc"))] ++ moves 7)
      ⟨offline,.new,.idle,[]⟩ = some s ∧
    Event.run .migrate s = some t ∧ t.progress = .idle ∧ Safe s t := by
  obtain ⟨s,ran⟩ := Option.isSome_iff_exists.mp (show (runAll Event.run
    (moves 4 ++ [.crash,.writeSource (withNote offline (noteAt secondNote 1 "cccc"))] ++ moves 7) ⟨offline,.new,.idle,[]⟩).isSome = true by decide)
  have cleared : ∀ s ∈ runAll Event.run (moves 4 ++ [.crash,.writeSource (withNote offline (noteAt secondNote 1 "cccc"))] ++ moves 7)
      ⟨offline,.new,.idle,[]⟩, (migrateFrom s).progress = .idle := by decide
  exact ⟨s,_,ran,rfl,cleared s ran,migration_safe offline .new (by decide) _ (by decide) ran rfl⟩

-- A note saved between the read and the clear; after a crash between the put and
-- the clear, a newer revision and an accepted mutation in the target.
theorem migration_unsafe :
    (∃ s t, runAll Event.run (moves 2 ++ [.writeSource (withNote offline (noteAt secondNote 1 "cccc"))] ++ moves 5)
        ⟨offline,.new,.idle,[]⟩ = some s ∧ Event.run .migrate s = some t ∧
      Holds s.source (.object (noteAt secondNote 1 "cccc")) ∧ ¬Holds t.source (.object (noteAt secondNote 1 "cccc")) ∧
      ∀ db ∈ t.target :: t.past, ¬Holds db (.object (noteAt secondNote 1 "cccc"))) ∧
    (∃ s t, runAll Event.run (moves 7 ++ [.crash,.writeTarget (withNote offline (noteAt firstNote 2 "bbbb"))] ++ moves 6)
        ⟨offline,.new,.idle,[]⟩ = some s ∧ Event.run .migrate s = some t ∧
      (s.target.getObject firstNote).map (·.revision) = some 2 ∧ (t.target.getObject firstNote).map (·.revision) = some 1) ∧
    ∃ s t, runAll Event.run (moves 7 ++ [.crash,.writeTarget (withNote .new (noteAt firstNote 2 "bbbb"))] ++ moves 6)
        ⟨offline,.new,.idle,[]⟩ = some s ∧ Event.run .migrate s = some t ∧
      (∃ db ∈ s.past, change1 ∈ db.mutations.rows.map (·.mutationId)) ∧ s.target.getMutation change1 = none ∧
      (t.target.getMutation change1).isSome = true := by
  refine ⟨⟨_,_,rfl,rfl,?_⟩,⟨_,_,rfl,rfl,?_⟩,⟨_,_,rfl,rfl,?_⟩⟩ <;> decide

end ZkNote.Migration
