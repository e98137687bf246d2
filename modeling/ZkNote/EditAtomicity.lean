import ZkNote.EditCharts
import ZkNote.NoteEdits

namespace ZkNote.EditAtomicity
open Protocol KeyedTable LocalStorage Notes LocalEdits EditCharts StdText

variable {Key Note File : Type} {codec : NoteCodec Key Note} {files : AttachmentCodec Key Note File} {key : Key} {s t : Storage}
  {f : Nat → Option StorageError}

inductive Op (File : Type) where
  | create (draw : Draw) (content : Content)
  | update (draw : Draw) (noteId : String) (content : Content)
  | delete (draw : Draw) (noteId : String) (purge : Bool)
  | attach (draw : AttachDraw) (noteId : String) (file : Except String File) (customName customMime : Option String)
  | detach (draw : AttachDraw) (noteId attachmentId : String)

def Op.run (codec : NoteCodec Key Note) (files : AttachmentCodec Key Note File) (key : Key) : Op File → Edit Unit
  | .create draw content => dropResult (LocalEdits.createNote codec key draw content)
  | .update draw noteId content => dropResult (LocalEdits.updateNote codec key draw noteId content)
  | .delete draw noteId purge => dropResult (LocalEdits.deleteNote draw noteId purge)
  | .attach draw noteId file customName customMime => dropResult (cmdAttach codec files key draw noteId file customName customMime)
  | .detach draw noteId attachmentId => cmdDetach codec files key draw noteId attachmentId

-- `Uuid::new_v4`: an id nobody holds yet.
def Fresh : Op File → Storage → Prop
  | .create draw _,s => s.getMutation draw.mutationId = none ∧ s.getObject draw.objectId = none ∧ ∀ m ∈ s.mutations.rows, m.objectId ≠ draw.objectId
  | .update draw _ _,s => s.getMutation draw.mutationId = none
  | .delete draw _ _,s => s.getMutation draw.mutationId = none
  | .attach draw _ _ _ _,s => s.getMutation draw.manifestMutation = none ∧ s.getMutation draw.noteMutation = none ∧
    draw.manifestMutation ≠ draw.noteMutation ∧ s.getObject draw.attachmentId = none ∧ ∀ m ∈ s.mutations.rows, m.objectId ≠ draw.attachmentId
  | .detach draw _ _,s => s.getMutation draw.manifestMutation = none ∧ s.getMutation draw.noteMutation = none ∧
    draw.manifestMutation ≠ draw.noteMutation

-- The whole edit, or heads and queue as they were.
def AllOrNothing (codec : NoteCodec Key Note) (files : AttachmentCodec Key Note File) (key : Key) (op : Op File) (s : Storage)
    (faults : Nat → Option StorageError) : Prop :=
  let left := (op.run codec files key ⟨s,faults,0⟩).2.storage
  let whole := op.run codec files key ⟨s,never,0⟩
  heads left = heads s ∨ (whole.1 = .ok () ∧ heads left = heads whole.2.storage)

-- The calls that finding a note takes.
def startLookups (s : Storage) (noteId : String) (includeDeleted : Bool) : Nat :=
  if 4 ≤ noteId.utf8ByteSize then
    if (s.listObjects ⟨some objectKindNote,includeDeleted⟩).filter (fun o => startsWith o.objectId noteId) = [] ∧ includeDeleted = false then 2 else 1
  else 0

def lookups (s : Storage) (noteId : String) (includeDeleted : Bool) : Nat :=
  match s.getObject noteId with
  | some obj => if obj.objectKind = objectKindNote then 1 else 1 + startLookups s noteId includeDeleted
  | none => 1 + startLookups s noteId includeDeleted

-- The call that writes the first head, unless the edit is refused before.
def opening (codec : NoteCodec Key Note) (files : AttachmentCodec Key Note File) (key : Key) : Op File → Storage → Option Nat
  | .create draw content,_ => do
    let note ← (codec.build content.title content.body content.tags none draw.now).toOption
    let _ ← (codec.encrypt draw.seed note key draw.objectId).toOption
    return 0
  | .update draw noteId content,s => do
    let stored ← (Notes.findNoteObject s noteId false).toOption
    let prior ← (codec.decrypt stored.envelope key).toOption
    let note ← (codec.build content.title content.body content.tags (some (codec.createdAt prior)) draw.now).toOption
    let _ ← (codec.encrypt draw.seed note key stored.objectId).toOption
    return lookups s noteId false + 1
  | .delete _ noteId purge,s => do
    let _ ← (Notes.findNoteObject s noteId purge).toOption
    return lookups s noteId purge + (if purge then 0 else 1)
  | .attach draw noteId file customName customMime,s => do
    let file ← file.toOption
    let stored ← (Notes.findNoteObject s noteId false).toOption
    let _ ← (codec.decrypt stored.envelope key).toOption
    let _ ← (files.encryptManifest draw.seed file draw.attachmentId customName customMime key).toOption
    return lookups s noteId false
  | .detach draw noteId attachmentId,s => do
    let stored ← (Notes.findNoteObject s noteId false).toOption
    let note ← (codec.decrypt stored.envelope key).toOption
    let note ← removeAttachmentFromNote files note attachmentId draw.later
    let _ ← (codec.encrypt draw.seed note key stored.objectId).toOption
    return lookups s noteId false

-- Whether `cmd_attach` can add the id and seal the note, which it asks once the
-- manifest is recorded.
def attachable (codec : NoteCodec Key Note) (files : AttachmentCodec Key Note File) (key : Key) (draw : AttachDraw) (noteId : String)
    (s : Storage) : Option Unit := do
  let stored ← (Notes.findNoteObject s noteId false).toOption
  let note ← (codec.decrypt stored.envelope key).toOption
  let note ← (addAttachmentToNote files note draw.attachmentId draw.later).toOption
  let _ ← (codec.encrypt draw.seed note key stored.objectId).toOption
  return ()

-- The calls after which the edit is complete, unless it is refused on the way.
def closing (codec : NoteCodec Key Note) (files : AttachmentCodec Key Note File) (key : Key) (op : Op File) (s : Storage) : Option Nat :=
  match op with
  | .create _ _ => (opening codec files key op s).map (· + 2)
  | .update _ _ _ => (opening codec files key op s).map (· + 2)
  | .delete _ _ purge => (opening codec files key op s).map (· + (if purge then 1 else 2))
  | .attach draw noteId _ _ _ => if (attachable codec files key draw noteId s).isSome then (opening codec files key op s).map (· + 4) else none
  | .detach _ _ attachmentId => (opening codec files key op s).map (· + (if (s.getObject attachmentId).isSome then 5 else 2))

-- A fault up to the first head, or none from there to the end.
def Clear (faults : Nat → Option StorageError) : Option Nat → Option Nat → Prop
  | none,_ => True
  | some i,last => (∃ k ≤ i, (faults k).isSome = true) ∨ ∃ j, last = some j ∧ ∀ k, i < k → k < j → faults k = none

theorem chart_iff {x : Edit Unit} {first last : Option Nat} {whole : Heads} (chart : Chart x s first last whole) (faults : Nat → Option StorageError) :
    (heads (x ⟨s,faults,0⟩).2.storage = heads s ∨
      ((x ⟨s,never,0⟩).1 = .ok () ∧ heads (x ⟨s,faults,0⟩).2.storage = heads (x ⟨s,never,0⟩).2.storage)) ↔ Clear faults first last := by
  cases opens : first with
  | none =>
      have kept := chart.refused opens faults 0
      exact ⟨fun _ => trivial,fun _ => .inl kept⟩
  | some i =>
      have zero : ∀ k, faults (0+k) = faults k := fun k => by rw [Nat.zero_add]
      constructor
      · intro held
        by_cases early : ∃ k ≤ i, (faults k).isSome = true
        · exact .inl early
        · have calm : ∀ k ≤ i, faults (0+k) = none := by
            intro k inside
            rw [zero]
            by_contra fault
            exact early ⟨k,inside,Option.isSome_iff_ne_none.mpr fault⟩
          have changed := chart.marked i opens faults 0 calm
          obtain ⟨ok,same⟩ := held.resolve_left (fun kept => changed (Prod.mk.inj kept).1)
          cases ends : last with
          | none =>
              obtain ⟨e,bad⟩ := chart.failed ends 0
              rw [bad] at ok
              cases ok
          | some j =>
              refine .inr ⟨j,rfl,?_⟩
              intro k above under
              by_contra fault
              have less := chart.short i j opens ends faults 0 calm ⟨k,above,under,by rw [zero]; exact Option.isSome_iff_ne_none.mpr fault⟩
              rw [(Prod.mk.inj same).2] at less
              have full := chart.complete j ends never 0 (fun _ _ => rfl)
              rw [← full] at less
              exact absurd less (Nat.lt_irrefl _)
      · intro clear
        rcases clear with ⟨k,inside,fault⟩ | ⟨j,ends,calm⟩
        · exact .inl (chart.early i opens faults 0 ⟨k,inside,by rw [zero]; exact fault⟩)
        · by_cases early : ∃ k ≤ i, (faults (0+k)).isSome = true
          · exact .inl (chart.early i opens faults 0 early)
          · right
            obtain ⟨a,ok⟩ := chart.done j ends 0
            refine ⟨ok,?_⟩
            have full : ∀ k < j, faults (0+k) = none := by
              intro k inside
              by_contra fault
              by_cases above : i < k
              · rw [zero] at fault
                exact fault (calm k above inside)
              · exact early ⟨k,by omega,Option.isSome_iff_ne_none.mpr fault⟩
            rw [chart.complete j ends faults 0 full,chart.complete j ends never 0 (fun _ _ => rfl)]

theorem start_same (same : heads t = heads s) (noteId : String) (includeDeleted : Bool) :
    startLookups t noteId includeDeleted = startLookups s noteId includeDeleted ∧
    Notes.findByStart t noteId includeDeleted = Notes.findByStart s noteId includeDeleted := by
  have objects : t.objects = s.objects := (Prod.mk.inj same).1
  unfold startLookups Notes.findByStart Storage.listObjects
  rw [objects]
  exact ⟨rfl,rfl⟩

theorem prepares_list (s : Storage) (filter : ObjectFilter) : Prepares (LocalEdits.listObjects filter) s 1 (some (s.listObjects filter)) :=
  prepares_call rfl rfl

theorem list_same (same : heads t = heads s) (filter : ObjectFilter) : t.listObjects filter = s.listObjects filter := by
  unfold Storage.listObjects
  rw [(Prod.mk.inj same).1]

theorem prepares_start (s : Storage) (noteId : String) (includeDeleted : Bool) : Prepares (LocalEdits.findByStart noteId includeDeleted) s
    (startLookups s noteId includeDeleted) (Notes.findByStart s noteId includeDeleted).toOption := by
  unfold LocalEdits.findByStart startLookups Notes.findByStart
  by_cases long : 4 ≤ noteId.utf8ByteSize
  · rw [if_pos long,if_pos long,if_pos long]
    cases listed : (s.listObjects ⟨some objectKindNote,includeDeleted⟩).filter (fun o => startsWith o.objectId noteId) with
    | nil =>
        cases includeDeleted with
        | true =>
            refine prepares_bind (m := 0) (prepares_list s _) ?_
            intro t same
            rw [listed]
            exact prepares_check _
        | false =>
            refine prepares_bind (m := 1) (prepares_list s _) ?_
            intro t same
            rw [listed]
            refine prepares_bind (m := 0) (prepares_list t _) ?_
            intro u same'
            rw [list_same same]
            cases (s.listObjects ⟨some objectKindNote,true⟩).filter (fun o => startsWith o.objectId noteId && o.isDeleted) with
            | nil => exact prepares_check _
            | cons obj rest => exact prepares_check _
    | cons obj rest =>
        have one : ¬(obj :: rest = [] ∧ includeDeleted = false) := fun both => by cases both.1
        rw [if_neg one]
        refine prepares_bind (m := 0) (prepares_list s _) ?_
        intro t same
        rw [listed]
        cases rest with
        | nil => exact prepares_check _
        | cons next rest => exact prepares_check _
  · rw [if_neg long,if_neg long,if_neg long]
    exact prepares_check _

theorem prepares_find (s : Storage) (noteId : String) (includeDeleted : Bool) : Prepares (LocalEdits.findNoteObject noteId includeDeleted) s
    (lookups s noteId includeDeleted) (Notes.findNoteObject s noteId includeDeleted).toOption := by
  have read : Prepares (LocalEdits.getObject noteId) s 1 (some (s.getObject noteId)) := prepares_call rfl rfl
  have start : ∀ t, heads t = heads s → Prepares (LocalEdits.findByStart noteId includeDeleted) t (startLookups s noteId includeDeleted)
      (Notes.findByStart s noteId includeDeleted).toOption := by
    intro t same
    obtain ⟨calls,found⟩ := start_same same noteId includeDeleted
    rw [← calls,← found]
    exact prepares_start t noteId includeDeleted
  unfold LocalEdits.findNoteObject lookups Notes.findNoteObject
  cases held : s.getObject noteId with
  | none =>
      rw [held] at read
      exact prepares_bind read start
  | some obj =>
      rw [held] at read
      by_cases note : obj.objectKind = objectKindNote
      · dsimp only
        rw [if_pos note,if_pos note]
        refine prepares_bind (m := 0) read ?_
        intro t same
        dsimp only
        rw [if_pos note]
        exact prepares_check _
      · dsimp only
        rw [if_neg note,if_neg note]
        refine prepares_bind read ?_
        intro t same
        dsimp only
        rw [if_neg note]
        exact start t same

-- An object's queued mutations follow on one another, up to its head.
def Consecutive (h : Heads) : Prop :=
  ∀ o head, h.1.find o = some head → ∃ base n, base + n = head.revision ∧
    (h.2.rows.filter (fun m => decide (m.objectId = o))).map (·.expectedRevision) = List.range' base n

theorem consecutive_recorded {h : Heads} {object : StoredEncryptedObject} {mutation : PendingMutation} (consecutive : Consecutive h)
    (target : mutation.objectId = object.objectId) (fresh : h.2.find mutation.mutationId = none)
    (revision : object.revision = mutation.expectedRevision + 1)
    (basis : (∃ prior, h.1.find object.objectId = some prior ∧ prior.revision = mutation.expectedRevision) ∨
      (mutation.expectedRevision = 0 ∧ ∀ m ∈ h.2.rows, m.objectId ≠ object.objectId)) : Consecutive (recorded h object mutation) := by
  intro o head found
  have rows : (recorded h object mutation).2.rows = h.2.rows ++ [mutation] := upsert_fresh_rows fresh
  have heads : (recorded h object mutation).1.find o = if object.objectId = o then some object else h.1.find o := find_upsert h.1 object o
  rw [heads] at found
  rw [rows,List.filter_append,List.map_append]
  by_cases same : object.objectId = o
  · rw [if_pos same] at found
    cases found
    have mine : [mutation].filter (fun m => decide (m.objectId = o)) = [mutation] := by simp [target,same]
    rw [mine]
    rcases basis with ⟨prior,held,is⟩ | ⟨zero,none⟩
    · obtain ⟨base,n,sum,queue⟩ := consecutive o prior (same ▸ held)
      refine ⟨base,n+1,by omega,?_⟩
      rw [queue,List.range'_concat,Nat.one_mul,sum,is]
      rfl
    · have empty : h.2.rows.filter (fun m => decide (m.objectId = o)) = [] := by
        apply List.filter_eq_nil_iff.mpr
        intro m inside
        simpa using fun is => none m inside (is.trans same.symm)
      refine ⟨0,1,by omega,?_⟩
      rw [empty]
      simp [zero]
  · rw [if_neg same] at found
    have other : [mutation].filter (fun m => decide (m.objectId = o)) = [] := by simp [target,same]
    rw [other]
    simpa using consecutive o head found

theorem consecutive_purged {h : Heads} (consecutive : Consecutive h) (objectId : String) :
    Consecutive (h.1.delete (fun o => o.objectId = objectId),h.2) := by
  intro o head found
  rw [find_delete] at found
  exact consecutive o head (Option.filter_eq_some_iff.mp found).1

variable {object : StoredEncryptedObject} {mutation : PendingMutation} {α β : Type}

-- An edit that ends with one record.
theorem chart_single {write : Edit Unit} (puts : Puts write s object) (fresh : s.getMutation mutation.mutationId = none)
    (new : s.getObject object.objectId ≠ some object) (a : α) :
    Chart (write >>= fun _ => enqueueMutation mutation >>= fun _ => pure a) s (some 0) (some 2) (recorded (heads s) object mutation) := by
  have longer : s.mutations.rows.length < (s.mutations.upsert mutation).rows.length := by
    rw [recorded_length fresh]
    exact Nat.lt_succ_self _
  have chart : Chart ((write >>= fun _ => enqueueMutation mutation) >>= fun _ => pure a) s (some 0) ((some 0).map (2 + ·))
      (recorded (heads s) object mutation) :=
    chart_record (P := fun objects => objects.find object.objectId = some object) puts fresh new
      (find_upsert_same s.objects object) (keeps_pure a) (chart_pure a _) (fun j is _ => (Option.some.inj is).symm) (fun _ => longer)
      (fun some => absurd rfl some)
  rw [bind_assoc] at chart
  exact chart

theorem newer_head {prior : StoredEncryptedObject} {objectId : String} (held : s.getObject objectId = some prior)
    (rises : object.revision = prior.revision + 1) : s.getObject objectId ≠ some object := by
  intro same
  rw [held] at same
  cases same
  omega

theorem same_object (same : heads t = heads s) (objectId : String) : t.getObject objectId = s.getObject objectId := by
  unfold Storage.getObject
  rw [(Prod.mk.inj same).1]

theorem same_mutation (same : heads t = heads s) (mutationId : String) : t.getMutation mutationId = s.getMutation mutationId := by
  unfold Storage.getMutation
  rw [(Prod.mk.inj same).2]

theorem prepares_base (s : Storage) (objectId : String) (revision : Nat) (envelope : EncryptedEnvelope) :
    Prepares (LocalEdits.putBaseVersion objectId revision envelope) s 1 (some ()) := prepares_call rfl rfl

-- What each edit's chart says, and that a whole edit keeps the queue in line.
def Charted (codec : NoteCodec Key Note) (files : AttachmentCodec Key Note File) (key : Key) (op : Op File) (s : Storage) : Prop :=
  ∃ whole, Chart (op.run codec files key) s (opening codec files key op s) (closing codec files key op s) whole ∧
    ((closing codec files key op s).isSome = true → Consecutive (heads s) → Consecutive whole)

theorem charted_of {op : Op File} {first last : Option Nat} (whole : Heads) (opens : opening codec files key op s = first)
    (closes : closing codec files key op s = last) (chart : Chart (op.run codec files key) s first last whole)
    (line : Consecutive (heads s) → Consecutive whole) : Charted codec files key op s := by
  rw [← opens,← closes] at chart
  exact ⟨whole,chart,fun _ => line⟩

theorem charted_refused {op : Op File} (opens : opening codec files key op s = none)
    (chart : Chart (op.run codec files key) s none none (heads s)) : Charted codec files key op s := by
  have closes : closing codec files key op s = none := by
    unfold closing
    cases op with
    | attach draw noteId file customName customMime =>
        dsimp only
        rw [opens]
        split <;> rfl
    | _ => simp only [opens,Option.map_none]
  exact charted_of (heads s) opens closes chart id

theorem chart_after_none {x : Edit α} {g : α → Edit β} {a : α} {n : Nat} {whole : Heads} (one : Prepares x s n (some a))
    (two : ∀ t, heads t = heads s → Chart (g a) t none none whole) : Chart (x >>= g) s none none whole := by
  simpa using chart_after one two

theorem chart_shift {x : Edit α} {g : α → Edit β} {a : α} {n i j : Nat} {whole : Heads} (one : Prepares x s n (some a))
    (two : ∀ t, heads t = heads s → Chart (g a) t (some i) (some j) whole) : Chart (x >>= g) s (some (n+i)) (some (n+j)) whole :=
  chart_after one two

theorem chart_failing {x : Edit α} {g : α → Edit β} {a : α} {n i : Nat} {whole : Heads} (one : Prepares x s n (some a))
    (two : ∀ t, heads t = heads s → Chart (g a) t (some i) none whole) : Chart (x >>= g) s (some (n+i)) none whole :=
  chart_after one two

-- A note's next revision, on any tables with the same heads and queue.
theorem chart_next {stored : StoredEncryptedObject} (held : s.getObject stored.objectId = some stored) {mutationId : String}
    (unused : s.getMutation mutationId = none) (same : heads t = heads s) (envelope : EncryptedEnvelope) (now : String) (a : α) :
    Chart (record (nextHead stored envelope now) (nextMutation stored envelope mutationId now) >>= fun _ => pure a) t (some 0) (some 2)
      (recorded (heads s) (nextHead stored envelope now) (nextMutation stored envelope mutationId now)) := by
  have held' : t.getObject stored.objectId = some stored := (same_object same _).trans held
  have unused' : t.getMutation mutationId = none := (same_mutation same _).trans unused
  have newer : t.getObject stored.objectId ≠ some (nextHead stored envelope now) := newer_head held' rfl
  rw [← same,record,bind_assoc]
  exact chart_single (puts_object t _) unused' newer a

theorem consecutive_next {stored : StoredEncryptedObject} (held : s.getObject stored.objectId = some stored) {mutationId : String}
    (unused : s.getMutation mutationId = none) (envelope : EncryptedEnvelope) (now : String) (line : Consecutive (heads s)) :
    Consecutive (recorded (heads s) (nextHead stored envelope now) (nextMutation stored envelope mutationId now)) :=
  consecutive_recorded line rfl unused rfl (.inl ⟨stored,held,rfl⟩)

theorem create_charted (draw : Draw) (content : Content) (fresh : Fresh (.create draw content : Op File) s) :
    Charted codec files key (.create draw content) s := by
  obtain ⟨unused,absent,free⟩ := fresh
  cases build : codec.build content.title content.body content.tags none draw.now with
  | error e =>
      apply charted_refused
      · simp [opening,build,Except.toOption]
      · apply chart_dropResult
        rw [LocalEdits.createNote,build,core_error]
        exact chart_error _ s _
  | ok note =>
      cases sealed : codec.encrypt draw.seed note key draw.objectId with
      | error e =>
          apply charted_refused
          · simp [opening,build,sealed,Except.toOption]
          · apply chart_dropResult
            rw [LocalEdits.createNote,build,core_ok,sealed,core_error]
            exact chart_error _ s _
      | ok envelope =>
          have opens : opening codec files key (.create draw content) s = some 0 := by simp [opening,build,sealed,Except.toOption]
          apply charted_of _ opens (congrArg (Option.map (· + 2)) opens)
          · apply chart_dropResult
            rw [LocalEdits.createNote,build,core_ok,sealed,core_ok,record,bind_assoc]
            apply chart_single (puts_object s _) unused
            rw [absent]
            exact fun is => by cases is
          · intro line
            exact consecutive_recorded line rfl unused rfl (.inr ⟨rfl,free⟩)

theorem prepares_missing {noteId : String} {includeDeleted : Bool} {e : CliError} (missing : Notes.findNoteObject s noteId includeDeleted = .error e) :
    Prepares (LocalEdits.findNoteObject noteId includeDeleted) s (lookups s noteId includeDeleted) none := by
  have finds := prepares_find s noteId includeDeleted
  rw [missing] at finds
  exact finds

theorem prepares_found {noteId : String} {includeDeleted : Bool} {stored : StoredEncryptedObject}
    (found : Notes.findNoteObject s noteId includeDeleted = .ok stored) :
    Prepares (LocalEdits.findNoteObject noteId includeDeleted) s (lookups s noteId includeDeleted) (some stored) := by
  have finds := prepares_find s noteId includeDeleted
  rw [found] at finds
  exact finds

theorem update_charted (draw : Draw) (noteId : String) (content : Content) (fresh : Fresh (.update draw noteId content : Op File) s) :
    Charted codec files key (.update draw noteId content) s := by
  cases found : Notes.findNoteObject s noteId false with
  | error e =>
      apply charted_refused
      · simp [opening,found,Except.toOption]
      · exact chart_dropResult (chart_refused (prepares_missing found))
  | ok stored =>
      obtain ⟨held,_⟩ := NoteEdits.note_found found
      have finds := prepares_found found
      cases unsealed : codec.decrypt stored.envelope key with
      | error e =>
          apply charted_refused
          · simp [opening,found,unsealed,Except.toOption]
          · apply chart_dropResult
            apply chart_after_none finds
            intro t same
            rw [unsealed,core_error]
            exact chart_error _ t _
      | ok prior =>
          cases build : codec.build content.title content.body content.tags (some (codec.createdAt prior)) draw.now with
          | error e =>
              apply charted_refused
              · simp [opening,found,unsealed,build,Except.toOption]
              · apply chart_dropResult
                apply chart_after_none finds
                intro t same
                rw [unsealed,core_ok,build,core_error]
                exact chart_error _ t _
          | ok note =>
              cases sealed : codec.encrypt draw.seed note key stored.objectId with
              | error e =>
                  apply charted_refused
                  · simp [opening,found,unsealed,build,sealed,Except.toOption]
                  · apply chart_dropResult
                    apply chart_after_none finds
                    intro t same
                    rw [unsealed,core_ok,build,core_ok]
                    apply chart_after_none (prepares_base t _ _ _)
                    intro u same'
                    rw [sealed,core_error]
                    exact chart_error _ u _
              | ok envelope =>
                  have opens : opening codec files key (.update draw noteId content) s = some (lookups s noteId false + 1) := by
                    simp [opening,found,unsealed,build,sealed,Except.toOption]
                  have chart : Chart (LocalEdits.updateNote codec key draw noteId content) s (some (lookups s noteId false + (1+0)))
                      (some (lookups s noteId false + (1+2)))
                      (recorded (heads s) (nextHead stored envelope draw.now) (nextMutation stored envelope draw.mutationId draw.now)) := by
                    apply chart_shift finds
                    intro t same
                    rw [unsealed,core_ok,build,core_ok]
                    apply chart_shift (prepares_base t _ _ _)
                    intro u same'
                    rw [sealed,core_ok]
                    exact chart_next held fresh (same'.trans same) envelope draw.now _
                  exact charted_of _ opens (congrArg (Option.map (· + 2)) opens) (chart_dropResult chart) (consecutive_next held fresh envelope draw.now)

theorem delete_charted (draw : Draw) (noteId : String) (fresh : Fresh (.delete draw noteId false : Op File) s) :
    Charted codec files key (.delete draw noteId false) s := by
  cases found : Notes.findNoteObject s noteId false with
  | error e =>
      apply charted_refused
      · simp [opening,found,Except.toOption]
      · exact chart_dropResult (chart_refused (prepares_missing found))
  | ok stored =>
      obtain ⟨held,_⟩ := NoteEdits.note_found found
      have opens : opening codec files key (.delete draw noteId false) s = some (lookups s noteId false + 1) := by
        simp [opening,found,Except.toOption]
      -- `mark_deleted` keeps the other columns of the row that was found.
      let tombstone : StoredEncryptedObject :=
        {stored with revision := stored.revision+1, isDeleted := true, envelope := stored.envelope, updatedAt := draw.now}
      let queue : PendingMutation :=
        ⟨draw.mutationId,stored.objectId,stored.revision,objectKindNote,.delete,stored.envelope,draw.now,0,.pending⟩
      have chart : Chart (LocalEdits.deleteNote draw noteId false) s (some (lookups s noteId false + (1+0))) (some (lookups s noteId false + (1+2)))
          (recorded (heads s) tombstone queue) := by
        apply chart_shift (prepares_found found)
        intro t same
        rw [if_neg Bool.false_ne_true]
        apply chart_shift (prepares_base t _ _ _)
        intro u same'
        have both := same'.trans same
        have held' : u.getObject stored.objectId = some stored := (same_object both _).trans held
        have marks : Puts (LocalEdits.markDeleted stored.objectId (stored.revision+1) stored.envelope draw.now) u tombstone := by
          refine ⟨fun f c calm => call_ok calm ?_,fun _ _ _ fault => call_fault fault⟩
          rw [Storage.markDeleted,show u.objects.find stored.objectId = some stored from held']
          rfl
        have newer : u.getObject stored.objectId ≠ some tombstone := newer_head held' rfl
        have unused : u.getMutation draw.mutationId = none := (same_mutation both _).trans fresh
        rw [← both]
        exact chart_single marks unused newer _
      refine charted_of _ opens (congrArg (Option.map (· + 2)) opens) (chart_dropResult chart) ?_
      intro line
      exact consecutive_recorded line rfl fresh rfl (.inl ⟨stored,held,rfl⟩)

-- A purge queues nothing, and its second call only drops base versions.
theorem chart_purge {stored : StoredEncryptedObject} (held : s.getObject stored.objectId = some stored) (a : α) :
    Chart (LocalEdits.purgeObject stored.objectId >>= fun _ => LocalEdits.clearBaseVersions stored.objectId >>= fun _ => pure a) s (some 0) (some 1)
      (s.objects.delete (fun o => o.objectId = stored.objectId),s.mutations) := by
  have fails : ∀ (f : Nat → Option StorageError) c, (f c).isSome = true →
      heads ((LocalEdits.purgeObject stored.objectId >>= fun _ => LocalEdits.clearBaseVersions stored.objectId >>= fun _ => pure a) ⟨s,f,c⟩).2.storage =
        heads s := by
    intro f c fault
    obtain ⟨e,is⟩ := Option.isSome_iff_exists.mp fault
    have stopped : LocalEdits.purgeObject stored.objectId ⟨s,f,c⟩ = (.error (.storage e),⟨s,f,c+1⟩) := call_fault is
    rw [bind_error stopped]
  have goes : ∀ (f : Nat → Option StorageError) c, f c = none →
      heads ((LocalEdits.purgeObject stored.objectId >>= fun _ => LocalEdits.clearBaseVersions stored.objectId >>= fun _ => pure a) ⟨s,f,c⟩).2.storage =
        (s.objects.delete (fun o => o.objectId = stored.objectId),s.mutations) := by
    intro f c calm
    have purged : LocalEdits.purgeObject stored.objectId ⟨s,f,c⟩ = (.ok (),⟨s.purgeObject stored.objectId,f,c+1⟩) := call_ok calm rfl
    rw [bind_ok purged]
    cases fault : f (c+1) with
    | some e =>
        have stopped : LocalEdits.clearBaseVersions stored.objectId ⟨s.purgeObject stored.objectId,f,c+1⟩ =
            (.error (.storage e),⟨s.purgeObject stored.objectId,f,c+1+1⟩) := call_fault fault
        rw [bind_error stopped]
        rfl
    | none =>
        have cleared : LocalEdits.clearBaseVersions stored.objectId ⟨s.purgeObject stored.objectId,f,c+1⟩ =
            (.ok (),⟨(s.purgeObject stored.objectId).clearBaseVersions stored.objectId,f,c+1+1⟩) := call_ok fault rfl
        rw [bind_ok cleared]
        rfl
  refine ⟨(fun none => by cases none),?_,?_,?_,?_,(fun none => by cases none),?_⟩
  · intro i is f c fault
    cases is
    obtain ⟨k,inside,here⟩ := fault
    have zero : k = 0 := by omega
    rw [zero] at here
    exact fails f c here
  · intro i is f c calm same
    have purged := goes f c (calm 0 (Nat.zero_le i))
    rw [(Prod.mk.inj purged).1] at same
    have gone := find_delete s.objects (fun o => decide (o.objectId = stored.objectId)) stored.objectId
    rw [same,show s.objects.find stored.objectId = some stored from held,Option.filter_some] at gone
    simp at gone
  · intro j is f c calm
    cases is
    exact goes f c (calm 0 Nat.one_pos)
  · intro j is c
    exact ⟨a,rfl⟩
  · intro i j isI isJ f c calm fault
    cases isI
    cases isJ
    obtain ⟨k,above,under,_⟩ := fault
    omega

theorem purge_charted (draw : Draw) (noteId : String) : Charted codec files key (.delete draw noteId true : Op File) s := by
  cases found : Notes.findNoteObject s noteId true with
  | error e =>
      apply charted_refused
      · simp [opening,found,Except.toOption]
      · exact chart_dropResult (chart_refused (prepares_missing found))
  | ok stored =>
      obtain ⟨held,_⟩ := NoteEdits.note_found found
      have opens : opening codec files key (.delete draw noteId true : Op File) s = some (lookups s noteId true + 0) := by
        simp [opening,found,Except.toOption]
      have chart : Chart (LocalEdits.deleteNote draw noteId true) s (some (lookups s noteId true + 0)) (some (lookups s noteId true + 1))
          (s.objects.delete (fun o => o.objectId = stored.objectId),s.mutations) := by
        apply chart_shift (prepares_found found)
        intro t same
        rw [if_pos rfl,← (Prod.mk.inj same).1,← (Prod.mk.inj same).2]
        exact chart_purge ((same_object same _).trans held) _
      exact charted_of _ opens (congrArg (Option.map (· + 1)) opens) (chart_dropResult chart) (fun line => consecutive_purged line stored.objectId)

def afterRecord (s : Storage) (object : StoredEncryptedObject) (mutation : PendingMutation) : Storage :=
  {s with objects := s.objects.upsert object, mutations := s.mutations.upsert mutation}

theorem unused_after {mutationId : String} (unused : s.getMutation mutationId = none) (other : mutation.mutationId ≠ mutationId) :
    (afterRecord s object mutation).getMutation mutationId = none := (find_upsert_other s.mutations mutation other).trans unused

theorem held_after {objectId : String} {stored : StoredEncryptedObject} (held : s.getObject objectId = some stored) (other : object.objectId ≠ objectId) :
    (afterRecord s object mutation).getObject objectId = some stored := (find_upsert_other s.objects object other).trans held

theorem known_after {stored : StoredEncryptedObject} (object : StoredEncryptedObject) (mutation : PendingMutation) (held : s.getObject stored.objectId = some stored)
    (same : object.objectId = stored.objectId) (objectId : String) :
    ((afterRecord s object mutation).getObject objectId).isSome = (s.getObject objectId).isSome := by
  have found : (afterRecord s object mutation).getObject objectId = if object.objectId = objectId then some object else s.getObject objectId :=
    find_upsert s.objects object objectId
  rw [found]
  split
  · rename_i is
    rw [← is,same,held]
    rfl
  · rfl

-- Two queue entries more.
theorem twice_length (next : PendingMutation) (unused : s.getMutation mutation.mutationId = none)
    (unused' : (afterRecord s object mutation).getMutation next.mutationId = none) :
    ((s.mutations.upsert mutation).upsert next).rows.length = s.mutations.rows.length + 1 + 1 := by
  have second := recorded_length (s := afterRecord s object mutation) unused'
  rw [← recorded_length unused]
  exact second

theorem keeps_record {P : Table String StoredEncryptedObject (·.objectId) → Prop} (mutation : PendingMutation)
    (steady : ∀ objects, P objects → P (objects.upsert object)) : Keeps P (record object mutation) :=
  keeps_bind (keeps_put steady) (fun _ => keeps_enqueue mutation)

-- A record, and then another.
theorem chart_record_then {P : Table String StoredEncryptedObject (·.objectId) → Prop} {rest : Unit → Edit α} {i j : Nat} {whole : Heads}
    (unused : s.getMutation mutation.mutationId = none) (unlike : ¬P s.objects) (like : P (s.objects.upsert object)) (kept : Keeps P (rest ()))
    (chart : Chart (rest ()) (afterRecord s object mutation) (some i) (some j) whole) (more : s.mutations.rows.length + 1 < whole.2.rows.length) :
    Chart (record object mutation >>= rest) s (some 0) (some (2+j)) whole := by
  apply chart_record (puts_object s object) unused unlike like kept chart
  · intro _ _ none
    cases none
  · intro _
    omega
  · intro _ _
    exact more

-- A record, and then nothing that matters.
theorem chart_record_last {P : Table String StoredEncryptedObject (·.objectId) → Prop} {rest : Unit → Edit α} {whole : Heads}
    (unused : s.getMutation mutation.mutationId = none) (unlike : ¬P s.objects) (like : P (s.objects.upsert object)) (kept : Keeps P (rest ()))
    (chart : Chart (rest ()) (afterRecord s object mutation) none (some 0) whole) (longer : s.mutations.rows.length < whole.2.rows.length) :
    Chart (record object mutation >>= rest) s (some 0) (some 2) whole := by
  apply chart_record (puts_object s object) unused unlike like kept chart
  · intro j is _
    exact (Option.some.inj is).symm
  · intro _
    exact longer
  · intro no
    exact absurd rfl no

-- A record, and then the edit is refused.
theorem chart_record_error {write : Edit Unit} {rest : Unit → Edit α} {e : CliError} {whole : Heads} (puts : Puts write s object)
    (unused : s.getMutation mutation.mutationId = none) (new : s.getObject object.objectId ≠ some object) (refused : rest () = check (.error e)) :
    Chart ((write >>= fun _ => enqueueMutation mutation) >>= rest) s (some 0) none whole := by
  have chart : Chart (rest ()) (afterRecord s object mutation) none none whole := by
    rw [refused]
    exact chart_error e _ _
  have kept : Keeps (fun objects => objects.find object.objectId = some object) (rest ()) := by
    rw [refused]
    exact keeps_check _
  exact chart_record puts unused new (find_upsert_same s.objects object) kept chart (fun _ is => by cases is) (fun is => absurd rfl is)
    (fun is => absurd rfl is)

-- `cmd_attach` once the file is read, and once the note is found.
def attachTo (codec : NoteCodec Key Note) (files : AttachmentCodec Key Note File) (key : Key) (draw : AttachDraw) (contents : File)
    (customName customMime : Option String) (stored : StoredEncryptedObject) : Edit String := do
  let note ← core (codec.decrypt stored.envelope key)
  let manifest ← core (files.encryptManifest draw.seed contents draw.attachmentId customName customMime key)
  record ⟨draw.attachmentId,objectKindAttachmentManifest,initialObjectRevision,initialServerSeq,false,manifest,draw.now⟩
    ⟨draw.manifestMutation,draw.attachmentId,initialExpectedRevision,objectKindAttachmentManifest,.upsert,manifest,draw.now,0,.pending⟩
  let note ← core (addAttachmentToNote files note draw.attachmentId draw.later)
  let envelope ← core (codec.encrypt draw.seed note key stored.objectId)
  record (nextHead stored envelope draw.now) (nextMutation stored envelope draw.noteMutation draw.now)
  return draw.attachmentId

theorem attach_read (draw : AttachDraw) (noteId : String) (contents : File) (customName customMime : Option String) :
    cmdAttach codec files key draw noteId (.ok contents) customName customMime =
      LocalEdits.findNoteObject noteId false >>= attachTo codec files key draw contents customName customMime := rfl

theorem attach_charted (draw : AttachDraw) (noteId : String) (file : Except String File) (customName customMime : Option String)
    (fresh : Fresh (.attach draw noteId file customName customMime) s) : Charted codec files key (.attach draw noteId file customName customMime) s := by
  obtain ⟨unused,unused',apart,absent,free⟩ := fresh
  cases file with
  | error e =>
      apply charted_refused
      · simp [opening,Except.toOption]
      · apply chart_dropResult
        exact chart_error _ s _
  | ok contents =>
      cases found : Notes.findNoteObject s noteId false with
      | error e =>
          apply charted_refused
          · simp [opening,found,Except.toOption]
          · apply chart_dropResult
            rw [attach_read]
            exact chart_refused (prepares_missing found)
      | ok stored =>
          obtain ⟨held,_⟩ := NoteEdits.note_found found
          have finds := prepares_found found
          cases unsealed : codec.decrypt stored.envelope key with
          | error e =>
              apply charted_refused
              · simp [opening,found,unsealed,Except.toOption]
              · apply chart_dropResult
                rw [attach_read]
                apply chart_after_none finds
                intro t same
                rw [attachTo,unsealed,core_error]
                exact chart_error _ t _
          | ok note =>
              cases manifested : files.encryptManifest draw.seed contents draw.attachmentId customName customMime key with
              | error e =>
                  apply charted_refused
                  · simp [opening,found,unsealed,manifested,Except.toOption]
                  · apply chart_dropResult
                    rw [attach_read]
                    apply chart_after_none finds
                    intro t same
                    rw [attachTo,unsealed,core_ok,manifested,core_error]
                    exact chart_error _ t _
              | ok manifest =>
                  have opens : opening codec files key (.attach draw noteId (.ok contents) customName customMime) s = some (lookups s noteId false + 0) := by
                    simp [opening,found,unsealed,manifested,Except.toOption]
                  let first : StoredEncryptedObject :=
                    ⟨draw.attachmentId,objectKindAttachmentManifest,initialObjectRevision,initialServerSeq,false,manifest,draw.now⟩
                  let queue : PendingMutation :=
                    ⟨draw.manifestMutation,draw.attachmentId,initialExpectedRevision,objectKindAttachmentManifest,.upsert,manifest,draw.now,0,.pending⟩
                  have apart' : first.objectId ≠ stored.objectId := by
                    intro is
                    rw [show s.getObject draw.attachmentId = some stored from (congrArg s.getObject is).trans held] at absent
                    cases absent
                  have absent' : ∀ t, heads t = heads s → t.getObject draw.attachmentId ≠ some first := by
                    intro t same
                    rw [same_object same,absent]
                    exact fun is => by cases is
                  cases added : addAttachmentToNote files note draw.attachmentId draw.later with
                  | error e =>
                      have closes : closing codec files key (.attach draw noteId (.ok contents) customName customMime) s = none := by
                        simp [closing,attachable,found,unsealed,added,Except.toOption]
                      refine charted_of (heads s) opens closes (chart_dropResult ?_) id
                      rw [attach_read]
                      apply chart_failing finds
                      intro t same
                      rw [attachTo,unsealed,core_ok,manifested,core_ok,added,core_error]
                      exact chart_record_error (puts_object t first) ((same_mutation same _).trans unused) (absent' t same) rfl
                  | ok note' =>
                      cases sealed : codec.encrypt draw.seed note' key stored.objectId with
                      | error e =>
                          have closes : closing codec files key (.attach draw noteId (.ok contents) customName customMime) s = none := by
                            simp [closing,attachable,found,unsealed,added,sealed,Except.toOption]
                          refine charted_of (heads s) opens closes (chart_dropResult ?_) id
                          rw [attach_read]
                          apply chart_failing finds
                          intro t same
                          rw [attachTo,unsealed,core_ok,manifested,core_ok,added,core_ok,sealed,core_error]
                          exact chart_record_error (puts_object t first) ((same_mutation same _).trans unused) (absent' t same) rfl
                      | ok envelope =>
                          have closes : closing codec files key (.attach draw noteId (.ok contents) customName customMime) s =
                              some (lookups s noteId false + (2+2)) := by
                            simp [closing,attachable,opens,found,unsealed,added,sealed,Except.toOption]
                          have later : (afterRecord s first queue).getObject stored.objectId = some stored := held_after held apart'
                          have unused₂ : (afterRecord s first queue).getMutation draw.noteMutation = none := unused_after unused' apart
                          refine charted_of (recorded (recorded (heads s) first queue) (nextHead stored envelope draw.now)
                            (nextMutation stored envelope draw.noteMutation draw.now)) opens closes (chart_dropResult ?_) ?_
                          · rw [attach_read]
                            apply chart_shift finds
                            intro t same
                            rw [attachTo,unsealed,core_ok,manifested,core_ok,added,core_ok,sealed,core_ok]
                            have next := chart_next later unused₂ (t := afterRecord t first queue) (congrArg (fun h => recorded h first queue) same)
                              envelope draw.now draw.attachmentId
                            have length := twice_length (nextMutation stored envelope draw.noteMutation draw.now) unused unused₂
                            have length' : t.mutations.rows.length = s.mutations.rows.length := by rw [(Prod.mk.inj same).2]
                            refine chart_record_then (P := fun objects => objects.find draw.attachmentId = some first) ((same_mutation same _).trans unused) (absent' t same) (find_upsert_same t.objects first) ?_ next ?_
                            · refine keeps_bind (keeps_record _ ?_) (fun _ => keeps_pure _)
                              intro objects held
                              exact (find_upsert_other objects (nextHead stored envelope draw.now) (fun is => apart' is.symm)).trans held
                            · show t.mutations.rows.length + 1 < ((s.mutations.upsert queue).upsert _).rows.length
                              omega
                          · intro line
                            have middle : Consecutive (recorded (heads s) first queue) := consecutive_recorded line rfl unused rfl (.inr ⟨rfl,free⟩)
                            exact consecutive_next later unused₂ envelope draw.now middle

-- A read whose fault reads as nothing found.
theorem read_then {g : Option StoredEncryptedObject → Edit α} (objectId : String) (s : Storage) (f : Nat → Option StorageError) (c : Nat) :
    (attempt (LocalEdits.getObject objectId) >>= g) ⟨s,f,c⟩ = g (if (f c).isSome then none else s.getObject objectId) ⟨s,f,c+1⟩ := by
  cases fault : f c with
  | some e =>
      have read : LocalEdits.getObject objectId ⟨s,f,c⟩ = (.error (.storage e),⟨s,f,c+1⟩) := call_fault fault
      have tried : attempt (LocalEdits.getObject objectId) ⟨s,f,c⟩ = (.ok none,⟨s,f,c+1⟩) := by rw [attempt,read]
      rw [bind_ok tried]
      rfl
  | none =>
      have read : LocalEdits.getObject objectId ⟨s,f,c⟩ = (.ok (s.getObject objectId),⟨s,f,c+1⟩) := call_ok fault rfl
      have tried : attempt (LocalEdits.getObject objectId) ⟨s,f,c⟩ = (.ok (s.getObject objectId),⟨s,f,c+1⟩) := by rw [attempt,read]
      rw [bind_ok tried]
      rfl

theorem bind_pure (x : Edit Unit) : (x >>= fun _ => pure ()) = x := by
  funext d
  cases ran : x d with
  | mk result d' =>
      cases result with
      | error e => rw [bind_error ran]
      | ok a =>
          rw [bind_ok ran]
          rfl

-- What `cmd_detach` does of the manifest once the note is recorded.
def detachManifest (draw : AttachDraw) (attachmentId : String) : Option StoredEncryptedObject → Edit Unit
  | none => pure ()
  | some manifest =>
    record ⟨attachmentId,objectKindAttachmentManifest,manifest.revision+1,manifest.serverSeq,true,manifest.envelope,draw.now⟩
      ⟨draw.manifestMutation,attachmentId,manifest.revision,objectKindAttachmentManifest,.delete,manifest.envelope,draw.now,0,.pending⟩

theorem chart_no_manifest (draw : AttachDraw) {attachmentId : String} (missing : s.getObject attachmentId = none) :
    Chart (attempt (LocalEdits.getObject attachmentId) >>= detachManifest draw attachmentId) s none (some 0) (heads s) := by
  have same : ∀ f c, (attempt (LocalEdits.getObject attachmentId) >>= detachManifest draw attachmentId) ⟨s,f,c⟩ = (.ok (),⟨s,f,c+1⟩) := by
    intro f c
    rw [read_then,missing,ite_self]
    rfl
  refine ⟨?_,(fun i is => by cases is),(fun i is => by cases is),?_,?_,(fun none => by cases none),(fun i j is => by cases is)⟩
  · intro _ f c
    rw [same]
  · intro j _ f c _
    rw [same]
  · intro j _ c
    exact ⟨(),congrArg Prod.fst (same never c)⟩

theorem chart_read {objectId : String} {g : Option StoredEncryptedObject → Edit Unit} {found : StoredEncryptedObject} {i j : Nat} {whole : Heads}
    (held : s.getObject objectId = some found) (skip : g none = pure ()) (chart : Chart (g (some found)) s (some i) (some j) whole) :
    Chart (attempt (LocalEdits.getObject objectId) >>= g) s (some (1+i)) (some (1+j)) whole := by
  have faulty : ∀ (f : Nat → Option StorageError) c, (f c).isSome = true →
      (attempt (LocalEdits.getObject objectId) >>= g) ⟨s,f,c⟩ = (.ok (),⟨s,f,c+1⟩) := by
    intro f c fault
    rw [read_then,if_pos fault,skip]
    rfl
  have goes : ∀ (f : Nat → Option StorageError) c, f c = none →
      (attempt (LocalEdits.getObject objectId) >>= g) ⟨s,f,c⟩ = g (some found) ⟨s,f,c+1⟩ := by
    intro f c calm
    rw [read_then,calm,held]
    rfl
  refine ⟨(fun none => by cases none),?_,?_,?_,?_,(fun none => by cases none),?_⟩
  · intro k is f c fault
    cases is
    cases first : f c with
    | some e => rw [faulty f c (by rw [first]; rfl)]
    | none =>
        obtain ⟨k,inside,here⟩ := fault
        have calm : ∀ m < 1, f (c+m) = none := by
          intro m low
          rw [show m = 0 by omega]
          exact first
        obtain ⟨beyond,there⟩ := fault_later calm here
        rw [goes f c first]
        exact chart.early i rfl f (c+1) ⟨k-1,by omega,there⟩
  · intro k is f c calm
    cases is
    rw [goes f c (calm 0 (Nat.zero_le _))]
    obtain ⟨_,after⟩ := calm_later (n := 1) (i := i+1) (fun m low => calm m (by omega))
    exact chart.marked i rfl f (c+1) (fun m low => after m (by omega))
  · intro k is f c calm
    cases is
    rw [goes f c (calm 0 (by omega))]
    exact chart.complete j rfl f (c+1) (calm_later calm).2
  · intro k is c
    rw [goes never c rfl]
    exact chart.done j rfl (c+1)
  · intro k l isK isL f c calm fault
    cases isK
    cases isL
    have first := calm 0 (Nat.zero_le _)
    have one : ∀ m < 1, f (c+m) = none := by
      intro m low
      rw [show m = 0 by omega]
      exact first
    obtain ⟨_,after⟩ := calm_later (n := 1) (i := i+1) (fun m low => calm m (by omega))
    obtain ⟨k,above,under,here⟩ := fault
    obtain ⟨beyond,there⟩ := fault_later one here
    rw [goes f c first]
    exact chart.short i j rfl rfl f (c+1) (fun m low => after m (by omega)) ⟨k-1,by omega,by omega,there⟩

def tombstone (draw : AttachDraw) (attachmentId : String) (manifest : StoredEncryptedObject) : StoredEncryptedObject :=
  ⟨attachmentId,objectKindAttachmentManifest,manifest.revision+1,manifest.serverSeq,true,manifest.envelope,draw.now⟩

def tombstoneMutation (draw : AttachDraw) (attachmentId : String) (manifest : StoredEncryptedObject) : PendingMutation :=
  ⟨draw.manifestMutation,attachmentId,manifest.revision,objectKindAttachmentManifest,.delete,manifest.envelope,draw.now,0,.pending⟩

theorem chart_manifest (draw : AttachDraw) {attachmentId : String} {manifest : StoredEncryptedObject} (held : s.getObject attachmentId = some manifest)
    (unused : s.getMutation draw.manifestMutation = none) :
    Chart (attempt (LocalEdits.getObject attachmentId) >>= detachManifest draw attachmentId) s (some 1) (some 3)
      (recorded (heads s) (tombstone draw attachmentId manifest) (tombstoneMutation draw attachmentId manifest)) := by
  have newer : s.getObject attachmentId ≠ some (tombstone draw attachmentId manifest) := newer_head held rfl
  have unused' : s.getMutation (tombstoneMutation draw attachmentId manifest).mutationId = none := unused
  have chart := chart_single (puts_object s (tombstone draw attachmentId manifest)) unused' newer ()
  rw [← bind_assoc,bind_pure] at chart
  exact chart_read (g := detachManifest draw attachmentId) held rfl chart

-- `cmd_detach` once the note is found.
def detachFrom (codec : NoteCodec Key Note) (files : AttachmentCodec Key Note File) (key : Key) (draw : AttachDraw) (attachmentId : String)
    (stored : StoredEncryptedObject) : Edit Unit := do
  let note ← core (codec.decrypt stored.envelope key)
  let note ← check (match removeAttachmentFromNote files note attachmentId draw.later with
    | none => .error (.io s!"attachment '{attachmentId}' not found on note '{stored.objectId}'")
    | some note => .ok note)
  let envelope ← core (codec.encrypt draw.seed note key stored.objectId)
  record (nextHead stored envelope draw.now) (nextMutation stored envelope draw.noteMutation draw.now)
  attempt (LocalEdits.getObject attachmentId) >>= detachManifest draw attachmentId

theorem detach_found (draw : AttachDraw) (noteId attachmentId : String) :
    cmdDetach codec files key draw noteId attachmentId = LocalEdits.findNoteObject noteId false >>= detachFrom codec files key draw attachmentId := rfl

-- The note's newer revision outlasts whatever becomes of the manifest.
theorem keeps_detach (draw : AttachDraw) (attachmentId noteId : String) (revision : Nat) :
    Keeps (fun objects => ∃ row, objects.find noteId = some row ∧ revision < row.revision)
      (attempt (LocalEdits.getObject attachmentId) >>= detachManifest draw attachmentId) := by
  intro d newer
  obtain ⟨s,f,c⟩ := d
  rw [read_then]
  split
  · exact newer
  · cases held : s.getObject attachmentId with
    | none => exact newer
    | some manifest =>
        have steady : (fun objects : Table String StoredEncryptedObject (·.objectId) => ∃ row, objects.find noteId = some row ∧ revision < row.revision)
            (s.objects.upsert (tombstone draw attachmentId manifest)) := by
          obtain ⟨row,found,above⟩ := newer
          by_cases same : attachmentId = noteId
          · subst same
            rw [show s.objects.find attachmentId = some manifest from held] at found
            cases found
            exact ⟨_,find_upsert_same s.objects (tombstone draw attachmentId manifest),Nat.lt_succ_of_lt above⟩
          · exact ⟨row,(find_upsert_other s.objects (tombstone draw attachmentId manifest) same).trans found,above⟩
        show ∃ row, (record (tombstone draw attachmentId manifest) (tombstoneMutation draw attachmentId manifest) ⟨s,f,c+1⟩).2.storage.objects.find noteId =
          some row ∧ revision < row.revision
        cases first : f (c+1) with
        | some e =>
            rw [record,record_nothing (puts_object s _) first]
            exact newer
        | none =>
            have put : LocalEdits.putObject (tombstone draw attachmentId manifest) ⟨s,f,c+1⟩ =
                (.ok (),⟨s.putObject (tombstone draw attachmentId manifest),f,c+1+1⟩) := call_ok first rfl
            rw [record,bind_ok put]
            exact keeps_enqueue (P := fun objects => ∃ row, objects.find noteId = some row ∧ revision < row.revision)
              (tombstoneMutation draw attachmentId manifest) _ steady

theorem next_unlike {stored : StoredEncryptedObject} (held : s.getObject stored.objectId = some stored) (same : heads t = heads s) :
    ¬∃ row, t.objects.find stored.objectId = some row ∧ stored.revision < row.revision := by
  intro newer
  obtain ⟨row,found,above⟩ := newer
  have old : t.objects.find stored.objectId = some stored := (same_object same _).trans held
  rw [old] at found
  cases found
  exact Nat.lt_irrefl _ above

theorem next_like (stored : StoredEncryptedObject) (envelope : EncryptedEnvelope) (now : String) (t : Storage) :
    ∃ row, (t.objects.upsert (nextHead stored envelope now)).find stored.objectId = some row ∧ stored.revision < row.revision :=
  ⟨_,find_upsert_same t.objects (nextHead stored envelope now),Nat.lt_succ_self _⟩

theorem chart_detach_note {stored : StoredEncryptedObject} {draw : AttachDraw} {attachmentId : String} {envelope : EncryptedEnvelope}
    (held : s.getObject stored.objectId = some stored) (same : heads t = heads s) (unused : s.getMutation draw.noteMutation = none)
    (missing : (afterRecord s (nextHead stored envelope draw.now) (nextMutation stored envelope draw.noteMutation draw.now)).getObject attachmentId = none) :
    Chart (record (nextHead stored envelope draw.now) (nextMutation stored envelope draw.noteMutation draw.now) >>= fun _ =>
        attempt (LocalEdits.getObject attachmentId) >>= detachManifest draw attachmentId) t (some 0) (some 2)
      (recorded (heads s) (nextHead stored envelope draw.now) (nextMutation stored envelope draw.noteMutation draw.now)) := by
  have both : heads (afterRecord t (nextHead stored envelope draw.now) (nextMutation stored envelope draw.noteMutation draw.now)) =
      heads (afterRecord s (nextHead stored envelope draw.now) (nextMutation stored envelope draw.noteMutation draw.now)) :=
    congrArg (fun h => recorded h (nextHead stored envelope draw.now) (nextMutation stored envelope draw.noteMutation draw.now)) same
  have rest := chart_no_manifest draw ((same_object both attachmentId).trans missing)
  have unused' : t.getMutation draw.noteMutation = none := (same_mutation same _).trans unused
  have longer : (t.mutations.upsert (nextMutation stored envelope draw.noteMutation draw.now)).rows.length = t.mutations.rows.length + 1 :=
    recorded_length unused'
  rw [← same]
  refine chart_record_last (P := fun objects => ∃ row, objects.find stored.objectId = some row ∧ stored.revision < row.revision) unused'
    (next_unlike held same) (next_like stored envelope draw.now t) (keeps_detach draw attachmentId stored.objectId stored.revision) rest ?_
  show t.mutations.rows.length < (t.mutations.upsert _).rows.length
  omega

theorem chart_detach_both {stored manifest : StoredEncryptedObject} {draw : AttachDraw} {attachmentId : String} {envelope : EncryptedEnvelope}
    (held : s.getObject stored.objectId = some stored) (same : heads t = heads s) (unused : s.getMutation draw.noteMutation = none)
    (unused' : (afterRecord s (nextHead stored envelope draw.now) (nextMutation stored envelope draw.noteMutation draw.now)).getMutation
      draw.manifestMutation = none)
    (kept : (afterRecord s (nextHead stored envelope draw.now) (nextMutation stored envelope draw.noteMutation draw.now)).getObject attachmentId =
      some manifest) :
    Chart (record (nextHead stored envelope draw.now) (nextMutation stored envelope draw.noteMutation draw.now) >>= fun _ =>
        attempt (LocalEdits.getObject attachmentId) >>= detachManifest draw attachmentId) t (some 0) (some (2+3))
      (recorded (recorded (heads s) (nextHead stored envelope draw.now) (nextMutation stored envelope draw.noteMutation draw.now))
        (tombstone draw attachmentId manifest) (tombstoneMutation draw attachmentId manifest)) := by
  have both : heads (afterRecord t (nextHead stored envelope draw.now) (nextMutation stored envelope draw.noteMutation draw.now)) =
      heads (afterRecord s (nextHead stored envelope draw.now) (nextMutation stored envelope draw.noteMutation draw.now)) :=
    congrArg (fun h => recorded h (nextHead stored envelope draw.now) (nextMutation stored envelope draw.noteMutation draw.now)) same
  have rest := chart_manifest draw ((same_object both attachmentId).trans kept) ((same_mutation both _).trans unused')
  have length := twice_length (tombstoneMutation draw attachmentId manifest) unused unused'
  have length' : t.mutations.rows.length = s.mutations.rows.length := by rw [(Prod.mk.inj same).2]
  rw [both] at rest
  refine chart_record_then (P := fun objects => ∃ row, objects.find stored.objectId = some row ∧ stored.revision < row.revision)
    ((same_mutation same _).trans unused) (next_unlike held same) (next_like stored envelope draw.now t)
    (keeps_detach draw attachmentId stored.objectId stored.revision) rest ?_
  show t.mutations.rows.length + 1 < ((s.mutations.upsert _).upsert _).rows.length
  omega

theorem detach_charted (draw : AttachDraw) (noteId attachmentId : String) (fresh : Fresh (.detach draw noteId attachmentId : Op File) s) :
    Charted codec files key (.detach draw noteId attachmentId) s := by
  obtain ⟨unused,unused',apart⟩ := fresh
  cases found : Notes.findNoteObject s noteId false with
  | error e =>
      apply charted_refused
      · simp [opening,found,Except.toOption]
      · exact chart_refused (prepares_missing found)
  | ok stored =>
      obtain ⟨held,_⟩ := NoteEdits.note_found found
      have finds := prepares_found found
      cases unsealed : codec.decrypt stored.envelope key with
      | error e =>
          apply charted_refused
          · simp [opening,found,unsealed,Except.toOption]
          · show Chart (cmdDetach codec files key draw noteId attachmentId) s none none _
            rw [detach_found]
            apply chart_after_none finds
            intro t same
            rw [detachFrom,unsealed,core_error]
            exact chart_error _ t _
      | ok note =>
          cases removed : removeAttachmentFromNote files note attachmentId draw.later with
          | none =>
              apply charted_refused
              · simp [opening,found,unsealed,removed,Except.toOption]
              · show Chart (cmdDetach codec files key draw noteId attachmentId) s none none _
                rw [detach_found]
                apply chart_after_none finds
                intro t same
                rw [detachFrom,unsealed,core_ok,removed,check_error]
                exact chart_error _ t _
          | some note' =>
              cases sealed : codec.encrypt draw.seed note' key stored.objectId with
              | error e =>
                  apply charted_refused
                  · simp [opening,found,unsealed,removed,sealed,Except.toOption]
                  · show Chart (cmdDetach codec files key draw noteId attachmentId) s none none _
                    rw [detach_found]
                    apply chart_after_none finds
                    intro t same
                    rw [detachFrom,unsealed,core_ok,removed,check_ok,sealed,core_error]
                    exact chart_error _ t _
              | ok envelope =>
                  have opens : opening codec files key (.detach draw noteId attachmentId) s = some (lookups s noteId false + 0) := by
                    simp [opening,found,unsealed,removed,sealed,Except.toOption]
                  have goes : detachFrom codec files key draw attachmentId stored =
                      record (nextHead stored envelope draw.now) (nextMutation stored envelope draw.noteMutation draw.now) >>= fun _ =>
                        attempt (LocalEdits.getObject attachmentId) >>= detachManifest draw attachmentId := by
                    rw [detachFrom,unsealed,core_ok,removed,check_ok,sealed,core_ok]
                  have known := known_after (nextHead stored envelope draw.now) (nextMutation stored envelope draw.noteMutation draw.now) held rfl attachmentId
                  have closes : closing codec files key (.detach draw noteId attachmentId) s =
                      some (lookups s noteId false + (if (s.getObject attachmentId).isSome then 5 else 2)) := congrArg (Option.map _) opens
                  cases kept : (afterRecord s (nextHead stored envelope draw.now) (nextMutation stored envelope draw.noteMutation draw.now)).getObject attachmentId with
                  | none =>
                      rw [kept] at known
                      rw [← known] at closes
                      have chart : Chart (cmdDetach codec files key draw noteId attachmentId) s (some (lookups s noteId false + 0))
                          (some (lookups s noteId false + 2))
                          (recorded (heads s) (nextHead stored envelope draw.now) (nextMutation stored envelope draw.noteMutation draw.now)) := by
                        rw [detach_found]
                        apply chart_shift finds
                        intro t same
                        rw [goes]
                        exact chart_detach_note held same unused' kept
                      exact charted_of _ opens closes chart (consecutive_next held unused' envelope draw.now)
                  | some manifest =>
                      rw [kept] at known
                      rw [← known] at closes
                      have unused₂ : (afterRecord s (nextHead stored envelope draw.now)
                          (nextMutation stored envelope draw.noteMutation draw.now)).getMutation draw.manifestMutation = none :=
                        unused_after unused (fun is => apart is.symm)
                      have chart : Chart (cmdDetach codec files key draw noteId attachmentId) s (some (lookups s noteId false + 0))
                          (some (lookups s noteId false + (2+3)))
                          (recorded (recorded (heads s) (nextHead stored envelope draw.now) (nextMutation stored envelope draw.noteMutation draw.now))
                            (tombstone draw attachmentId manifest) (tombstoneMutation draw attachmentId manifest)) := by
                        rw [detach_found]
                        apply chart_shift finds
                        intro t same
                        rw [goes]
                        exact chart_detach_both held same unused' unused₂ kept
                      refine charted_of _ opens closes chart ?_
                      intro line
                      have middle := consecutive_next held unused' envelope draw.now line
                      exact consecutive_recorded middle rfl unused₂ rfl (.inl ⟨manifest,kept,rfl⟩)

theorem op_charted (op : Op File) (fresh : Fresh op s) : Charted codec files key op s := by
  cases op with
  | create draw content => exact create_charted draw content fresh
  | update draw noteId content => exact update_charted draw noteId content fresh
  | delete draw noteId purge =>
      cases purge with
      | true => exact purge_charted draw noteId
      | false => exact delete_charted draw noteId fresh
  | attach draw noteId file customName customMime => exact attach_charted draw noteId file customName customMime fresh
  | detach draw noteId attachmentId => exact detach_charted draw noteId attachmentId fresh

theorem whole_iff (op : Op File) (fresh : Fresh op s) (faults : Nat → Option StorageError) :
    AllOrNothing codec files key op s faults ↔ Clear faults (opening codec files key op s) (closing codec files key op s) := by
  have charted : Charted codec files key op s := op_charted op fresh
  obtain ⟨whole,chart,_⟩ := charted
  exact chart_iff chart faults

def edit (codec : NoteCodec Key Note) (files : AttachmentCodec Key Note File) (key : Key) (s : Storage)
    (x : Op File × (Nat → Option StorageError)) : Storage := (x.1.run codec files key ⟨s,x.2,0⟩).2.storage

-- One command after another, with no acknowledgement in between.
def edits (codec : NoteCodec Key Note) (files : AttachmentCodec Key Note File) (key : Key) (xs : List (Op File × (Nat → Option StorageError)))
    (s : Storage) : Storage := xs.foldl (edit codec files key) s

def Careful (codec : NoteCodec Key Note) (files : AttachmentCodec Key Note File) (key : Key) :
    List (Op File × (Nat → Option StorageError)) → Storage → Prop
  | [],_ => True
  | x :: rest,s => Fresh x.1 s ∧ Clear x.2 (opening codec files key x.1 s) (closing codec files key x.1 s) ∧
    Careful codec files key rest (edit codec files key s x)

theorem edit_consecutive (op : Op File) (faults : Nat → Option StorageError) (fresh : Fresh op s)
    (clear : Clear faults (opening codec files key op s) (closing codec files key op s)) (line : Consecutive (heads s)) :
    Consecutive (heads (edit codec files key s (op,faults))) := by
  have charted : Charted codec files key op s := op_charted op fresh
  obtain ⟨whole,chart,kept⟩ := charted
  have zero : ∀ k, faults (0+k) = faults k := fun k => by rw [Nat.zero_add]
  cases opens : opening codec files key op s with
  | none =>
      have same := chart.refused opens faults 0
      rw [edit,same]
      exact line
  | some i =>
      rw [opens] at clear
      by_cases early : ∃ k ≤ i, (faults (0+k)).isSome = true
      · have same := chart.early i opens faults 0 early
        rw [edit,same]
        exact line
      · have late := clear.resolve_left (fun ⟨k,inside,fault⟩ => early ⟨k,inside,by rw [zero]; exact fault⟩)
        obtain ⟨j,ends,calm⟩ := late
        have full : ∀ k < j, faults (0+k) = none := by
          intro k inside
          by_contra fault
          by_cases above : i < k
          · rw [zero] at fault
            exact fault (calm k above inside)
          · exact early ⟨k,by omega,Option.isSome_iff_ne_none.mpr fault⟩
        have done := chart.complete j ends faults 0 full
        rw [edit,done]
        exact kept (by rw [ends]; rfl) line

theorem edits_consecutive (xs : List (Op File × (Nat → Option StorageError))) (line : Consecutive (heads s)) (careful : Careful codec files key xs s) :
    Consecutive (heads (edits codec files key xs s)) := by
  induction xs generalizing s with
  | nil => exact line
  | cons x rest ih =>
      obtain ⟨fresh,clear,later⟩ := careful
      exact ih (edit_consecutive x.1 x.2 fresh clear line) later

-- An edit is all or nothing exactly when no call between its first head and its
-- end fails, and no check there refuses it; edits that are keep the queue in line.
theorem edits_whole_iff (codec : NoteCodec Key Note) (files : AttachmentCodec Key Note File) (key : Key) :
    (∀ op s faults, Fresh op s →
      (AllOrNothing codec files key op s faults ↔ Clear faults (opening codec files key op s) (closing codec files key op s))) ∧
    (∀ xs s, Consecutive (heads s) → Careful codec files key xs s → Consecutive (heads (edits codec files key xs s))) :=
  ⟨fun op _ faults fresh => whole_iff op fresh faults,fun xs _ line careful => edits_consecutive xs line careful⟩

def AttachmentCodec.standIn : AttachmentCodec Unit String String where
  attachments _ := []
  withAttachments note _ _ := note
  encryptManifest _ file attachmentId _ _ _ := .ok (sealedText attachmentId file)

def firstDraw : Draw := ⟨"5f0c1d7e-0000-4000-8000-000000000001","5f0c1d7e-0000-4000-8000-000000000002","2026-01-01T00:00:00Z",0⟩

-- A note is made and edited; a second edit finds the disk broken from its first call on.
def editsOnce : List (Op String × (Nat → Option StorageError)) :=
  [(.create firstDraw ⟨"Shopping","AAAA",[]⟩,never),
    (.update ⟨"",change3,"2026-01-01T00:00:01Z",0⟩ firstDraw.objectId ⟨"Shopping","BBBB",[]⟩,never),
    (.update ⟨"",change4,"2026-01-01T00:00:02Z",0⟩ firstDraw.objectId ⟨"Shopping","CCCC",[]⟩,fun _ => some (.backend "disk I/O error"))]

theorem edits_once_in_line : Careful NoteCodec.standIn AttachmentCodec.standIn () editsOnce .new ∧
    Consecutive (heads (edits NoteCodec.standIn AttachmentCodec.standIn () editsOnce .new)) := by
  have calm : ∀ first last : Option Nat, last.isSome = true → Clear never first last := by
    intro first last ends
    obtain ⟨j,rfl⟩ := Option.isSome_iff_exists.mp ends
    cases first with
    | none => exact True.intro
    | some i => exact .inr ⟨j,rfl,fun _ _ _ => rfl⟩
  have broken : ∀ first last : Option Nat, Clear (fun _ => some (.backend "disk I/O error")) first last := by
    intro first last
    cases first with
    | none => exact True.intro
    | some i => exact .inl ⟨0,Nat.zero_le i,rfl⟩
  have careful : Careful NoteCodec.standIn AttachmentCodec.standIn () editsOnce .new :=
    ⟨⟨rfl,rfl,fun _ inside => by cases inside⟩,calm _ _ (by decide +kernel),
      rfl,calm _ _ (by decide +kernel),
      rfl,broken _ _,True.intro⟩
  exact ⟨careful,(edits_whole_iff _ _ _).2 _ _ (fun _ _ found => by cases found) careful⟩

-- The process stops once the new note is stored, before it is queued.
def stopsAtQueue : Nat → Option StorageError := fun k => if k = 1 then some (.backend "enqueue_mutation failed: disk I/O error") else none

theorem stopped_create_half : ¬AllOrNothing NoteCodec.standIn AttachmentCodec.standIn () (.create firstDraw ⟨"Shopping","AAAA",[]⟩) .new stopsAtQueue := by
  have fresh : Fresh (.create firstDraw ⟨"Shopping","AAAA",[]⟩ : Op String) .new := ⟨rfl,rfl,fun _ inside => by cases inside⟩
  intro whole
  have clear := (whole_iff _ fresh stopsAtQueue).mp whole
  have opens : opening NoteCodec.standIn AttachmentCodec.standIn () (.create firstDraw ⟨"Shopping","AAAA",[]⟩) .new = some 0 := by decide +kernel
  rw [closing,opens] at clear
  rcases clear with ⟨k,inside,fault⟩ | ⟨j,ends,calm⟩
  · have zero : k = 0 := by omega
    rw [zero] at fault
    cases fault
  · have length : 2 = j := Option.some.inj ends
    have failed := calm 1 Nat.one_pos (by omega)
    cases failed

end ZkNote.EditAtomicity
