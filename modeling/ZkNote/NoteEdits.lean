import ZkNote.LinkSteps
import ZkNote.Notes

namespace ZkNote.NoteEdits
open Protocol KeyedTable ServerStore ServerHistory ServerRoutes LinkSteps LocalStorage Notes

variable {crates : Crates} {Key Note : Type} {codec : NoteCodec Key Note} {key : Key}

inductive Command where
  | create (draw : Draw) (content : Content)
  | update (draw : Draw) (noteId : String) (content : Content)
  | delete (draw : Draw) (noteId : String) (purge : Bool)

def Command.draw : Command → Draw
  | .create draw _ => draw
  | .update draw _ _ => draw
  | .delete draw _ _ => draw

def Command.creates : Command → Bool
  | .create _ _ => true
  | _ => false

-- The object a purge removes.
def Command.purgeTarget : Command → Storage → Option String
  | .delete _ noteId true,s => (findNoteObject s noteId true).toOption.map (·.objectId)
  | _,_ => none

def Command.run (codec : NoteCodec Key Note) (key : Key) : Command → Storage → Storage
  | .create draw content,s => (createNote codec key draw content s).2
  | .update draw noteId content,s => (updateNote codec key draw noteId content s).2
  | .delete draw noteId purge,s => (deleteNote draw noteId purge s).2

def runCommands (codec : NoteCodec Key Note) (key : Key) : List Command → Storage → Storage
  | [],s => s
  | command :: rest,s => runCommands codec key rest (command.run codec key s)

-- What `encrypt_note` seals: a version 1 note envelope for the id it was given.
structure Fits (crates : Crates) (objectId : String) (envelope : EncryptedEnvelope) : Prop where
  object : envelope.objectId = objectId
  kind : envelope.objectKind = objectKindNote
  version : envelope.envelopeVersion = envelopeVersionV1
  keyNonce : crates.decodable envelope.wrappedKey.nonce = true
  keyText : crates.decodable envelope.wrappedKey.ciphertext = true
  payloadNonce : crates.decodable envelope.payload.nonce = true
  payloadText : crates.decodable envelope.payload.ciphertext = true

def Seals (crates : Crates) (codec : NoteCodec Key Note) : Prop :=
  ∀ seed note key objectId envelope, codec.encrypt seed note key objectId = .ok envelope → Fits crates objectId envelope

theorem stand_in_seals : Seals .standIn NoteCodec.standIn := by
  intro seed note key objectId envelope sealing
  simp only [NoteCodec.standIn] at sealing
  split at sealing
  · rename_i whole
    cases sealing
    have padding : Crates.standIn.decodable "AAAA" = true := by decide
    exact ⟨rfl,rfl,rfl,padding,padding,padding,whole⟩
  · cases sealing

def Spelled (crates : Crates) (id : String) : Prop := crates.parseUuid id = .ok id

instance (crates : Crates) (id : String) : Decidable (Spelled crates id) :=
  inferInstanceAs (Decidable (crates.parseUuid id = .ok id))

-- `Uuid::new_v4`: an id nobody holds yet, in the canonical spelling. `base` says
-- how many revisions of an object came before the queue.
structure Novel (crates : Crates) (base : String → Nat) (command : Command) (s : Storage) : Prop where
  mutation : s.getMutation command.draw.mutationId = none
  spelled : Spelled crates command.draw.mutationId
  object : command.creates = true → Spelled crates command.draw.objectId ∧ base command.draw.objectId = 0 ∧
    s.getObject command.draw.objectId = none ∧ ∀ m ∈ s.mutations.rows, m.objectId ≠ command.draw.objectId

instance (crates : Crates) (base : String → Nat) (command : Command) (s : Storage) : Decidable (Novel crates base command s) :=
  decidable_of_iff (s.getMutation command.draw.mutationId = none ∧ Spelled crates command.draw.mutationId ∧
      (command.creates = true → Spelled crates command.draw.objectId ∧ base command.draw.objectId = 0 ∧
        s.getObject command.draw.objectId = none ∧ ∀ m ∈ s.mutations.rows, m.objectId ≠ command.draw.objectId))
    ⟨fun ⟨mutation,spelled,object⟩ => ⟨mutation,spelled,object⟩,fun novel => ⟨novel.mutation,novel.spelled,novel.object⟩⟩

def NovelRun (crates : Crates) (base : String → Nat) (codec : NoteCodec Key Note) (key : Key) :
    List Command → Storage → Prop
  | [],_ => True
  | command :: rest,s => Novel crates base command s ∧ NovelRun crates base codec key rest (command.run codec key s)

-- One edit: the new local head and the queue entry that carries the same content.
structure Edit (codec : NoteCodec Key Note) (key : Key) (command : Command) (s : Storage)
    (object : StoredEncryptedObject) (m : PendingMutation) : Prop where
  id : m.mutationId = command.draw.mutationId
  target : m.objectId = object.objectId
  kind : m.objectKind = objectKindNote
  content : m.envelope = object.envelope
  deleted : object.isDeleted = decide (m.mutationType = .delete)
  pending : m.status = .pending
  revision : object.revision = m.expectedRevision+1
  basis : (command.creates = true ∧ object.objectId = command.draw.objectId ∧ m.expectedRevision = 0) ∨
    ∃ prior, s.getObject object.objectId = some prior ∧ prior.revision = m.expectedRevision
  sealing : (∃ seed note, codec.encrypt seed note key object.objectId = .ok object.envelope) ∨
    ∃ prior, s.getObject object.objectId = some prior ∧ prior.objectKind = objectKindNote ∧ object.envelope = prior.envelope

inductive Commanded (codec : NoteCodec Key Note) (key : Key) (command : Command) (s t : Storage) : Prop where
  | nothing (objects : t.objects = s.objects) (queue : t.mutations = s.mutations)
  | purged (o : String) (asked : command.purgeTarget s = some o) (held : s.getObject o = some x)
      (objects : t.objects = s.objects.delete (fun x => x.objectId = o)) (queue : t.mutations = s.mutations)
  | edited (object : StoredEncryptedObject) (m : PendingMutation) (edit : Edit codec key command s object m)
      (objects : t.objects = s.objects.upsert object) (queue : t.mutations = s.mutations.upsert m)

variable {s t : Storage} {m : PendingMutation} {obj : StoredEncryptedObject}

theorem listed_stored (listed : obj ∈ (s.listObjects ⟨some kind,deleted⟩).filter p) :
    s.getObject obj.objectId = some obj ∧ obj.objectKind = kind := by
  have inside := (List.mem_filter.mp listed).1
  rw [Storage.listObjects,(List.perm_insertionSort _ _).mem_iff,List.mem_filter] at inside
  refine ⟨mem_iff_find.mp inside.1,?_⟩
  have fits := inside.2
  simp only [Option.all_some,Bool.and_eq_true,beq_iff_eq] at fits
  exact fits.2.symm

theorem start_found (found : findByStart s noteId includeDeleted = .ok obj) :
    s.getObject obj.objectId = some obj ∧ obj.objectKind = objectKindNote := by
  unfold findByStart at found
  split at found
  · split at found
    · rename_i only single
      split at found
      · cases found
      · cases found
        exact listed_stored (single ▸ List.mem_singleton.mpr rfl)
    · simp only at found
      split at found <;> cases found
    · cases found
  · cases found

theorem note_found (found : findNoteObject s noteId includeDeleted = .ok obj) :
    s.getObject obj.objectId = some obj ∧ obj.objectKind = objectKindNote := by
  unfold findNoteObject at found
  split at found
  · rename_i held
    split at found
    · rename_i kind
      split at found
      · cases found
      · cases found
        exact ⟨mem_iff_find.mp (find_mem held),kind⟩
    · exact start_found found
  · exact start_found found

theorem queue_edit_fresh (fresh : s.getMutation m.mutationId = none) :
    (queueEdit s m).2 = {s with mutations := s.mutations.upsert m} := by
  have free : s.mutations.find m.mutationId = none := fresh
  simp only [queueEdit,Storage.enqueueMutation,insert_fresh free]

theorem create_commanded (draw : Draw) (content : Content) (s : Storage)
    (fresh : s.getMutation draw.mutationId = none) :
    Commanded codec key (.create draw content) s (createNote codec key draw content s).2 := by
  unfold createNote
  split
  · exact .nothing rfl rfl
  · split
    · exact .nothing rfl rfl
    · rename_i note _ _ envelope sealing
      simp only
      rw [queue_edit_fresh fresh]
      refine .edited _ _ ?_ rfl rfl
      exact ⟨rfl,rfl,rfl,rfl,rfl,rfl,rfl,.inl ⟨rfl,rfl,rfl⟩,.inl ⟨_,_,sealing⟩⟩

theorem update_commanded (draw : Draw) (noteId : String) (content : Content) (s : Storage)
    (fresh : s.getMutation draw.mutationId = none) :
    Commanded codec key (.update draw noteId content) s (updateNote codec key draw noteId content s).2 := by
  unfold updateNote
  split
  · exact .nothing rfl rfl
  · rename_i stored found
    obtain ⟨held,_⟩ := note_found found
    split
    · exact .nothing rfl rfl
    · split
      · exact .nothing rfl rfl
      · simp only
        split
        · exact .nothing rfl rfl
        · rename_i envelope sealing
          simp only
          rw [queue_edit_fresh fresh]
          refine .edited _ _ ?_ rfl rfl
          exact ⟨rfl,rfl,rfl,rfl,rfl,rfl,rfl,.inr ⟨stored,held,rfl⟩,.inl ⟨_,_,sealing⟩⟩

theorem delete_commanded (draw : Draw) (noteId : String) (purge : Bool) (s : Storage)
    (fresh : s.getMutation draw.mutationId = none) :
    Commanded codec key (.delete draw noteId purge) s (deleteNote draw noteId purge s).2 := by
  unfold deleteNote
  split
  · exact .nothing rfl rfl
  · rename_i stored found
    obtain ⟨held,note⟩ := note_found found
    split
    · rename_i asked
      subst asked
      exact .purged stored.objectId (by simp [Command.purgeTarget,found,Except.toOption]) held rfl rfl
    · have row : s.objects.find stored.objectId = some stored := held
      simp only [Storage.markDeleted,Storage.putBaseVersion,row]
      rw [queue_edit_fresh fresh]
      refine .edited _ _ ?_ rfl rfl
      exact ⟨rfl,rfl,rfl,rfl,rfl,rfl,rfl,.inr ⟨stored,held,rfl⟩,.inr ⟨stored,held,note,rfl⟩⟩

theorem run_commanded (codec : NoteCodec Key Note) (key : Key) (command : Command) (s : Storage) (fresh : s.getMutation command.draw.mutationId = none) :
    Commanded codec key command s (command.run codec key s) := by
  cases command with
  | create draw content => exact create_commanded draw content s fresh
  | update draw noteId content => exact update_commanded draw noteId content s fresh
  | delete draw noteId purge => exact delete_commanded draw noteId purge s fresh

theorem queue_edit_frame (s : Storage) (m : PendingMutation) :
    (queueEdit s m).2.syncState = s.syncState ∧ (queueEdit s m).2.conflicts = s.conflicts := by
  unfold queueEdit
  split
  · exact ⟨rfl,rfl⟩
  · rename_i queued
    obtain ⟨_,rfl⟩ := enqueue_cases queued
    exact ⟨rfl,rfl⟩

-- No command touches the cursor or the conflicts.
theorem run_frame (command : Command) (s : Storage) :
    (command.run codec key s).syncState = s.syncState ∧ (command.run codec key s).conflicts = s.conflicts := by
  cases command with
  | create draw content =>
      simp only [Command.run,createNote]
      split
      · exact ⟨rfl,rfl⟩
      · split
        · exact ⟨rfl,rfl⟩
        · exact queue_edit_frame _ _
  | update draw noteId content =>
      simp only [Command.run,updateNote]
      split
      · exact ⟨rfl,rfl⟩
      · split
        · exact ⟨rfl,rfl⟩
        · split
          · exact ⟨rfl,rfl⟩
          · split
            · exact ⟨rfl,rfl⟩
            · exact queue_edit_frame _ _
  | delete draw noteId purge =>
      simp only [Command.run,deleteNote]
      split
      · exact ⟨rfl,rfl⟩
      · split
        · exact ⟨rfl,rfl⟩
        · split
          · exact ⟨rfl,rfl⟩
          · rename_i marked
            unfold Storage.markDeleted at marked
            split at marked
            · cases marked
            · cases marked
              exact queue_edit_frame _ _

-- What is stored and queued can be sent: ids in canonical spelling, envelopes sealed for them.
structure Sendable (crates : Crates) (request : PushRequest) : Prop where
  object : Spelled crates request.objectId
  mutation : Spelled crates request.mutationId
  kind : request.objectKind = objectKindNote
  envelope : Fits crates request.objectId request.envelope

theorem sendable_proper (fine : Sendable crates request) : Proper crates request := by
  obtain ⟨object,mutation,_,fits⟩ := fine
  refine ⟨⟨⟨_,mutation⟩,⟨_,object⟩,fits.object,fits.version,fits.keyNonce,fits.keyText,fits.payloadNonce,fits.payloadText⟩,?_⟩
  exact ⟨object,mutation⟩

structure Sound (crates : Crates) (s : Storage) : Prop where
  stored : ∀ x ∈ s.objects.rows, Spelled crates x.objectId ∧ (x.objectKind = objectKindNote → Fits crates x.objectId x.envelope)
  queue : ∀ m ∈ s.mutations.rows, Sendable crates (requestOf m)

theorem sound_command (seals : Seals crates codec) (sound : Sound crates s) (novel : Novel crates base command s) :
    Sound crates (command.run codec key s) := by
  cases run_commanded codec key command s novel.mutation with
  | nothing objects queue => exact ⟨by rw [objects]; exact sound.stored,by rw [queue]; exact sound.queue⟩
  | purged o _ _ objects queue =>
      refine ⟨?_,by rw [queue]; exact sound.queue⟩
      intro x inside
      rw [objects] at inside
      exact sound.stored x (mem_delete.mp inside).1
  | edited object m edit objects queue =>
      have own : Spelled crates object.objectId := by
        rcases edit.basis with ⟨creates,same,_⟩ | ⟨prior,held,_⟩
        · rw [same]; exact (novel.object creates).1
        · rw [← find_key held]; exact (sound.stored prior (find_mem held)).1
      have fits : Fits crates object.objectId object.envelope := by
        rcases edit.sealing with ⟨seed,note,sealing⟩ | ⟨prior,held,kind,same⟩
        · exact seals _ _ _ _ _ sealing
        · have old := (sound.stored prior (find_mem held)).2 kind
          rw [same,← find_key held]
          exact old
      refine ⟨?_,?_⟩
      · intro x inside
        rw [objects] at inside
        rcases mem_upsert.mp inside with rfl | ⟨old,_⟩
        · exact ⟨own,fun _ => fits⟩
        · exact sound.stored x old
      · intro x inside
        rw [queue] at inside
        rcases mem_upsert.mp inside with rfl | ⟨old,_⟩
        · refine ⟨by rw [request_object,edit.target]; exact own,by rw [request_mutation,edit.id]; exact novel.spelled,edit.kind,?_⟩
          change Fits crates x.objectId x.envelope
          rw [edit.target,edit.content]
          exact fits
        · exact sound.queue x old

-- A queue that only commands have written: for each object the expected
-- revisions fill a range that starts at its base and ends below the local head.
structure Drafted (base : String → Nat) (s : Storage) : Prop where
  pending : ∀ m ∈ s.mutations.rows, m.status = .pending
  above : ∀ m ∈ s.mutations.rows, base m.objectId ≤ m.expectedRevision
  linked : ∀ m ∈ s.mutations.rows, ∀ r, base m.objectId ≤ r → r ≤ m.expectedRevision →
    ∃ q ∈ s.mutations.rows, q.objectId = m.objectId ∧ q.expectedRevision = r
  distinct : ∀ m ∈ s.mutations.rows, ∀ q ∈ s.mutations.rows, m.objectId = q.objectId →
    m.expectedRevision = q.expectedRevision → m = q
  below : ∀ x ∈ s.objects.rows, ∀ m ∈ s.mutations.rows, m.objectId = x.objectId → m.expectedRevision < x.revision
  filled : ∀ x ∈ s.objects.rows, base x.objectId ≤ x.revision ∧ ∀ r, base x.objectId ≤ r → r < x.revision →
    ∃ q ∈ s.mutations.rows, q.objectId = x.objectId ∧ q.expectedRevision = r

theorem drafted_start (empty : s.mutations.rows = []) (level : ∀ x ∈ s.objects.rows, x.revision = base x.objectId) :
    Drafted base s := by
  refine ⟨by simp [empty],by simp [empty],by simp [empty],by simp [empty],by simp [empty],?_⟩
  intro x inside
  have same := level x inside
  exact ⟨by omega,fun r low high => by omega⟩

-- The revision an edit expects: nothing of its object is queued from there on,
-- and everything from the base up to it is.
theorem edit_level (drafted : Drafted base s) (novel : Novel crates base command s) (edit : Edit codec key command s object m) :
    base m.objectId ≤ m.expectedRevision ∧
    (∀ q ∈ s.mutations.rows, q.objectId = m.objectId → q.expectedRevision < m.expectedRevision) ∧
    (∀ r, base m.objectId ≤ r → r < m.expectedRevision → ∃ q ∈ s.mutations.rows, q.objectId = m.objectId ∧ q.expectedRevision = r) := by
  rw [edit.target]
  rcases edit.basis with ⟨creates,same,zero⟩ | ⟨prior,held,same⟩
  · obtain ⟨_,bottom,_,unused⟩ := novel.object creates
    rw [same,zero,bottom]
    exact ⟨Nat.le_refl _,fun q inside mine => absurd mine (unused q inside),fun r _ high => by omega⟩
  · have inside := find_mem held
    have own := find_key held
    obtain ⟨low,full⟩ := drafted.filled prior inside
    rw [own,same] at low full
    refine ⟨low,?_,full⟩
    intro q member mine
    have bound := drafted.below prior inside q member (mine.trans own.symm)
    omega

theorem drafted_command (drafted : Drafted base s) (novel : Novel crates base command s) :
    Drafted base (command.run codec key s) := by
  cases run_commanded codec key command s novel.mutation with
  | nothing objects queue =>
      obtain ⟨pending,above,linked,distinct,below,filled⟩ := drafted
      exact ⟨by rw [queue]; exact pending,by rw [queue]; exact above,by rw [queue]; exact linked,
        by rw [queue]; exact distinct,by rw [queue,objects]; exact below,by rw [queue,objects]; exact filled⟩
  | purged o _ _ objects queue =>
      obtain ⟨pending,above,linked,distinct,below,filled⟩ := drafted
      refine ⟨by rw [queue]; exact pending,by rw [queue]; exact above,by rw [queue]; exact linked,
        by rw [queue]; exact distinct,?_,?_⟩ <;> intro x inside <;> rw [objects] at inside <;> rw [queue]
      · exact below x (mem_delete.mp inside).1
      · exact filled x (mem_delete.mp inside).1
  | edited object m edit objects queue =>
      obtain ⟨low,top,full⟩ := edit_level drafted novel edit
      obtain ⟨pending,above,linked,distinct,below,filled⟩ := drafted
      have fresh : ∀ q ∈ s.mutations.rows, q.mutationId ≠ m.mutationId := by
        intro q inside same
        have held : s.getMutation q.mutationId = some q := mem_iff_find.mp inside
        rw [same,edit.id,novel.mutation] at held
        cases held
      have old : ∀ q ∈ s.mutations.rows, q ∈ (s.mutations.upsert m).rows :=
        fun q inside => mem_upsert.mpr (.inr ⟨inside,fresh q inside⟩)
      have new : m ∈ (s.mutations.upsert m).rows := mem_upsert.mpr (.inl rfl)
      rw [queue.symm] at old new
      have either : ∀ q ∈ (command.run codec key s).mutations.rows, q = m ∨ q ∈ s.mutations.rows := by
        intro q inside
        rw [queue] at inside
        exact (mem_upsert.mp inside).imp id (·.1)
      refine ⟨?_,?_,?_,?_,?_,?_⟩
      · intro q inside
        rcases either q inside with rfl | before
        · exact edit.pending
        · exact pending q before
      · intro q inside
        rcases either q inside with rfl | before
        · exact low
        · exact above q before
      · intro q inside r start stop
        rcases either q inside with rfl | before
        · by_cases last : r = q.expectedRevision
          · exact ⟨q,new,rfl,last.symm⟩
          · obtain ⟨p,held,same,is⟩ := full r start (by omega)
            exact ⟨p,old p held,same,is⟩
        · obtain ⟨p,held,same,is⟩ := linked q before r start stop
          exact ⟨p,old p held,same,is⟩
      · intro p left q right same level
        rcases either p left with rfl | beforeP <;> rcases either q right with rfl | beforeQ
        · rfl
        · have bound := top q beforeQ same.symm
          omega
        · have bound := top p beforeP same
          omega
        · exact distinct p beforeP q beforeQ same level
      · intro x inside q member mine
        rw [objects] at inside
        rcases mem_upsert.mp inside with rfl | ⟨stored,other⟩
        · rw [edit.revision]
          rcases either q member with rfl | before
          · omega
          · have bound := top q before (mine.trans edit.target.symm)
            omega
        · rcases either q member with rfl | before
          · exact absurd (mine.symm.trans edit.target) other
          · exact below x stored q before mine
      · intro x inside
        rw [objects] at inside
        rcases mem_upsert.mp inside with rfl | ⟨stored,other⟩
        · rw [edit.revision,← edit.target]
          refine ⟨by omega,?_⟩
          intro r start stop
          by_cases last : r = m.expectedRevision
          · exact ⟨m,new,rfl,last.symm⟩
          · obtain ⟨p,held,same,is⟩ := full r start (by omega)
            exact ⟨p,old p held,same,is⟩
        · obtain ⟨bottom,through⟩ := filled x stored
          refine ⟨bottom,?_⟩
          intro r start stop
          obtain ⟨p,held,same,is⟩ := through r start stop
          exact ⟨p,old p held,same,is⟩

theorem drafted_run (seals : Seals crates codec) (commands : List Command) (novel : NovelRun crates base codec key commands s)
    (sound : Sound crates s) (drafted : Drafted base s) :
    Sound crates (runCommands codec key commands s) ∧ Drafted base (runCommands codec key commands s) := by
  induction commands generalizing s with
  | nil => exact ⟨sound,drafted⟩
  | cons command rest ih => exact ih novel.2 (sound_command seals sound novel.1) (drafted_command drafted novel.1)

-- A device that holds revision 1 of a note and edits it twice.
def heldRow : StoredEncryptedObject := ⟨firstNote,objectKindNote,1,1,false,sealedText firstNote "aaaa","t0"⟩
def heldNote : Storage := Storage.new.putObject heldRow

def twoEdits : List Command :=
  [.update ⟨"",change3,"t1",0⟩ firstNote ⟨"","cccc",[]⟩,.update ⟨"",change4,"t2",0⟩ firstNote ⟨"","dddd",[]⟩]

def editedTwice : Storage := runCommands .standIn () twoEdits heldNote

def created : List Call := [("alice",upsertOf change1 firstNote 0 "aaaa")]
def movedOn : List Call := [("alice",upsertOf change1 firstNote 0 "aaaa"),("alice",upsertOf change2 firstNote 1 "bbbb")]

theorem held_note_sound : Sound .standIn heldNote := by
  refine ⟨?_,by simp [heldNote,Storage.new,Storage.putObject,Table.empty]⟩
  intro x inside
  have only : x = heldRow := by
    simpa [heldNote,Storage.putObject,Storage.new,Table.upsert,Table.empty,place] using inside
  rw [only]
  exact ⟨rfl,fun _ => ⟨rfl,rfl,rfl,by decide,by decide,by decide,by decide⟩⟩

theorem two_edits_novel (base : String → Nat) : NovelRun .standIn base .standIn () twoEdits heldNote :=
  ⟨⟨by decide,rfl,by simp [Command.creates]⟩,⟨by decide,rfl,by simp [Command.creates]⟩,trivial⟩

end ZkNote.NoteEdits
