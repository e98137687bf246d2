import ZkNote.Notes

namespace ZkNote.LocalEdits
open Protocol KeyedTable LocalStorage Notes StdText

variable {Key Note File α β : Type}

-- One process on one database. `faults` says which of its storage calls, reads
-- among them, come back with an error and nothing done. Every write is a
-- transaction of its own, so a process that stops leaves what a fault of its next
-- call leaves.
structure Disk where
  storage : Storage
  faults : Nat → Option StorageError
  calls : Nat

def Edit (α : Type) := Disk → Except CliError α × Disk

instance : Monad Edit where
  pure a := fun d => (.ok a,d)
  bind x f := fun d =>
    match x d with
    | (.ok a,d) => f a d
    | (.error e,d) => (.error e,d)

def check (result : Except CliError α) : Edit α := fun d => (result,d)

def call (step : Storage → Except StorageError (α × Storage)) : Edit α := fun d =>
  match d.faults d.calls with
  | some e => (.error (.storage e),{d with calls := d.calls + 1})
  | none =>
    match step d.storage with
    | .error e => (.error (.storage e),{d with calls := d.calls + 1})
    | .ok (a,s) => (.ok a,{d with storage := s, calls := d.calls + 1})

-- `if let Ok(Some(..))`: an error reads as nothing found.
def attempt (x : Edit (Option α)) : Edit (Option α) := fun d =>
  match x d with
  | (.ok a,d) => (.ok a,d)
  | (.error _,d) => (.ok none,d)

def getObject (objectId : String) : Edit (Option StoredEncryptedObject) := call (fun s => .ok (s.getObject objectId,s))
def listObjects (filter : ObjectFilter) : Edit (List StoredEncryptedObject) := call (fun s => .ok (s.listObjects filter,s))
def putObject (object : StoredEncryptedObject) : Edit Unit := call (fun s => .ok ((),s.putObject object))
def markDeleted (objectId : String) (revision : Nat) (envelope : EncryptedEnvelope) (updatedAt : String) : Edit Unit :=
  call (fun s => (s.markDeleted objectId revision envelope updatedAt).map (fun s => ((),s)))
def purgeObject (objectId : String) : Edit Unit := call (fun s => .ok ((),s.purgeObject objectId))
def enqueueMutation (mutation : PendingMutation) : Edit Unit := call (fun s => (s.enqueueMutation mutation).map (fun s => ((),s)))
def putBaseVersion (objectId : String) (revision : Nat) (envelope : EncryptedEnvelope) : Edit Unit :=
  call (fun s => .ok ((),s.putBaseVersion objectId revision envelope))
def clearBaseVersions (objectId : String) : Edit Unit := call (fun s => .ok ((),s.clearBaseVersions objectId))

def findByStart (noteId : String) (includeDeleted : Bool) : Edit StoredEncryptedObject :=
  if 4 ≤ noteId.utf8ByteSize then do
    let all ← listObjects ⟨some objectKindNote,includeDeleted⟩
    match all.filter (fun o => startsWith o.objectId noteId) with
    | [obj] => check (if obj.isDeleted && !includeDeleted then .error (.noteAlreadyDeleted obj.objectId) else .ok obj)
    | [] =>
      if includeDeleted then check (.error (.noteNotFound noteId))
      else do
        let all ← listObjects ⟨some objectKindNote,true⟩
        match all.filter (fun o => startsWith o.objectId noteId && o.isDeleted) with
        | obj :: _ => check (.error (.noteAlreadyDeleted obj.objectId))
        | [] => check (.error (.noteNotFound noteId))
    | found => check (.error (.io s!"ambiguous note id prefix '{noteId}' matches {found.length} notes"))
  else check (.error (.noteNotFound noteId))

def findNoteObject (noteId : String) (includeDeleted : Bool) : Edit StoredEncryptedObject := do
  match ← getObject noteId with
  | some obj =>
    if obj.objectKind = objectKindNote then
      check (if obj.isDeleted && !includeDeleted then .error (.noteAlreadyDeleted obj.objectId) else .ok obj)
    else findByStart noteId includeDeleted
  | none => findByStart noteId includeDeleted

def core (result : Except String α) : Edit α := check (result.mapError .core)

-- A new head, then its queue entry: two transactions.
def record (object : StoredEncryptedObject) (mutation : PendingMutation) : Edit Unit := do
  putObject object
  enqueueMutation mutation

-- A note's next revision under an envelope, and the upsert that queues it.
def nextHead (stored : StoredEncryptedObject) (envelope : EncryptedEnvelope) (now : String) : StoredEncryptedObject :=
  ⟨stored.objectId,objectKindNote,stored.revision+1,stored.serverSeq,false,envelope,now⟩

def nextMutation (stored : StoredEncryptedObject) (envelope : EncryptedEnvelope) (mutationId now : String) : PendingMutation :=
  ⟨mutationId,stored.objectId,stored.revision,objectKindNote,.upsert,envelope,now,0,.pending⟩

def createNote (codec : NoteCodec Key Note) (key : Key) (draw : Draw) (content : Content) : Edit String := do
  let note ← core (codec.build content.title content.body content.tags none draw.now)
  let envelope ← core (codec.encrypt draw.seed note key draw.objectId)
  record ⟨draw.objectId,objectKindNote,initialObjectRevision,initialServerSeq,false,envelope,draw.now⟩
    ⟨draw.mutationId,draw.objectId,initialExpectedRevision,objectKindNote,.upsert,envelope,draw.now,0,.pending⟩
  return draw.objectId

def updateNote (codec : NoteCodec Key Note) (key : Key) (draw : Draw) (noteId : String) (content : Content) : Edit Nat := do
  let stored ← findNoteObject noteId false
  let prior ← core (codec.decrypt stored.envelope key)
  let note ← core (codec.build content.title content.body content.tags (some (codec.createdAt prior)) draw.now)
  putBaseVersion stored.objectId stored.revision stored.envelope
  let envelope ← core (codec.encrypt draw.seed note key stored.objectId)
  record (nextHead stored envelope draw.now) (nextMutation stored envelope draw.mutationId draw.now)
  return stored.revision+1

def deleteNote (draw : Draw) (noteId : String) (purge : Bool) : Edit (String × Nat) := do
  let stored ← findNoteObject noteId purge
  if purge then
    purgeObject stored.objectId
    clearBaseVersions stored.objectId
    return (stored.objectId,stored.revision)
  else
    putBaseVersion stored.objectId stored.revision stored.envelope
    markDeleted stored.objectId (stored.revision+1) stored.envelope draw.now
    enqueueMutation ⟨draw.mutationId,stored.objectId,stored.revision,objectKindNote,.delete,stored.envelope,draw.now,0,.pending⟩
    return (stored.objectId,stored.revision+1)

-- What `cmd_attach` and `cmd_detach` use of a note beside the codec, and the
-- file's encryption up to the manifest's envelope.
structure AttachmentCodec (Key Note File : Type) where
  attachments : Note → List String
  withAttachments : Note → List String → (updatedAt : String) → Note
  encryptManifest : (seed : Nat) → File → (attachmentId : String) → (customName customMime : Option String) → Key →
    Except String EncryptedEnvelope

def maxAttachmentsCount : Nat := 100
def maxAttachmentIdLen : Nat := 128
def objectKindAttachmentManifest : UInt16 := 4

def addAttachmentToNote (files : AttachmentCodec Key Note File) (note : Note) (attachmentId now : String) : Except String Note :=
  if (files.attachments note).contains attachmentId then .ok note
  else if maxAttachmentsCount ≤ (files.attachments note).length then
    .error s!"note validation error: note contains too many attachments ({(files.attachments note).length + 1} > {maxAttachmentsCount})"
  else if attachmentId.isEmpty || decide (attachmentId.utf8ByteSize > maxAttachmentIdLen) then
    .error s!"note validation error: attachment ID contains invalid characters: {attachmentId}"
  else .ok (files.withAttachments note (files.attachments note ++ [attachmentId]) now)

def removeAttachmentFromNote (files : AttachmentCodec Key Note File) (note : Note) (attachmentId now : String) : Option Note :=
  let kept := (files.attachments note).filter (· != attachmentId)
  if kept.length = (files.attachments note).length then none else some (files.withAttachments note kept now)

-- The ids that `cmd_attach` and `cmd_detach` draw; `later` is the clock again.
structure AttachDraw where
  attachmentId : String
  manifestMutation : String
  noteMutation : String
  now : String
  later : String
  seed : Nat

def cmdAttach (codec : NoteCodec Key Note) (files : AttachmentCodec Key Note File) (key : Key) (draw : AttachDraw) (noteId : String)
    (file : Except String File) (customName customMime : Option String) : Edit String := do
  let file ← check (file.mapError .io)
  let stored ← findNoteObject noteId false
  let note ← core (codec.decrypt stored.envelope key)
  let manifest ← core (files.encryptManifest draw.seed file draw.attachmentId customName customMime key)
  record ⟨draw.attachmentId,objectKindAttachmentManifest,initialObjectRevision,initialServerSeq,false,manifest,draw.now⟩
    ⟨draw.manifestMutation,draw.attachmentId,initialExpectedRevision,objectKindAttachmentManifest,.upsert,manifest,draw.now,0,.pending⟩
  -- The note is checked only now, with the manifest recorded.
  let note ← core (addAttachmentToNote files note draw.attachmentId draw.later)
  let envelope ← core (codec.encrypt draw.seed note key stored.objectId)
  record (nextHead stored envelope draw.now) (nextMutation stored envelope draw.noteMutation draw.now)
  return draw.attachmentId

def cmdDetach (codec : NoteCodec Key Note) (files : AttachmentCodec Key Note File) (key : Key) (draw : AttachDraw) (noteId attachmentId : String) :
    Edit Unit := do
  let stored ← findNoteObject noteId false
  let note ← core (codec.decrypt stored.envelope key)
  let note ← check (match removeAttachmentFromNote files note attachmentId draw.later with
    | none => .error (.io s!"attachment '{attachmentId}' not found on note '{stored.objectId}'")
    | some note => .ok note)
  let envelope ← core (codec.encrypt draw.seed note key stored.objectId)
  record (nextHead stored envelope draw.now) (nextMutation stored envelope draw.noteMutation draw.now)
  match ← attempt (getObject attachmentId) with
  | none => return ()
  | some manifest =>
    record ⟨attachmentId,objectKindAttachmentManifest,manifest.revision+1,manifest.serverSeq,true,manifest.envelope,draw.now⟩
      ⟨draw.manifestMutation,attachmentId,manifest.revision,objectKindAttachmentManifest,.delete,manifest.envelope,draw.now,0,.pending⟩

end ZkNote.LocalEdits
