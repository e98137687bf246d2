import ZkNote.LocalStorage
import ZkNote.NoteCodec
import ZkNote.StdText

namespace ZkNote.Notes
open Protocol KeyedTable LocalStorage StdText

variable {Key Note : Type}

inductive CliError where
  | noteNotFound (noteId : String)
  | noteAlreadyDeleted (objectId : String)
  | io (message : String)
  | core (message : String)
  | storage (error : StorageError)
  deriving DecidableEq, Repr

-- The part of `find_note_object` after the exact id did not match.
def findByStart (s : Storage) (noteId : String) (includeDeleted : Bool) : Except CliError StoredEncryptedObject :=
  if 4 ≤ noteId.utf8ByteSize then
    match (s.listObjects ⟨some objectKindNote,includeDeleted⟩).filter (fun o => startsWith o.objectId noteId) with
    | [obj] => if obj.isDeleted && !includeDeleted then .error (.noteAlreadyDeleted obj.objectId) else .ok obj
    | [] =>
      let deleted := (s.listObjects ⟨some objectKindNote,true⟩).filter (fun o => startsWith o.objectId noteId && o.isDeleted)
      match includeDeleted,deleted with
      | false,obj :: _ => .error (.noteAlreadyDeleted obj.objectId)
      | _,_ => .error (.noteNotFound noteId)
    | found => .error (.io s!"ambiguous note id prefix '{noteId}' matches {found.length} notes")
  else .error (.noteNotFound noteId)

def findNoteObject (s : Storage) (noteId : String) (includeDeleted : Bool) : Except CliError StoredEncryptedObject :=
  match s.getObject noteId with
  | some obj =>
    if obj.objectKind = objectKindNote then
      if obj.isDeleted && !includeDeleted then .error (.noteAlreadyDeleted obj.objectId) else .ok obj
    else findByStart s noteId includeDeleted
  | none => findByStart s noteId includeDeleted

-- Ids, time and randomness one command draws.
structure Draw where
  objectId : String
  mutationId : String
  now : String
  seed : Nat

structure Content where
  title : String
  body : String
  tags : List String

-- The last steps of every edit: the local head, then the queue entry. A failure
-- of the second leaves the first in place.
def queueEdit (s : Storage) (mutation : PendingMutation) : Except CliError Unit × Storage :=
  match s.enqueueMutation mutation with
  | .error e => (.error (.storage e),s)
  | .ok s => (.ok (),s)

def createNote (codec : NoteCodec Key Note) (key : Key) (draw : Draw) (content : Content) (s : Storage) :
    Except CliError String × Storage :=
  match codec.build content.title content.body content.tags none draw.now with
  | .error e => (.error (.core e),s)
  | .ok note =>
  match codec.encrypt draw.seed note key draw.objectId with
  | .error e => (.error (.core e),s)
  | .ok envelope =>
    let s := s.putObject ⟨draw.objectId,objectKindNote,initialObjectRevision,initialServerSeq,false,envelope,draw.now⟩
    let (done,s) := queueEdit s
      ⟨draw.mutationId,draw.objectId,initialExpectedRevision,objectKindNote,.upsert,envelope,draw.now,0,.pending⟩
    (done.map (fun _ => draw.objectId),s)

def updateNote (codec : NoteCodec Key Note) (key : Key) (draw : Draw) (noteId : String) (content : Content) (s : Storage) :
    Except CliError Nat × Storage :=
  match findNoteObject s noteId false with
  | .error e => (.error e,s)
  | .ok stored =>
  match codec.decrypt stored.envelope key with
  | .error e => (.error (.core e),s)
  | .ok prior =>
  match codec.build content.title content.body content.tags (some (codec.createdAt prior)) draw.now with
  | .error e => (.error (.core e),s)
  | .ok note =>
    -- The prior revision is archived before anything can still fail.
    let s := s.putBaseVersion stored.objectId stored.revision stored.envelope
    match codec.encrypt draw.seed note key stored.objectId with
    | .error e => (.error (.core e),s)
    | .ok envelope =>
      let s := s.putObject
        ⟨stored.objectId,objectKindNote,stored.revision+1,stored.serverSeq,false,envelope,draw.now⟩
      let (done,s) := queueEdit s
        ⟨draw.mutationId,stored.objectId,stored.revision,objectKindNote,.upsert,envelope,draw.now,0,.pending⟩
      (done.map (fun _ => stored.revision+1),s)

def deleteNote (draw : Draw) (noteId : String) (purge : Bool) (s : Storage) : Except CliError (String × Nat) × Storage :=
  match findNoteObject s noteId purge with
  | .error e => (.error e,s)
  | .ok stored =>
    if purge then (.ok (stored.objectId,stored.revision),(s.purgeObject stored.objectId).clearBaseVersions stored.objectId)
    else
      let s := s.putBaseVersion stored.objectId stored.revision stored.envelope
      match s.markDeleted stored.objectId (stored.revision+1) stored.envelope draw.now with
      | .error e => (.error (.storage e),s)
      | .ok s =>
        let (done,s) := queueEdit s
          ⟨draw.mutationId,stored.objectId,stored.revision,objectKindNote,.delete,stored.envelope,draw.now,0,.pending⟩
        (done.map (fun _ => (stored.objectId,stored.revision+1)),s)

end ZkNote.Notes
