import ZkNote.ConflictResolution
import ZkNote.EditBuffer
import ZkNote.NoteMerge
import ZkNote.Notes

namespace ZkNote.NoteCommands
open Protocol KeyedTable LocalStorage MutationQueue Conflict ConflictResolution Notes NoteErrors PlaintextNotes NoteMerge EditBuffer StdText

variable {Key : Type}

structure Overrides where
  title : Option String
  body : Option String
  tags : Option (List String)

def Overrides.any (o : Overrides) : Bool := o.title.isSome || o.body.isSome || o.tags.isSome

-- An editor session: from the text it is given to the text it leaves, or why it
-- failed.
abbrev Editor := String → Except CliError String

inductive CommandError where
  | cli (error : CliError)
  | conflictNotFound (conflictId : String)
  | conflictAlreadyResolved (conflictId : String)
  | storage (error : StorageError)
  | queue (error : QueueError)
  deriving DecidableEq, Repr

section
variable (crates : NoteCrates Key) (key : Key)

def getPlaintextNote (s : Storage) (noteId : String) : Except CliError (StoredEncryptedObject × PlaintextNote) :=
  match findNoteObject s noteId false with
  | .error e => .error e
  | .ok obj =>
    match PlaintextNote.decrypt crates obj.envelope key with
    | .error e => .error (.core (e.display crates.debug))
    | .ok note => .ok (obj,note)

-- A panic of the parser ends the command like an error: nothing was written yet.
def parseEdited (content : String) (note : PlaintextNote) : Except CliError Content :=
  match parseEditBuffer crates.lower content note.title note.tags with
  | none => .error (.io "byte index is not a char boundary")
  | some parsed => .ok ⟨parsed.title,parsed.body,parsed.tags⟩

def overridden (o : Overrides) (note : PlaintextNote) : Content := ⟨o.title.getD note.title,o.body.getD note.body,o.tags.getD note.tags⟩

-- What the user asked for; nothing where the editor left the text as it was.
def editedContent (editor : Editor) (o : Overrides) (note : PlaintextNote) : Except CliError (Option Content) :=
  if o.any then .ok (some (overridden o note))
  else
    let initialText := noteToEditBuffer note.title note.tags note.body
    match editor initialText with
    | .error e => .error e
    | .ok edited => if edited = initialText then .ok none else (parseEdited crates edited note).map some

def cmdEdit (draw : Draw) (editor : Editor) (noteId : String) (o : Overrides) (s : Storage) : Except CliError PlaintextNote × Storage :=
  match getPlaintextNote crates key s noteId with
  | .error e => (.error e,s)
  | .ok (stored,currentNote) =>
  match editedContent crates editor o currentNote with
  | .error e => (.error e,s)
  | .ok none => (.ok currentNote,s)
  | .ok (some new) =>
    if new.title = currentNote.title ∧ new.tags = currentNote.tags ∧ new.body = currentNote.body then (.ok currentNote,s)
    else match updateNote (noteCodec crates draw.now) key draw stored.objectId new s with
    | (.error e,s) => (.error e,s)
    | (.ok _,s) =>
      match NoteBuilder.build crates.lower draw.now
          {title := new.title, body := new.body, tags := new.tags, createdAt := some currentNote.createdAt} with
      | .error e => (.error (.core ((CoreError.validation e).display crates.debug)),s)
      | .ok updatedNote => (.ok (updatedNote.canonicalize crates.lower),s)

def findConflictRecord (s : Storage) (conflictId : String) : Except CommandError ConflictRecord :=
  match s.conflicts.find conflictId with
  | some record => .ok record
  | none =>
    if 4 ≤ conflictId.utf8ByteSize then
      match s.conflicts.rows.filter (fun r => startsWith r.conflictId conflictId) with
      | [record] => .ok record
      | [] => .error (.conflictNotFound conflictId)
      | found => .error (.cli (.io s!"ambiguous conflict id prefix '{conflictId}' matches {found.length} conflicts"))
    else .error (.conflictNotFound conflictId)

-- The outcome that `generate_merge_candidate` returns beside its envelope.
def generatedCandidate (now : String) (seed : Nat) (conflict : ConflictRecord) : Except CommandError PlaintextNote :=
  let codec := noteCodec crates now
  match generateMergeCandidate codec key seed conflict.baseEnvelope conflict.localEnvelope conflict.remoteEnvelope,
    codec.decrypt conflict.localEnvelope key,codec.decrypt conflict.remoteEnvelope key,
    conflict.baseEnvelope.elim (.ok codec.blank) (fun envelope => codec.decrypt envelope key) with
  | .error e,_,_,_ => .error (.storage e)
  | _,.ok mine,.ok theirs,.ok base => .ok (codec.threeWayMergeNote base mine theirs)
  | _,_,_,_ => .error (.storage (.backend "failed to decrypt"))

def candidateNote (now : String) (seed : Nat) (conflict : ConflictRecord) : Except CommandError PlaintextNote :=
  match conflict.candidateEnvelope with
  | some candEnv => (PlaintextNote.decrypt crates candEnv key).mapError (fun e => .cli (.core (e.display crates.debug)))
  | none => generatedCandidate crates key now seed conflict

def rebuilt (now : String) (content : Content) : Except CommandError PlaintextNote :=
  (NoteBuilder.build crates.lower now {title := content.title, body := content.body, tags := content.tags}).mapError
    (fun e => .cli (.core ((CoreError.validation e).display crates.debug)))

-- The three ways to merge: overrides, the editor (one was named, or there is a
-- terminal), and the candidate as it is.
def mergedNote (now : String) (editor : Option Editor) (o : Overrides) (candidate : PlaintextNote) : Except CommandError PlaintextNote :=
  if o.any then rebuilt crates now (overridden o candidate)
  else match editor with
  | none => .ok candidate
  | some edit =>
    match edit (noteToEditBuffer candidate.title candidate.tags candidate.body) with
    | .error e => .error (.cli e)
    | .ok edited =>
      match parseEdited crates edited candidate with
      | .error e => .error (.cli e)
      | .ok content => rebuilt crates now content

-- `cmd_resolve` with `--merge` and no other strategy.
def cmdResolveMerge (now : String) (candidateSeed : Nat) (draw : ResolveDraw) (editor : Option Editor) (conflictId : String) (o : Overrides) (s : Storage) :
    Except CommandError ConflictResolutionResult × Storage :=
  match findConflictRecord s conflictId with
  | .error e => (.error e,s)
  | .ok conflict =>
  if conflict.resolved then (.error (.conflictAlreadyResolved conflict.conflictId),s) else
  if conflict.remoteIsDeleted || conflict.localIsDeleted then
    (.error (.cli (.io "cannot merge a delete conflict; use --restore to resurrect as current revision, --duplicate to restore as a new note, or --remote to accept deletion")),s) else
  match candidateNote crates key now candidateSeed conflict with
  | .error e => (.error e,s)
  | .ok candidate =>
  match mergedNote crates now editor o candidate with
  | .error e => (.error e,s)
  | .ok note =>
    let (done,s) := resolveConflict (noteCodec crates now) (fun note title => {note with title}) key draw s conflict.conflictId (.merge note)
    (done.mapError .queue,s)

end

end ZkNote.NoteCommands
