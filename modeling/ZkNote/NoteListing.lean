import ZkNote.NoteCommands
import ZkNote.SearchIndex

namespace ZkNote.NoteListing
open Protocol LocalStorage Notes PlaintextNotes SearchIndex StdText

variable {Key : Type} (crates : NoteCrates Key)

structure ClientNoteSummary where
  id : String
  title : String
  tags : List String
  updatedAt : String
  createdAt : String
  revision : Nat
  isDeleted : Bool
  deriving DecidableEq, Repr

def failedTitle : String := "[Decryption failed: corrupted envelope or wrong key]"

-- Nothing for a note without the tag asked for; what does not open is listed anyway.
def noteSummary (key : Key) (tagFilter : Option String) (obj : StoredEncryptedObject) : Option ClientNoteSummary :=
  match PlaintextNote.decrypt crates obj.envelope key with
  | .ok note =>
    if tagFilter.all (fun target => note.tags.any (· == crates.lower (trim target))) then
      some ⟨obj.objectId,note.title,note.tags,note.updatedAt,note.createdAt,obj.revision,obj.isDeleted⟩
    else none
  | .error _ => some ⟨obj.objectId,failedTitle,[],"","",obj.revision,obj.isDeleted⟩

def noteFilter (includeDeleted : Bool) : ObjectFilter := ⟨some objectKindNote,includeDeleted⟩

def listNotes (key : Key) (s : Storage) (includeDeleted : Bool) (tagFilter : Option String) : List ClientNoteSummary :=
  ((s.listObjects (noteFilter includeDeleted)).filterMap (noteSummary crates key tagFilter)).insertionSort (fun a b => b.updatedAt ≤ a.updatedAt)

def indexNote (key : Key) (entries : List SessionIndex.IndexedNote) (obj : StoredEncryptedObject) : List SessionIndex.IndexedNote :=
  match PlaintextNote.decrypt crates obj.envelope key with
  | .ok note => SearchIndex.insert entries obj.objectId note
  | .error _ => entries

def searchNotes (isAlphanumeric : Char → Bool) (checks : Bool) (key : Key) (s : Storage) (query : String) : Option (List SearchResult) :=
  search ⟨crates.lower,isAlphanumeric,checks⟩ ((s.listObjects (noteFilter false)).foldl (indexNote crates key) []) query

-- The tags as one text, then that text cut to its column. A cut inside a
-- character stops the command.
def tagsText (tags : List String) : List Char :=
  if tags = [] then ['-'] else '[' :: ([',',' '].intercalate (tags.map String.toList) ++ [']'])

def tagColumn (tags : List String) : Option (List Char) :=
  if 20 < ByteOffsets.size (tagsText tags) then (ByteOffsets.upTo (tagsText tags) 17).map (· ++ ['.','.','.'])
  else some (tagsText tags)

-- `{:<width}`, which counts characters.
def pad (width : Nat) (text : List Char) : List Char := text ++ List.replicate (width-text.length) ' '

def row (id updatedAt : String) (tags : List Char) (title : List Char) : List Char :=
  pad 36 id.toList ++ [' ',' '] ++ pad 24 updatedAt.toList ++ [' ',' '] ++ pad 20 tags ++ [' ',' '] ++ title

def tableHead : List (List Char) :=
  [pad 36 ['I','D'] ++ [' ',' '] ++ pad 24 ['U','P','D','A','T','E','D'] ++ [' ',' '] ++ pad 20 ['T','A','G','S'] ++ [' ',' ','T','I','T','L','E'],
    List.replicate 95 '-']

def listRow (n : ClientNoteSummary) : Option (List Char) :=
  (tagColumn n.tags).map (fun tags => row n.id n.updatedAt tags ((if n.isDeleted then "[DELETED] ".toList else []) ++ n.title.toList))

-- A row and, where there is one, the line of its snippet.
def searchRow (r : SearchResult) : Option (List Char) :=
  (tagColumn r.tags).map (fun tags => row r.id r.updatedAt tags r.title.toList ++
    if r.snippet = "" then [] else '\n' :: ("    snippet: ".toList ++ r.snippet.toList))

inductive Printed (α : Type) where
  | json (notes : List α)
  | message (text : String)
  | table (head rows : List (List Char))

-- `.ok none` is a command that stopped while it printed its rows.
def cmdList (includeDeleted : Bool) (tagFilter : Option String) (jsonOutput : Bool) (opened : Except CliError (Key × Storage)) :
    Except CliError (Option (Printed ClientNoteSummary)) :=
  match opened with
  | .error e => .error e
  | .ok (key,s) =>
    let notes := listNotes crates key s includeDeleted tagFilter
    if jsonOutput then .ok (some (.json notes))
    else if notes = [] then .ok (some (.message "No notes found."))
    else .ok ((notes.mapM listRow).map (.table tableHead))

def cmdSearch (isAlphanumeric : Char → Bool) (checks : Bool) (query : String) (jsonOutput : Bool) (opened : Except CliError (Key × Storage)) :
    Except CliError (Option (Printed SearchResult)) :=
  match opened with
  | .error e => .error e
  | .ok (key,s) =>
    match searchNotes crates isAlphanumeric checks key s query with
    | none => .ok none
    | some results =>
      if jsonOutput then .ok (some (.json results))
      else if results = [] then .ok (some (.message ("No notes matched query: \"" ++ query ++ "\"")))
      else .ok ((results.mapM searchRow).map (.table
        (("Found " ++ toString results.length ++ " matching note(s) for \"" ++ query ++ "\":").toList :: tableHead)))

end ZkNote.NoteListing
