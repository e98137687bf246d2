import ZkNote.JsonText
import ZkNote.ObjectEnvelopes
import ZkNote.PlaintextNotes

namespace ZkNote.NoteJson
open Fallible Protocol NoteErrors ChunkFormat AttachmentCrypto ObjectEnvelopes PlaintextNotes JsonText

-- What the note layer calls: the cipher with its Base64, `str::to_lowercase`, the
-- quoting of strings in errors, serde_json on notes, and how a UTF-8 error prints.
structure JsonCrates extends CryptoCrates where
  lower : String → String
  debug : String → String
  toString : PlaintextNote → Except String String
  fromStr : String → Except String PlaintextNote
  utf8Error : List UInt8 → String

-- serde_json reads back what it wrote, and writes every record of strings and numbers.
structure JsonCrates.Lawful (crates : JsonCrates) : Prop where
  crypto : crates.toCryptoCrates.Lawful
  reads : ∀ note text, crates.toString note = .ok text → crates.fromStr text = .ok note
  writes : ∀ note, ∃ text, crates.toString note = .ok text

section
variable (crates : JsonCrates)

def toCanonicalJson (note : PlaintextNote) : Except NoteValidationError String :=
  let note := note.canonicalize crates.lower
  match note.validate with
  | .error e => .error e
  | .ok _ => (crates.toString note).mapError .serializationError

def fromJson (jsonStr : String) : Except NoteValidationError PlaintextNote :=
  match crates.fromStr jsonStr with
  | .error message => .error (.serializationError message)
  | .ok note =>
    match note.validate with
    | .error e => .error e
    | .ok _ => .ok note

def toCanonicalBytes (note : PlaintextNote) : Except NoteValidationError (List UInt8) := do
  let json ← toCanonicalJson crates note
  return utf8 json

-- The note layer over JSON texts and the object envelopes.
def noteCrates (entropy : Nat → EnvelopeDraw) : NoteCrates SecretKey where
  lower := crates.lower
  debug := crates.debug
  toJson note := (crates.toString note).map utf8
  fromJson bytes :=
    match fromUtf8 bytes with
    | none => .error s!"invalid UTF-8: {crates.utf8Error bytes}"
    | some s => crates.fromStr s
  encryptEnvelope seed bytes key objectId objectKind :=
    (encryptEnvelope crates.toCryptoCrates (entropy seed) bytes key objectId objectKind).mapError CryptoError.display
  decryptEnvelope envelope key := (decryptEnvelope crates.toCryptoCrates envelope key).mapError CryptoError.display

end

variable {crates : JsonCrates} {entropy : Nat → EnvelopeDraw} {note : PlaintextNote} {text : String} {bytes : List UInt8}

theorem canonical_bytes : note.toCanonicalBytes (noteCrates crates entropy) = toCanonicalBytes crates note := by
  unfold PlaintextNote.toCanonicalBytes toCanonicalBytes toCanonicalJson
  dsimp only [noteCrates]
  cases (note.canonicalize crates.lower).validate with
  | error e => rfl
  | ok _ => cases crates.toString (note.canonicalize crates.lower) <;> rfl

theorem canonical_json : toCanonicalJson crates note = .ok text ↔
    (note.canonicalize crates.lower).validate = .ok () ∧ crates.toString (note.canonicalize crates.lower) = .ok text := by
  unfold toCanonicalJson
  dsimp only
  cases (note.canonicalize crates.lower).validate with
  | error e => simp
  | ok _ => cases crates.toString (note.canonicalize crates.lower) <;> simp [Except.mapError]

theorem json_read (reads : crates.fromStr text = .ok note) (valid : note.validate = .ok ()) : fromJson crates text = .ok note := by
  unfold fromJson
  rw [reads]
  dsimp only
  rw [valid]

-- The text serde_json writes for a note, and a reader of such texts.
def noteFields : Codec (Nat × String × String × List String × String × String × List String) :=
  .both (.after "\x7b\"schema_version\":" .count) (.both (.after "\"title\":" .text) (.both (.after ",\"body\":" .text)
    (.both (.after ",\"tags\":" .texts) (.both (.after ",\"created_at\":" .text) (.both (.after ",\"updated_at\":" .text)
      (.after ",\"attachments\":" .texts))))))

def noteText (note : PlaintextNote) : String :=
  String.ofList (noteFields.write (note.schemaVersion.toNat,note.title,note.body,note.tags,note.createdAt,note.updatedAt,note.attachments) ++ ['\x7d'])

def readNote (text : String) : Option PlaintextNote :=
  match noteFields.read text.toList with
  | some ((schemaVersion,title,body,tags,createdAt,updatedAt,attachments),['\x7d']) =>
    if schemaVersion < 2^32 then some ⟨schemaVersion.toUInt32,title,body,tags,createdAt,updatedAt,attachments⟩ else none
  | _ => none

theorem note_read (note : PlaintextNote) : readNote (noteText note) = some note := by
  unfold readNote noteText
  rw [String.toList_ofList,noteFields.back]
  show (if note.schemaVersion.toNat < 2^32 then some _ else none) = some note
  rw [if_pos note.schemaVersion.toNat_lt,Nat.toUInt32_eq,UInt32.ofNat_toNat]

end ZkNote.NoteJson
