import Mathlib.Data.List.Sort
import Mathlib.Data.String.Basic
import ZkNote.Protocol
import ZkNote.Fallible
import ZkNote.Rfc3339
import ZkNote.StdText

namespace ZkNote.PlaintextNotes
open Fallible Protocol NoteErrors Rfc3339 StdText

def noteSchemaVersionV1 : UInt32 := 1
def maxTitleLen : Nat := 1024
def maxBodyLen : Nat := 10*1024*1024
def maxTagsCount : Nat := 100
def maxTagLen : Nat := 128
def maxAttachmentsCount : Nat := 100
def maxAttachmentIdLen : Nat := 128

structure PlaintextNote where
  schemaVersion : UInt32
  title : String
  body : String
  tags : List String
  createdAt : String
  updatedAt : String
  attachments : List String
  deriving DecidableEq, Repr

-- What the note layer takes from elsewhere: full Unicode lower-casing, the quoting
-- of strings in errors, serde_json, and the object cipher with the randomness it draws.
structure NoteCrates (Key : Type) where
  lower : String → String
  debug : String → String
  toJson : PlaintextNote → Except String (List UInt8)
  fromJson : List UInt8 → Except String PlaintextNote
  encryptEnvelope : (seed : Nat) → List UInt8 → Key → (objectId : String) → (objectKind : UInt16) → Except String EncryptedEnvelope
  decryptEnvelope : EncryptedEnvelope → Key → Except String (List UInt8)

-- A stand-in for runs on fixed inputs in lower case: notes on a shelf are written
-- as their place on it, and a sealed place is one letter.
def NoteCrates.standIn (shelf : List PlaintextNote) : NoteCrates Unit where
  lower := id
  debug text := "\"" ++ text ++ "\""
  toJson note := if note ∈ shelf then .ok [(shelf.idxOf note).toUInt8] else .error "not on the shelf"
  fromJson bytes :=
    match bytes.head?.bind (fun place => shelf[place.toNat]?) with
    | some note => .ok note
    | none => .error "expected value at line 1 column 1"
  encryptEnvelope _ bytes _ objectId objectKind :=
    .ok ⟨envelopeVersionV1,objectId,objectKind,⟨"AAAA","AAAA"⟩,⟨"AAAA",String.ofList (bytes.map (fun b => Char.ofNat (65+b.toNat)))⟩⟩
  decryptEnvelope envelope _ := .ok (envelope.payload.ciphertext.toList.map (fun c => (c.toNat-65).toUInt8))

def byteOrderMark : Char := '\ufeff'

def stripBom (text : String) : String := String.ofList (text.toList.dropWhile (· = byteOrderMark))

-- `replace("\r\n", "\n")`, then `replace('\r', "\n")`.
def replaceCrLf : List Char → List Char
  | '\r' :: '\n' :: rest => '\n' :: replaceCrLf rest
  | c :: rest => c :: replaceCrLf rest
  | [] => []

def unixNewlines (text : String) : String :=
  String.ofList ((replaceCrLf text.toList).map (fun c => if c = '\r' then '\n' else c))

-- `Vec::dedup`: of equal neighbours one stays.
def dedup : List String → List String
  | [] => []
  | tag :: rest => if rest.head? = some tag then dedup rest else tag :: dedup rest

def foldTag (lower : String → String) (tag : String) : String := lower (trim tag)

def canonicalTags (lower : String → String) (tags : List String) : List String :=
  dedup (((tags.map (foldTag lower)).filter (· ≠ "")).insertionSort (· ≤ ·))

namespace PlaintextNote

def canonicalize (lower : String → String) (note : PlaintextNote) : PlaintextNote :=
  {note with
    title := stripBom note.title
    body := unixNewlines (stripBom note.body)
    tags := canonicalTags lower note.tags}

def validateTag (tag : String) : Except NoteValidationError Unit :=
  if tag = "" then .error .emptyTag else
  if maxTagLen < tag.utf8ByteSize then .error (.tagTooLong maxTagLen tag.utf8ByteSize) else
  if tag.toList.any isControl then .error (.invalidTag tag) else .ok ()

def validateAttachment (att : String) : Except NoteValidationError Unit :=
  if att = "" then .error .emptyAttachmentId else
  if maxAttachmentIdLen < att.utf8ByteSize then .error (.attachmentIdTooLong maxAttachmentIdLen att.utf8ByteSize) else
  if att.toList.any isControl then .error (.invalidAttachmentId att) else .ok ()

def validate (note : PlaintextNote) : Except NoteValidationError Unit :=
  if note.schemaVersion ≠ noteSchemaVersionV1 then .error (.unsupportedSchemaVersion note.schemaVersion) else
  if maxTitleLen < note.title.utf8ByteSize then .error (.titleTooLong maxTitleLen note.title.utf8ByteSize) else
  if maxBodyLen < note.body.utf8ByteSize then .error (.bodyTooLarge maxBodyLen note.body.utf8ByteSize) else
  if maxTagsCount < note.tags.length then .error (.tooManyTags maxTagsCount note.tags.length) else
  match note.tags.forM validateTag with
  | .error e => .error e
  | .ok _ =>
  if maxAttachmentsCount < note.attachments.length then .error (.tooManyAttachments maxAttachmentsCount note.attachments.length) else
  match note.attachments.forM validateAttachment with
  | .error e => .error e
  | .ok _ =>
  match validateRfc3339 "created_at" note.createdAt with
  | .error e => .error e
  | .ok _ => validateRfc3339 "updated_at" note.updatedAt

def toCanonicalBytes {Key : Type} (crates : NoteCrates Key) (note : PlaintextNote) : Except NoteValidationError (List UInt8) :=
  let note := note.canonicalize crates.lower
  match note.validate with
  | .error e => .error e
  | .ok _ => (crates.toJson note).mapError .serializationError

def fromBytes {Key : Type} (crates : NoteCrates Key) (bytes : List UInt8) : Except NoteValidationError PlaintextNote :=
  match crates.fromJson bytes with
  | .error message => .error (.serializationError message)
  | .ok note =>
    match note.validate with
    | .error e => .error e
    | .ok _ => .ok note

def encrypt {Key : Type} (crates : NoteCrates Key) (seed : Nat) (note : PlaintextNote) (key : Key) (objectId : String) :
    Except CoreError EncryptedEnvelope :=
  match note.toCanonicalBytes crates with
  | .error e => .error (.validation e)
  | .ok bytes => (crates.encryptEnvelope seed bytes key objectId objectKindNote).mapError .crypto

def decrypt {Key : Type} (crates : NoteCrates Key) (envelope : EncryptedEnvelope) (key : Key) : Except CoreError PlaintextNote :=
  if envelope.envelopeVersion ≠ envelopeVersionV1 then
    .error (.crypto s!"unsupported cryptographic envelope version: {envelope.envelopeVersion}") else
  if envelope.objectKind ≠ objectKindNote then
    .error (.validation (.serializationError s!"expected object kind NOTE ({objectKindNote}), got {envelope.objectKind}")) else
  match crates.decryptEnvelope envelope key with
  | .error message => .error (.crypto message)
  | .ok bytes => (fromBytes crates bytes).mapError .validation

-- `PlaintextNote::new`, with the clock's text.
def new (title body now : String) : PlaintextNote := ⟨noteSchemaVersionV1,title,body,[],now,now,[]⟩

end PlaintextNote

structure NoteBuilder where
  schemaVersion : Option UInt32 := none
  title : String := ""
  body : String := ""
  tags : List String := []
  createdAt : Option String := none
  updatedAt : Option String := none
  attachments : List String := []

def NoteBuilder.build (lower : String → String) (now : String) (builder : NoteBuilder) : Except NoteValidationError PlaintextNote :=
  let note : PlaintextNote :=
    { schemaVersion := builder.schemaVersion.getD noteSchemaVersionV1
      title := builder.title
      body := builder.body
      tags := builder.tags
      createdAt := builder.createdAt.getD now
      updatedAt := builder.updatedAt.getD now
      attachments := builder.attachments }
  let note := note.canonicalize lower
  match note.validate with
  | .error e => .error e
  | .ok _ => .ok note

variable {Key : Type} {crates : NoteCrates Key} {envelope : EncryptedEnvelope} {key : Key} {note : PlaintextNote}

namespace PlaintextNote

theorem decrypt_valid (opens : decrypt crates envelope key = .ok note) : note.validate = .ok () := by
  unfold decrypt at opens
  split at opens
  · cases opens
  · split at opens
    · cases opens
    · split at opens
      · cases opens
      · rename_i bytes decrypted
        cases read : fromBytes crates bytes with
        | error e =>
            rw [read] at opens
            cases opens
        | ok parsed =>
            rw [read] at opens
            cases opens
            unfold fromBytes at read
            split at read
            · cases read
            · split at read
              · cases read
              · rename_i valid
                cases read
                exact valid

-- A valid note is within every limit that `validate` checks.
structure Valid (note : PlaintextNote) : Prop where
  version : note.schemaVersion = noteSchemaVersionV1
  title : note.title.utf8ByteSize ≤ maxTitleLen
  body : note.body.utf8ByteSize ≤ maxBodyLen
  tagCount : note.tags.length ≤ maxTagsCount
  tags : ∀ tag ∈ note.tags, validateTag tag = .ok ()
  attachmentCount : note.attachments.length ≤ maxAttachmentsCount
  attachments : ∀ att ∈ note.attachments, validateAttachment att = .ok ()
  created : validateRfc3339 "created_at" note.createdAt = .ok ()
  updated : validateRfc3339 "updated_at" note.updatedAt = .ok ()

end PlaintextNote

theorem each_ok {check : String → Except NoteValidationError Unit} (list : List String) :
    list.forM check = .ok () ↔ ∀ member ∈ list, check member = .ok () := by
  induction list with
  | nil => simp [pure,Except.pure]
  | cons first rest ih =>
      rw [List.forall_mem_cons,← ih]
      show (check first >>= fun _ => rest.forM check) = .ok () ↔ _
      cases check first with
      | error e => simp [bind,Except.bind]
      | ok _ => simp [bind,Except.bind]

theorem valid_iff : note.validate = .ok () ↔ note.Valid := by
  unfold PlaintextNote.validate
  constructor
  · intro ok
    obtain ⟨version,ok⟩ := passed ok
    obtain ⟨title,ok⟩ := passed ok
    obtain ⟨body,ok⟩ := passed ok
    obtain ⟨tagCount,ok⟩ := passed ok
    split at ok
    · cases ok
    · rename_i tags
      obtain ⟨attachmentCount,ok⟩ := passed ok
      split at ok
      · cases ok
      · rename_i attachments
        split at ok
        · cases ok
        · rename_i created
          exact ⟨not_not.mp version,not_lt.mp title,not_lt.mp body,not_lt.mp tagCount,(each_ok _).mp tags,not_lt.mp attachmentCount,
            (each_ok _).mp attachments,created,ok⟩
  · rintro ⟨version,title,body,tagCount,tags,attachmentCount,attachments,created,updated⟩
    rw [if_neg (not_not.mpr version),if_neg (not_lt.mpr title),if_neg (not_lt.mpr body),if_neg (not_lt.mpr tagCount),(each_ok _).mpr tags]
    simp only [if_neg (not_lt.mpr attachmentCount),(each_ok _).mpr attachments,created,updated]

end ZkNote.PlaintextNotes
