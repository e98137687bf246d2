import ZkNote.AttachmentFrame
import ZkNote.AttachmentReadback
import ZkNote.ChunkParsing
import ZkNote.NoteJson
import ZkNote.NoteMergeLaws

namespace ZkNote.NoteRoundTrip
open Fallible Protocol NoteErrors ChunkFormat AttachmentCrypto ObjectEnvelopes PlaintextNotes NoteJson
open AttachmentFrame (RoundTrips FoldStable encrypted_opens)
open NoteSets (canonicalize_again)

variable {crates : JsonCrates} {entropy : Nat → EnvelopeDraw} {note : PlaintextNote} {text now objectId : String} {key : SecretKey} {seed : Nat}
  {envelope : EncryptedEnvelope}

-- What a builder's fields are, with the clock's text where a time was not set.
def fieldsOf (now : String) (builder : NoteBuilder) : PlaintextNote :=
  ⟨builder.schemaVersion.getD noteSchemaVersionV1,builder.title,builder.body,builder.tags,builder.createdAt.getD now,builder.updatedAt.getD now,
    builder.attachments⟩

theorem built_iff {builder : NoteBuilder} : (∃ note, builder.build crates.lower now = .ok note) ↔
    ((fieldsOf now builder).canonicalize crates.lower).validate = .ok () := by
  unfold NoteBuilder.build
  rw [← fieldsOf]
  cases valid : ((fieldsOf now builder).canonicalize crates.lower).validate with
  | error e => simp [valid]
  | ok _ => simp [valid]

theorem json_exists_iff (lawful : crates.Lawful) : (∃ text, toCanonicalJson crates note = .ok text) ↔
    (note.canonicalize crates.lower).validate = .ok () := by
  constructor
  · rintro ⟨text,written⟩
    exact (canonical_json.mp written).1
  · intro valid
    obtain ⟨text,written⟩ := lawful.writes (note.canonicalize crates.lower)
    exact ⟨text,canonical_json.mpr ⟨valid,written⟩⟩

theorem json_back (stable : FoldStable crates.lower) (lawful : crates.Lawful) (written : toCanonicalJson crates note = .ok text) :
    fromJson crates text = .ok (note.canonicalize crates.lower) ∧ toCanonicalJson crates (note.canonicalize crates.lower) = .ok text := by
  obtain ⟨valid,wrote⟩ := canonical_json.mp written
  refine ⟨json_read (lawful.reads _ _ wrote) valid,canonical_json.mpr ?_⟩
  rw [canonicalize_again stable]
  exact ⟨valid,wrote⟩

-- Of the two assumptions under which notes survive their envelopes, the code
-- keeps the one about envelopes, and texts in UTF-8 keep the one about JSON.
theorem crates_trip (lawful : crates.Lawful) : RoundTrips (noteCrates crates entropy) where
  cipher seed bytes key objectId kind envelope done := by
    obtain ⟨version,_,sameKind,opens⟩ := envelope_opens lawful.crypto (mapped_done done)
    refine ⟨version,sameKind,?_⟩
    show (decryptEnvelope crates.toCryptoCrates envelope key).mapError CryptoError.display = _
    rw [opens]
    rfl
  json note bytes written := by
    obtain ⟨text,wrote⟩ := lawful.writes note
    have written : (crates.toString note).map utf8 = .ok bytes := written
    rw [wrote] at written
    cases written
    dsimp only [noteCrates]
    rw [from_utf8]
    exact lawful.reads note text wrote

theorem note_opens (lawful : crates.Lawful) (done : note.encrypt (noteCrates crates entropy) seed key objectId = .ok envelope) :
    envelope.objectId = objectId ∧ PlaintextNote.decrypt (noteCrates crates entropy) envelope key = .ok (note.canonicalize crates.lower) := by
  refine ⟨?_,encrypted_opens (crates_trip lawful) done⟩
  unfold PlaintextNote.encrypt at done
  split at done
  · cases done
  · exact (envelope_opens lawful.crypto (mapped_done (mapped_done done))).2.1

theorem note_refused {e : CoreError} (failed : note.encrypt (noteCrates crates entropy) seed key objectId = .error e) :
    (∃ invalid, toCanonicalJson crates note = .error invalid ∧ e = .validation invalid) ∨
      ∃ key nonce aad msg text, crates.cipher.encrypt key nonce aad msg = .error text ∧ e = .crypto (CryptoError.aeadFailure text).display := by
  unfold PlaintextNote.encrypt at failed
  rw [canonical_bytes] at failed
  unfold toCanonicalBytes at failed
  cases written : toCanonicalJson crates note with
  | error invalid =>
      rw [written] at failed
      cases failed
      exact .inl ⟨invalid,rfl,rfl⟩
  | ok json =>
      right
      rw [written] at failed
      have failed : ((encryptEnvelope crates.toCryptoCrates (entropy seed) (utf8 json) key objectId objectKindNote).mapError CryptoError.display).mapError
          CoreError.crypto = .error e := failed
      cases refused : encryptEnvelope crates.toCryptoCrates (entropy seed) (utf8 json) key objectId objectKindNote with
      | ok envelope =>
          rw [refused] at failed
          cases failed
      | error crypto =>
          rw [refused] at failed
          cases failed
          obtain ⟨key,nonce,aad,msg,text,is,rfl⟩ := envelope_refused refused
          exact ⟨key,nonce,aad,msg,text,is,rfl⟩

-- The canonical form as its texts, builders and envelopes keep it; what refuses
-- an envelope is the validation or the cipher.
structure CanonicalForm (crates : JsonCrates) (entropy : Nat → EnvelopeDraw) : Prop where
  idempotent : ∀ note : PlaintextNote, (note.canonicalize crates.lower).canonicalize crates.lower = note.canonicalize crates.lower
  readBack : ∀ note text, toCanonicalJson crates note = .ok text →
    fromJson crates text = .ok (note.canonicalize crates.lower) ∧ toCanonicalJson crates (note.canonicalize crates.lower) = .ok text
  built : ∀ now builder, (∃ note, NoteBuilder.build crates.lower now builder = .ok note) ↔
    ∃ text, toCanonicalJson crates (fieldsOf now builder) = .ok text
  decrypted : ∀ seed (note : PlaintextNote) key objectId envelope, note.encrypt (noteCrates crates entropy) seed key objectId = .ok envelope →
    envelope.objectId = objectId ∧ PlaintextNote.decrypt (noteCrates crates entropy) envelope key = .ok (note.canonicalize crates.lower)
  refused : ∀ seed (note : PlaintextNote) key objectId e, note.encrypt (noteCrates crates entropy) seed key objectId = .error e →
    (∃ invalid, toCanonicalJson crates note = .error invalid ∧ e = .validation invalid) ∨
      ∃ key nonce aad msg text, crates.cipher.encrypt key nonce aad msg = .error text ∧ e = .crypto (CryptoError.aeadFailure text).display

theorem canonical_form_kept (stable : FoldStable crates.lower) (lawful : crates.Lawful) : CanonicalForm crates entropy where
  idempotent := canonicalize_again stable
  readBack _ _ written := json_back stable lawful written
  built _ _ := built_iff.trans (json_exists_iff lawful).symm
  decrypted _ _ _ _ _ done := note_opens lawful done
  refused _ _ _ _ _ failed := note_refused failed

-- JSON and Base64 themselves, lower case for ASCII letters, and a cipher that
-- shows its text before a checksum.
def plainCrates : JsonCrates where
  base64 := ChunkParsing.strictBase64
  cipher := AttachmentReadback.checked
  lower := NoteMergeLaws.asciiLower
  debug text := String.ofList (JsonText.quoted text)
  toString note := .ok (noteText note)
  fromStr text :=
    match readNote text with
    | some note => .ok note
    | none => .error "expected value at line 1 column 1"
  utf8Error _ := "invalid utf-8 sequence"

theorem plain_lawful : plainCrates.Lawful where
  crypto := ⟨ChunkParsing.base64_strict.toLawful,(AttachmentReadback.stand_in_lawful ⟨"","","",0,0,0,none⟩).crypto.cipher⟩
  reads note text written := by
    cases written
    dsimp only [plainCrates]
    rw [note_read]
  writes note := ⟨noteText note,rfl⟩

def sameDraw (_ : Nat) : EnvelopeDraw := ⟨AttachmentReadback.smallKey,AttachmentReadback.smallNonce,AttachmentReadback.smallNonce⟩

-- Byte-order marks, three kinds of newline and tags to fold, and its canonical form.
def roughNote : PlaintextNote :=
  ⟨1,"\ufeff\ufeffPlan","\ufeffa\r\nb\rc\r\r\n",["  Work ","HOME","home"," "],"2026-01-02T03:04:05Z","2026-01-02T03:04:05Z",["m1"]⟩

def tidyNote : PlaintextNote := ⟨1,"Plan","a\nb\nc\n\n",["home","work"],"2026-01-02T03:04:05Z","2026-01-02T03:04:05Z",["m1"]⟩

theorem rough_note_tidied : roughNote.canonicalize plainCrates.lower = tidyNote ∧ tidyNote.canonicalize plainCrates.lower = tidyNote ∧
    toCanonicalJson plainCrates roughNote = .ok (noteText tidyNote) ∧ fromJson plainCrates (noteText tidyNote) = .ok tidyNote ∧
    ∃ envelope, roughNote.encrypt (noteCrates plainCrates sameDraw) 0 AttachmentReadback.smallKey "n1" = .ok envelope ∧
      PlaintextNote.decrypt (noteCrates plainCrates sameDraw) envelope AttachmentReadback.smallKey = .ok tidyNote := by
  have stable : FoldStable plainCrates.lower := NoteMergeLaws.foldTag_again NoteMergeLaws.ascii_lowers
  have kept : CanonicalForm plainCrates sameDraw := canonical_form_kept stable plain_lawful
  have tidied : roughNote.canonicalize plainCrates.lower = tidyNote := by decide +kernel
  have valid : tidyNote.validate = .ok () := by decide +kernel
  have written : toCanonicalJson plainCrates roughNote = .ok (noteText tidyNote) := canonical_json.mpr (by rw [tidied]; exact ⟨valid,rfl⟩)
  have read := (kept.readBack _ _ written).1
  rw [tidied] at read
  refine ⟨tidied,?_,written,read,?_⟩
  · rw [← tidied]
    exact kept.idempotent roughNote
  · cases sealed_ : roughNote.encrypt (noteCrates plainCrates sameDraw) 0 AttachmentReadback.smallKey "n1" with
    | error e =>
        rcases kept.refused _ _ _ _ _ sealed_ with ⟨invalid,is,_⟩ | ⟨_,_,_,_,_,refused,_⟩
        · rw [written] at is
          cases is
        · cases refused
    | ok envelope => exact ⟨envelope,rfl,tidied ▸ (kept.decrypted _ _ _ _ _ sealed_).2⟩

end ZkNote.NoteRoundTrip
