namespace ZkNote.Protocol

def envelopeVersionV1 : UInt32 := 1
def initialExpectedRevision : Nat := 0
def initialObjectRevision : Nat := 1
def initialServerSeq : Nat := 0
def initialSyncCursor : Nat := 0
def objectKindNote : UInt16 := 1
def errorRevisionConflict : String := "REVISION_CONFLICT"
def errorMutationReplayMismatch : String := "MUTATION_REPLAY_MISMATCH"
def errorObjectNotFound : String := "OBJECT_NOT_FOUND"
def errorInvalidEnvelope : String := "INVALID_ENVELOPE"
def errorCryptoUnsupportedVersion : String := "CRYPTO_UNSUPPORTED_VERSION"
def errorSyncCursorInvalid : String := "SYNC_CURSOR_INVALID"
def errorServerFailure : String := "SERVER_FAILURE"

-- Base64 texts; the server never looks inside them.
structure EncryptedKeyContainer where
  nonce : String
  ciphertext : String
  deriving DecidableEq, Repr

structure EncryptedPayloadContainer where
  nonce : String
  ciphertext : String
  deriving DecidableEq, Repr

structure EncryptedEnvelope where
  envelopeVersion : UInt32
  objectId : String
  objectKind : UInt16
  wrappedKey : EncryptedKeyContainer
  payload : EncryptedPayloadContainer
  deriving DecidableEq, Repr

-- Revisions and sequences are u64 on the wire. They only ever count up by one
-- per accepted push, so they are natural numbers here; kinds and versions keep
-- their width because the request hash takes their bytes.
structure PushRequest where
  mutationId : String
  objectId : String
  expectedRevision : Nat
  objectKind : UInt16
  envelope : EncryptedEnvelope
  isDeleted : Bool
  deriving DecidableEq, Repr

structure PushResponse where
  objectId : String
  revision : Nat
  serverSeq : Nat
  deriving DecidableEq, Repr

structure ConflictResponse where
  error : String
  objectId : String
  expectedRevision : Nat
  currentRevision : Nat
  currentServerSeq : Nat
  currentEnvelope : EncryptedEnvelope
  isDeleted : Bool
  deriving DecidableEq, Repr

structure ObjectChange where
  serverSeq : Nat
  objectId : String
  revision : Nat
  objectKind : UInt16
  isDeleted : Bool
  envelope : EncryptedEnvelope
  deriving DecidableEq, Repr

structure PullChangesResponse where
  changes : List ObjectChange
  nextCursor : Nat
  hasMore : Bool
  deriving DecidableEq, Repr

-- Two notes and four mutation ids for runs on fixed inputs, and texts that are
-- whole groups of Base64 letters.
def sealedText (objectId text : String) : EncryptedEnvelope :=
  ⟨envelopeVersionV1,objectId,objectKindNote,⟨"AAAA","AAAA"⟩,⟨"AAAA",text⟩⟩

def upsertOf (mutationId objectId : String) (expectedRevision : Nat) (text : String) : PushRequest :=
  ⟨mutationId,objectId,expectedRevision,objectKindNote,sealedText objectId text,false⟩

def firstNote : String := "00000000-0000-4000-8000-00000000000a"
def secondNote : String := "00000000-0000-4000-8000-00000000000b"
def change1 : String := "00000000-0000-4000-8000-000000000001"
def change2 : String := "00000000-0000-4000-8000-000000000002"
def change3 : String := "00000000-0000-4000-8000-000000000003"
def change4 : String := "00000000-0000-4000-8000-000000000004"

def wholeGroups (text : String) : Bool := decide (text.length % 4 = 0) && text.toList.all (·.isAlphanum)

end ZkNote.Protocol
