import ZkNote.Protocol

namespace ZkNote
open Protocol

-- The note layer as the sync engine and the note commands call it: envelopes
-- are opened and sealed under the vault key, notes are built and merged.
-- `seed` stands for the randomness one sealing draws.
structure NoteCodec (Key Note : Type) where
  decrypt : EncryptedEnvelope → Key → Except String Note
  encrypt : (seed : Nat) → Note → Key → (objectId : String) → Except String EncryptedEnvelope
  build : (title body : String) → (tags : List String) → (createdAt : Option String) → (now : String) → Except String Note
  threeWayMergeNote : (base mine theirs : Note) → Note
  blank : Note
  createdAt : Note → String
  updatedAt : Note → String

-- A stand-in for runs on fixed inputs: a note is its body, a Base64 text, and
-- sealing puts the body where the payload's ciphertext stands.
def NoteCodec.standIn : NoteCodec Unit String where
  decrypt envelope _ := .ok envelope.payload.ciphertext
  encrypt _ note _ objectId := if wholeGroups note then .ok (sealedText objectId note) else .error "not Base64"
  build _ body _ _ _ := .ok body
  threeWayMergeNote _ mine _ := mine
  blank := ""
  createdAt _ := ""
  updatedAt _ := ""

end ZkNote
