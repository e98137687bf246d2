import ZkNote.Adapter
import ZkNote.ServerStore

namespace ZkNote.ServerRoutes
open Protocol Adapter ServerStore

-- The handler's error replies always carry both fields of `ErrorResponse`, and
-- the client reads its message from there.
def errorReply {α : Type} (status : Nat) (code message : String) : Reply α :=
  .response status ⟨.error code,some ⟨some code,some message⟩,none,message⟩

-- Steps 3 to 5 of the handler. Steps 1 and 2 reject bodies that are not the
-- JSON of a push request, which a typed request never is.
def rejectPush (crates : Crates) (request : PushRequest) : Option (Reply PushResponse) :=
  if (crates.parseUuid request.mutationId).toOption = none then
    some (errorReply 400 errorInvalidEnvelope "mutation_id must be a valid UUID")
  else if (crates.parseUuid request.objectId).toOption = none then
    some (errorReply 400 errorInvalidEnvelope "object_id must be a valid UUID")
  else if request.envelope.objectId ≠ request.objectId then
    some (errorReply 400 errorInvalidEnvelope "envelope.object_id does not match request object_id")
  else if request.envelope.envelopeVersion ≠ envelopeVersionV1 then
    some (errorReply 400 errorCryptoUnsupportedVersion
      s!"Unsupported envelope_version '{request.envelope.envelopeVersion}', expected {envelopeVersionV1}")
  else if !(crates.decodable request.envelope.wrappedKey.nonce && crates.decodable request.envelope.wrappedKey.ciphertext &&
      crates.decodable request.envelope.payload.nonce && crates.decodable request.envelope.payload.ciphertext) then
    some (errorReply 400 errorInvalidEnvelope "Envelope nonce and ciphertext fields must be valid standard Base64")
  else none

def pushReply : Except DbError PushOutcome → Reply PushResponse
  | .ok (.success response) => .response 200 ⟨.ok response,none,none,""⟩
  | .ok (.conflict conflict) => .response 409 ⟨.error conflict.error,some ⟨none,none⟩,some conflict,""⟩
  | .ok (.objectNotFound message) => errorReply 404 errorObjectNotFound message
  | .ok (.replayMismatch message) => errorReply 409 errorMutationReplayMismatch message
  | .error e => errorReply 500 errorServerFailure s!"Failed to process push mutation: {e.text}"

def pushMutationHandler (crates : Crates) (db : ServerDb) (accountId : String) (request : PushRequest) :
    Reply PushResponse × ServerDb :=
  match rejectPush crates request with
  | some reply => (reply,db)
  | none =>
    let (outcome,db) := pushMutation crates db accountId request
    (pushReply outcome,db)

def clampLimit : Option Nat → Nat
  | none => 50
  | some v => if v = 0 then 50 else if 500 < v then 500 else v

def pullChangesHandler (db : ServerDb) (accountId : String) (after : Nat) (limit : Option Nat) :
    Reply PullChangesResponse × ServerDb :=
  let (response,db) := pullChanges db accountId after (clampLimit limit)
  (.response 200 ⟨.ok response,none,none,""⟩,db)

-- A request that passes the handler's checks.
structure Admitted (crates : Crates) (request : PushRequest) : Prop where
  mutation : ∃ m, crates.parseUuid request.mutationId = .ok m
  object : ∃ o, crates.parseUuid request.objectId = .ok o
  envelope : request.envelope.objectId = request.objectId
  version : request.envelope.envelopeVersion = envelopeVersionV1
  keyNonce : crates.decodable request.envelope.wrappedKey.nonce = true
  keyText : crates.decodable request.envelope.wrappedKey.ciphertext = true
  payloadNonce : crates.decodable request.envelope.payload.nonce = true
  payloadText : crates.decodable request.envelope.payload.ciphertext = true

theorem admitted_passes (admitted : Admitted crates request) : rejectPush crates request = none := by
  obtain ⟨⟨m,mutation⟩,⟨o,object⟩,envelope,version,keyNonce,keyText,payloadNonce,payloadText⟩ := admitted
  simp [rejectPush,mutation,object,envelope,version,keyNonce,keyText,payloadNonce,payloadText,Except.toOption]

end ZkNote.ServerRoutes
