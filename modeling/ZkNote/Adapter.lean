import ZkNote.Protocol

namespace ZkNote.Adapter
open Protocol

inductive SyncNetworkError where
  | unauthorized (message : String)
  | forbidden (message : String)
  | notFound (message : String)
  | conflict (response : ConflictResponse)
  | replayMismatch (message : String)
  | invalidCursor (message : String)
  | invalidPayload (message : String)
  | serverError (status : Nat) (message : String)
  | connectionFailed (message : String)
  | serialization (message : String)
  | forbiddenPlaintext (message : String)
  deriving DecidableEq, Repr

def SyncNetworkError.isRetryable : SyncNetworkError → Bool
  | .connectionFailed _ => true
  | .serverError status _ => decide (500 ≤ status) || status == 429
  | _ => false

-- The push loop's own notion, wider than `is_retryable`: any status that
-- `handle_response` has no class for counts as transient.
def SyncNetworkError.isTransient : SyncNetworkError → Bool
  | .connectionFailed _ | .serverError _ _ => true
  | _ => false

structure ServerErrorJson where
  code : Option String
  message : Option String
  deriving DecidableEq, Repr

-- A response body as the three decoders see it, with the text of the first
-- one's failure, and the raw text for messages that no error JSON gives.
structure Body (α : Type) where
  value : Except String α
  errorJson : Option ServerErrorJson
  conflict : Option ConflictResponse
  raw : String

inductive Reply (α : Type) where
  | dropped (message : String)
  | response (status : Nat) (body : Body α)

def unreadableConflict : ConflictResponse :=
  { error := errorRevisionConflict
    objectId := ""
    expectedRevision := 0
    currentRevision := 0
    currentServerSeq := 0
    currentEnvelope := ⟨envelopeVersionV1,"",objectKindNote,⟨"",""⟩,⟨"",""⟩⟩
    isDeleted := false }

def handleResponse {α : Type} : Reply α → Except SyncNetworkError α
  | .dropped message => .error (.connectionFailed message)
  | .response status body =>
    if 200 ≤ status ∧ status < 300 then
      match body.value with
      | .ok parsed => .ok parsed
      | .error e => .error (.serialization s!"failed to deserialize server response: {e}")
    else
      let code := body.errorJson.bind (·.code)
      let message := (body.errorJson.bind (·.message)).getD body.raw
      if status = 401 then .error (.unauthorized message)
      else if status = 403 then .error (.forbidden message)
      else if status = 404 then .error (.notFound message)
      else if status = 409 then
        if code = some errorMutationReplayMismatch then .error (.replayMismatch message)
        else .error (.conflict (body.conflict.getD unreadableConflict))
      else if status = 400 then
        if code = some errorSyncCursorInvalid then .error (.invalidCursor message)
        else .error (.invalidPayload message)
      else .error (.serverError status message)

-- The contract the sync engine is written against. `World` is whatever lies
-- behind the adapter: a server, a script of replies, other clients.
structure SyncServerAdapter (World : Type) where
  pushMutation : PushRequest → World → Except SyncNetworkError PushResponse × World
  pullChanges : Nat → Option Nat → World → Except SyncNetworkError PullChangesResponse × World

end ZkNote.Adapter
