import ZkNote.CycleSteps
import ZkNote.ScriptedServer

namespace ZkNote.MutationRetention
open Protocol Adapter KeyedTable LocalStorage MutationQueue PullChanges PushChanges PushSteps Orchestrator CycleSteps
open ScriptedServer

variable {Key Note : Type}

-- The replies that the push loop treats as fatal: 401, 403, 404, 400, a replay
-- mismatch, and a success whose body does not decode.
def Refuses : Reply PushResponse → Prop
  | .dropped _ => False
  | .response status body =>
    (200 ≤ status ∧ status < 300 ∧ ∃ e, body.value = .error e) ∨
    status = 401 ∨ status = 403 ∨ status = 404 ∨ status = 400 ∨
    status = 409 ∧ body.errorJson.bind (·.code) = some errorMutationReplayMismatch

-- Every mutation that could be sent is accepted or can still be sent.
def Retained (s : Storage) (w : Script) (t : Storage) : Prop :=
  ∀ m ∈ s.mutations.rows, ready m = true →
    Accepted w (requestOf m) ∨ ∃ row ∈ t.mutations.rows, requestOf row = requestOf m ∧ ready row = true

-- What the cycles keep, whatever the replies are.
structure Kept (s₀ : Storage) (w : Script) (s : Storage) : Prop where
  unaccepted : ∀ row ∈ s.mutations.rows, ¬Accepted w (requestOf row)
  origin : ∀ row ∈ s.mutations.rows, ready row = true → ∃ m ∈ s₀.mutations.rows, ready m = true ∧ requestOf m = requestOf row
  retained : (∀ x ∈ w.sent, ¬Refuses x.2) → Retained s₀ w s
  lost : (∃ x ∈ w.sent, Refuses x.2) →
    ∃ m ∈ s₀.mutations.rows, ready m = true ∧ ∃ row ∈ s.mutations.rows, requestOf row = requestOf m ∧ row.status = .failed

variable {w w' : Script} {s₀ s t : Storage} {row : PendingMutation}

def oneQueued : Storage :=
  {Storage.new with mutations := Storage.new.mutations.upsert (queued change1 firstNote 0 .pending "aaaa" "t1")}

def expired : Reply PushResponse :=
  .response 401 ⟨.error "not a push response",some ⟨some "UNAUTHORIZED",some "token expired"⟩,none,""⟩
def welcome : Reply PushResponse := .response 200 ⟨.ok ⟨firstNote,1,1⟩,none,none,""⟩

end ZkNote.MutationRetention
