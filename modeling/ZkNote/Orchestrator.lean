import ZkNote.PullChanges
import ZkNote.PushChanges

namespace ZkNote.Orchestrator
open Protocol Adapter LocalStorage MutationQueue Conflict PullChanges PushChanges

variable {World Key Note : Type}

structure SyncCycleOptions (Key : Type) where
  pullOptions : PullOptions
  pushOptions : PushOptions Key
  alwaysFollowupPull : Bool

def SyncCycleOptions.default : SyncCycleOptions Key := ⟨.default,.default,false⟩

structure SyncCycleReport (Note : Type) where
  initialPull : PullReport Note
  push : PushReport
  followupPull : Option (PullReport Note)
  initialCursor : Nat
  finalCursor : Nat
  mutationsAccepted : Nat
  mutationsConflicted : Nat
  mutationsRemaining : Nat

inductive SyncCycleError where
  | pull (error : PullError)
  | push (error : PushError)
  deriving DecidableEq, Repr

def SyncCycleError.isRetryable : SyncCycleError → Bool
  | .pull (.network e) => e.isRetryable
  | .push (.network e) => e.isRetryable
  | _ => false

-- Clock, ids and randomness one cycle draws, and the page bound of its pulls.
structure Draws where
  clock : Nat → String
  ticks : Nat → Tick
  followupClock : Nat → String
  fuel : Nat

-- The push phase uses the cycle's key where its options bring none.
def pushKey (options : SyncCycleOptions Key) (vaultKey : Option Key) : PushOptions Key :=
  {options.pushOptions with vaultKey := options.pushOptions.vaultKey.or vaultKey}

def cycleReport (first : PullReport Note) (push : PushReport) (followup : Option (PullReport Note)) (initialCursor : Nat)
    (s : Storage) : SyncCycleReport Note :=
  ⟨first,push,followup,initialCursor,currentCursor s,push.accepted.length,push.conflicts.length,s.pendingMutationCount⟩

def runSyncCycle (adapter : SyncServerAdapter World) (codec : NoteCodec Key Note) (vaultKey : Option Key)
    (options : SyncCycleOptions Key) (draws : Draws) (w : World) (s : Storage) :
    Option (World × Storage × Except SyncCycleError (SyncCycleReport Note)) :=
  let s := (resetInFlight s).2
  let initialCursor := currentCursor s
  match pullRemoteChanges adapter codec vaultKey options.pullOptions draws.clock draws.fuel w s with
  | none => none
  | some (w,s,.error e) => some (w,s,.error (.pull e))
  | some (w,s,.ok first) =>
  match pushPendingChanges adapter codec (pushKey options vaultKey) draws.ticks w s with
  | (w,s,.error e) => some (w,s,.error (.push e))
  | (w,s,.ok push) =>
    if push.accepted ≠ [] ∨ options.alwaysFollowupPull then
      match pullRemoteChanges adapter codec vaultKey options.pullOptions draws.followupClock draws.fuel w s with
      | none => none
      | some (w,s,.error e) => some (w,s,.error (.pull e))
      | some (w,s,.ok followup) => some (w,s,.ok (cycleReport first push (some followup) initialCursor s))
    else some (w,s,.ok (cycleReport first push none initialCursor s))

end ZkNote.Orchestrator
