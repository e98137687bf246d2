import ZkNote.Conflict

namespace ZkNote.PushChanges
open Protocol Adapter LocalStorage MutationQueue Conflict

variable {World Key Note : Type}

structure PushOptions (Key : Type) where
  maxMutations : Option Nat
  stopOnConflict : Bool
  conflictPolicy : ConflictPolicy
  vaultKey : Option Key

def PushOptions.default : PushOptions Key := ⟨none,false,.manual,none⟩

structure PushItemSuccess where
  mutationId : String
  objectId : String
  revision : Nat
  serverSeq : Nat
  deriving DecidableEq, Repr

structure PushReport where
  totalAttempted : Nat
  accepted : List PushItemSuccess
  conflicts : List PushItemConflict
  lwwResolved : List GuardedLwwOutcome
  transientFailures : Nat
  deriving DecidableEq, Repr

def PushReport.default : PushReport := ⟨0,[],[],[],0⟩

inductive PushError where
  | network (error : SyncNetworkError)
  | queue (error : QueueError)
  | storage (error : StorageError)
  deriving DecidableEq, Repr

-- How one turn of the loop ends: go on, break, or return the error.
inductive Flow where
  | next
  | stop
  | abort (error : PushError)
  deriving DecidableEq, Repr

-- The match on the adapter's answer, with the mutation marked in flight.
def settlePush (codec : NoteCodec Key Note) (options : PushOptions Key) (tick : Tick) (mutation : PendingMutation)
    (s : Storage) (report : PushReport) : Except SyncNetworkError PushResponse → Storage × PushReport × Flow
  | .ok resp =>
    match acknowledgeAccepted s mutation.mutationId resp.revision resp.serverSeq tick.now with
    | .error e => (s,report,.abort (.queue e))
    | .ok (_,s) =>
      (s,{report with accepted := report.accepted ++ [⟨mutation.mutationId,resp.objectId,resp.revision,resp.serverSeq⟩]},.next)
  | .error (.conflict conflict) =>
    if options.conflictPolicy = .guardedLww ∧ ¬(conflict.isDeleted ∨ mutation.mutationType = .delete) then
      match evaluateGuardedLww codec options.vaultKey tick s mutation conflict with
      | (.error e,s) => (s,report,.abort (.queue e))
      | (.ok outcome,s) => (s,{report with lwwResolved := report.lwwResolved ++ [outcome]},.next)
    else
      let s := orKeep s (markPending s mutation.mutationId)
      match recordConflict codec options.vaultKey tick s ⟨mutation,conflict⟩ with
      | .error e => (s,report,.abort (.storage e))
      | .ok (_,s) =>
        (s,{report with conflicts := report.conflicts ++ [⟨mutation,conflict⟩]},if options.stopOnConflict then .stop else .next)
  | .error e =>
    if e.isTransient then
      (orKeep s (markPending s mutation.mutationId),{report with transientFailures := report.transientFailures+1},.next)
    else (orKeep s (markFailed s mutation.mutationId),report,.abort (.network e))

def attempt (adapter : SyncServerAdapter World) (codec : NoteCodec Key Note) (options : PushOptions Key) (tick : Tick)
    (mutation : PendingMutation) (w : World) (s : Storage) (report : PushReport) : World × Storage × PushReport × Flow :=
  let report := {report with totalAttempted := report.totalAttempted+1}
  match markInFlight s mutation.mutationId with
  | .error e => (w,s,report,.abort (.queue e))
  | .ok s =>
    let (answer,w) := adapter.pushMutation (requestOf mutation) w
    (w,settlePush codec options tick mutation s report answer)

def pushLoop (adapter : SyncServerAdapter World) (codec : NoteCodec Key Note) (options : PushOptions Key)
    (ticks : Nat → Tick) : List PendingMutation → World → Storage → PushReport → World × Storage × Except PushError PushReport
  | [],w,s,report => (w,s,.ok report)
  | mutation :: rest,w,s,report =>
    if options.maxMutations.any (fun most => decide (most ≤ report.totalAttempted)) then (w,s,.ok report)
    else if ready mutation then
      match attempt adapter codec options (ticks report.totalAttempted) mutation w s report with
      | (w,s,report,.next) => pushLoop adapter codec options ticks rest w s report
      | (w,s,report,.stop) => (w,s,.ok report)
      | (w,s,_,.abort e) => (w,s,.error e)
    else pushLoop adapter codec options ticks rest w s report

def pushPendingChanges (adapter : SyncServerAdapter World) (codec : NoteCodec Key Note) (options : PushOptions Key)
    (ticks : Nat → Tick) (w : World) (s : Storage) : World × Storage × Except PushError PushReport :=
  pushLoop adapter codec options ticks s.listPendingMutations w s .default

end ZkNote.PushChanges
