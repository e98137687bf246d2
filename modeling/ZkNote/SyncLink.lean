import ZkNote.ServerHistory
import ZkNote.ServerRoutes

namespace ZkNote.SyncLink
open Protocol Adapter ServerStore ServerHistory ServerRoutes

-- A failure the client sees as transient: no connection, or a status that
-- `handle_response` reports as a server error.
inductive Outage where
  | connectionFailed (message : String)
  | serverError (status : Nat) (message : String)
  deriving DecidableEq, Repr

def Outage.error : Outage → SyncNetworkError
  | .connectionFailed message => .connectionFailed message
  | .serverError status message => .serverError status message

inductive Fault where
  | requestLost (outage : Outage)
  | responseLost (outage : Outage)
  deriving DecidableEq, Repr

-- What happens around one request of the client: the pushes of others that
-- reach the server before it, and whether the exchange breaks.
structure Slot where
  others : List Call
  fault : Option Fault

def Slot.quiet : Slot := ⟨[],none⟩

-- One push as both ends see it: the server's tables when it arrived, whether
-- the server handled it, and the answer that reached the client.
structure Exchange where
  request : PushRequest
  db : ServerDb
  handled : Bool
  answer : Except SyncNetworkError PushResponse

-- An honest server behind a network: slots are used up one per request, and
-- after the last one the network is quiet.
structure Link where
  db : ServerDb
  schedule : List Slot
  pulls : List PullChangesResponse
  pushes : List Exchange

def Link.slot (l : Link) : Slot := l.schedule.headD .quiet
def Link.arrived (crates : Crates) (l : Link) : ServerDb := pushAll crates l.db l.slot.others

def serverPull (crates : Crates) (account : String) (after : Nat) (limit : Option Nat) (l : Link) :
    Except SyncNetworkError PullChangesResponse × Link :=
  let db := l.arrived crates
  match l.slot.fault with
  | some (.requestLost outage) => (.error outage.error,{l with db := db,schedule := l.schedule.tail})
  | some (.responseLost outage) =>
    (.error outage.error,{l with db := (pullChangesHandler db account after limit).2,schedule := l.schedule.tail})
  | none =>
    let (reply,db) := pullChangesHandler db account after limit
    let answer := handleResponse reply
    (answer,{l with db := db,schedule := l.schedule.tail,pulls := l.pulls ++ answer.toOption.toList})

def serverPush (crates : Crates) (account : String) (request : PushRequest) (l : Link) :
    Except SyncNetworkError PushResponse × Link :=
  let arrived := l.arrived crates
  let (handled,answer,db) : Bool × Except SyncNetworkError PushResponse × ServerDb :=
    match l.slot.fault with
    | some (.requestLost outage) => (false,.error outage.error,arrived)
    | some (.responseLost outage) => (true,.error outage.error,(pushMutationHandler crates arrived account request).2)
    | none =>
      let (reply,db) := pushMutationHandler crates arrived account request
      (true,handleResponse reply,db)
  (answer,{l with db := db,schedule := l.schedule.tail,pushes := l.pushes ++ [⟨request,arrived,handled,answer⟩]})

def honest (crates : Crates) (account : String) : SyncServerAdapter Link where
  pushMutation := serverPush crates account
  pullChanges := serverPull crates account

end ZkNote.SyncLink
