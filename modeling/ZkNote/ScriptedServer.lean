import ZkNote.Adapter
import ZkNote.LocalStorage

namespace ZkNote.ScriptedServer
open Protocol Adapter LocalStorage

-- Any server at all: one reply per request, in order, then a dead connection.
-- `sent` records each push with the reply it got.
structure Script where
  pulls : List (Reply PullChangesResponse)
  pushes : List (Reply PushResponse)
  sent : List (PushRequest × Reply PushResponse)

def hangUp {α : Type} : Reply α := .dropped "connection closed"

def scripted : SyncServerAdapter Script where
  pushMutation request w :=
    let reply := w.pushes.headD hangUp
    (handleResponse reply,{w with pushes := w.pushes.tail,sent := w.sent ++ [(request,reply)]})
  pullChanges _ _ w := (handleResponse (w.pulls.headD hangUp),{w with pulls := w.pulls.tail})

def Accepted (w : Script) (request : PushRequest) : Prop :=
  ∃ reply resp, (request,reply) ∈ w.sent ∧ handleResponse reply = .ok resp

variable {w w' : Script}

end ZkNote.ScriptedServer
