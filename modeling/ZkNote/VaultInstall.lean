import ZkNote.FaultyCalls
import ZkNote.VaultReplacement

namespace ZkNote.VaultInstall
open CrashLog FaultyCalls VaultFiles VaultRecovery VaultReplacement

-- The replacement call by call. `quiet` calls read, open, sync, or write a
-- temporary file, whose name is its own and which is gone when its writer returns.
def syncDir : List (Call Op) := [.quiet,.quiet]

def atomicWrite (name : String) (content : Content) : List (Call Op) := [.quiet,.quiet,.quiet,.act (.put name content)] ++ syncDir

def writeJournal (j : Journal) : List (Call Op) := atomicWrite journalName (.journal j)

def removeDirAll (listing : String → List String) (folder : String) : List (Call Op) :=
  .quiet :: (listing folder).map (fun name => .act (.unlink folder name)) ++ [.act (.rmdir folder)]

def removeFolder (listing : String → List String) (d : Dir) (folder : String) : List (Call Op) :=
  if (d.folders folder).isSome then removeDirAll listing folder else []

def restore (d : Dir) (j : Journal) (f : VaultFile) : Script Op :=
  match d.inside (backupPath j.transactionId) f.name with
  | some content => ⟨.quiet :: atomicWrite f.name content,.ok ()⟩
  | none =>
    if j.oldPresent f = false then ⟨if (d.files f.name).isSome then [.act (.remove f.name)] else [],.ok ()⟩
    else if j.phase ≠ .prepared then ⟨[],.error "replacement backup missing; vault access refused"⟩
    else ⟨[],.ok ()⟩

def rollback (d : Dir) (j : Journal) : List VaultFile → Script Op
  | [] => ⟨syncDir,.ok ()⟩
  | f :: rest => (restore d j f).andThen (rollback d j rest)

def cleanUp (listing : String → List String) (d : Dir) (j : Journal) : List (Call Op) :=
  .act (.remove journalName) :: syncDir ++ removeFolder listing d (stagePath j.transactionId) ++
    removeFolder listing d (backupPath j.transactionId) ++ syncDir

def recover (listing : String → List String) (d : Dir) : Script Op :=
  match d.files journalName with
  | none => ⟨[.quiet],.ok ()⟩
  | some (.bytes _) => ⟨[.quiet],.error "corrupt replacement journal; vault access refused"⟩
  | some (.journal j) =>
    if j.formatVersion ≠ 1 then ⟨[.quiet],.error "unsupported replacement journal"⟩
    else
      (Script.andThen ⟨[.quiet],.ok ()⟩ (if j.phase ≠ .committed then rollback d j files else ⟨[],.ok ()⟩)).andThen
        ⟨cleanUp listing d j,.ok ()⟩

-- `clear_session` drops the errors of opening, overwriting and flushing.
def zeroSession (d : Dir) : Script Op :=
  match d.files sessionName with
  | none => ⟨[],.ok ()⟩
  | some (.bytes []) => ⟨[],.ok ()⟩
  | some content => ⟨[.quiet,.act (.put sessionName (zeroed content)),.quiet],.ok ()⟩

def removeSession (d : Dir) : Script Op :=
  ⟨if (d.files sessionName).isSome then [.act (.remove sessionName)] else [],.ok ()⟩

def syncOld (d : Dir) : List (Call Op) := files.flatMap (fun f => if (d.files f.name).isSome then [.quiet,.quiet] else [])

def moveOld (staged : StagedVault) (j : Journal) : List (Call Op) :=
  files.flatMap (fun f => (if j.oldPresent f then [.act (.moveOut f.name (backupPath staged.id))] else []) ++ syncDir ++ syncDir)

def moveNew (staged : StagedVault) (d : Dir) : Script Op where
  calls := (generationFiles.takeWhile (fun f => (d.inside (stagePath staged.id) f.name).isSome)).flatMap
    (fun f => .act (.moveIn (stagePath staged.id) f.name) :: syncDir ++ syncDir)
  result := (VaultFiles.moveNew staged d).result

-- The journal before the commit is part of the swap.
def swap (staged : StagedVault) (d : Dir) : Script Op :=
  if (d.folders (backupPath staged.id)).isSome then ⟨[],.error "File exists"⟩
  else
    let j := journalAt staged d
    Script.andThen
      (Script.andThen ⟨.act (.mkdir (backupPath staged.id)) :: syncDir ++ syncOld d ++ writeJournal (j .prepared) ++
          moveOld staged (j .prepared) ++ writeJournal (j .oldMoved),.ok ()⟩
        (moveNew staged d))
      ⟨writeJournal (j .newInstalled),.ok ()⟩

def commit (staged : StagedVault) (d : Dir) : Script Op := ⟨writeJournal (journalAt staged d .committed),.ok ()⟩

def dropStaged (listing : String → List String) (staged : StagedVault) (d : Dir) : Script Op :=
  ⟨removeFolder listing d (stagePath staged.id),.ok ()⟩

-- What the journal is written from is read once, before the swap.
def installWithHook (listing : String → List String) (staged : StagedVault) (fault : Option Fault) (d : Dir) : Outcome Dir :=
  let recovered := attempt Op.apply (recover listing d) fault d
  let cleared := (recovered.andTry Op.apply zeroSession).andThen Op.apply removeSession
  let swapped := cleared.andThen Op.apply (swap staged)
  let committed := swapped.andThen Op.apply (fun _ => commit staged cleared.disk)
  (committed.andThen Op.apply (recover listing)).dropping Op.apply (dropStaged listing staged)

-- `recovered`: the recovery that followed the failure went through.
inductive Returned where
  | ok
  | failed (message : String) (recovered : Bool)
  deriving DecidableEq, Repr

-- What SQLite makes of its files when it is opened and checkpointed.
abbrev Checkpoint := Dir → Dir × Except String Unit

def opened (checkpoint : Checkpoint) (d : Dir) : Dir × Except String Unit :=
  if (d.files VaultFile.notes.name).isSome then checkpoint d else (d,.ok ())

-- An error of SQLite drops the staged vault as any other does.
def install (checkpoint : Checkpoint) (listing : String → List String) (staged : StagedVault) (fault : Option Fault) (d : Dir) : Dir × Returned :=
  match (opened checkpoint d).2 with
  | .error message =>
    ((attempt Op.apply (dropStaged listing staged (opened checkpoint d).1) fault (opened checkpoint d).1).disk,.failed message false)
  | .ok () =>
    let a := installWithHook listing staged fault (opened checkpoint d).1
    match a.result with
    | .ok () => (a.disk,.ok)
    | .error message =>
      let b := attempt Op.apply (recover listing a.disk) a.fault a.disk
      match b.result with
      | .ok () => (b.disk,.failed message true)
      | .error message => (b.disk,.failed message false)

end ZkNote.VaultInstall
