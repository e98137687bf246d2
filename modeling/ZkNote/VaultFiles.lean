import Mathlib.Logic.Function.Basic
import ZkNote.CrashLog

namespace ZkNote.VaultFiles
open CrashLog

inductive VaultFile where
  | vault
  | notes
  | notesWal
  | notesShm
  | vaultLink
  deriving DecidableEq, Repr

def VaultFile.name : VaultFile → String
  | .vault => "vault.json"
  | .notes => "notes.db"
  | .notesWal => "notes.db-wal"
  | .notesShm => "notes.db-shm"
  | .vaultLink => "vault-link.json"

def files : List VaultFile := [.vault,.notes,.notesWal,.notesShm,.vaultLink]

def journalName : String := ".replace-transaction.json"
def sessionName : String := ".session"

inductive Phase where
  | prepared
  | oldMoved
  | newInstalled
  | committed
  deriving DecidableEq, Repr

structure Journal where
  formatVersion : Nat
  transactionId : String
  targetFingerprint : String
  oldPresent : VaultFile → Bool
  phase : Phase

-- The content of a file; `journal` when its bytes parse as one.
inductive Content where
  | bytes (data : List UInt8)
  | journal (j : Journal)

-- The data directory: its files, and its directories one level deep.
structure Dir where
  files : String → Option Content
  folders : String → Option (String → Option Content)

-- The paths of a transaction's stage and backup.
def stagePath (transactionId : String) : String := ".replace-" ++ transactionId
def backupPath (transactionId : String) : String := ".backup-" ++ transactionId

-- What reaches the disk in one piece. `put` is `atomic_write`, `moveOut` and
-- `moveIn` are renames into a folder of the directory and out of one.
inductive Op where
  | put (name : String) (content : Content)
  | remove (name : String)
  | mkdir (folder : String)
  | moveOut (name folder : String)
  | moveIn (folder name : String)
  | unlink (folder name : String)
  | rmdir (folder : String)

def Op.apply : Op → Dir → Dir
  | .put name content,d => {d with files := Function.update d.files name (some content)}
  | .remove name,d => {d with files := Function.update d.files name none}
  | .mkdir folder,d => {d with folders := Function.update d.folders folder (some (fun _ => none))}
  | .moveOut name folder,d => match d.folders folder with
    | none => d
    | some inside =>
      ⟨Function.update d.files name none,
        Function.update d.folders folder (some (Function.update inside name (d.files name)))⟩
  | .moveIn folder name,d => match d.folders folder with
    | none => d
    | some inside =>
      ⟨Function.update d.files name (inside name),
        Function.update d.folders folder (some (Function.update inside name none))⟩
  | .unlink folder name,d => match d.folders folder with
    | none => d
    | some inside => {d with folders := Function.update d.folders folder (some (Function.update inside name none))}
  | .rmdir folder,d => {d with folders := Function.update d.folders folder none}

def Dir.inside (d : Dir) (folder name : String) : Option Content := (d.folders folder).bind (· name)

-- A program is what it writes and what it returns.
structure Program where
  instrs : List (Instr Op)
  result : Except String Unit

def Program.andThen (p : Program) (next : Program) : Program :=
  match p.result with
  | .error message => ⟨p.instrs,.error message⟩
  | .ok () => ⟨p.instrs ++ next.instrs,next.result⟩

def run (prog : List (Instr Op)) (d : Dir) : Dir := applyAll Op.apply (ops prog) d

def atomicWrite (name : String) (content : Content) : List (Instr Op) := [.op (.put name content),.sync]

def writeJournal (j : Journal) : List (Instr Op) := atomicWrite journalName (.journal j)

-- `remove_dir_all` unlinks what it lists, one by one.
def removeDirAll (listing : String → List String) (folder : String) : List (Instr Op) :=
  (listing folder).map (fun name => .op (.unlink folder name)) ++ [.op (.rmdir folder)]

def removeFolder (listing : String → List String) (d : Dir) (folder : String) : List (Instr Op) :=
  if (d.folders folder).isSome then removeDirAll listing folder else []

-- One turn of the rollback loop. What it reads no earlier turn has written.
def restore (d : Dir) (j : Journal) (f : VaultFile) : Program :=
  match d.inside (backupPath j.transactionId) f.name with
  | some content => ⟨atomicWrite f.name content,.ok ()⟩
  | none =>
    if j.oldPresent f = false then ⟨if (d.files f.name).isSome then [.op (.remove f.name)] else [],.ok ()⟩
    else if j.phase ≠ .prepared then ⟨[],.error "replacement backup missing; vault access refused"⟩
    else ⟨[],.ok ()⟩

def rollback (d : Dir) (j : Journal) : List VaultFile → Program
  | [] => ⟨[.sync],.ok ()⟩
  | f :: rest => (restore d j f).andThen (rollback d j rest)

def recover (listing : String → List String) (d : Dir) : Program :=
  match d.files journalName with
  | none => ⟨[],.ok ()⟩
  | some (.bytes _) => ⟨[],.error "corrupt replacement journal; vault access refused"⟩
  | some (.journal j) =>
    if j.formatVersion ≠ 1 then ⟨[],.error "unsupported replacement journal"⟩
    else
      (if j.phase ≠ .committed then rollback d j files else ⟨[],.ok ()⟩).andThen
        ⟨[.op (.remove journalName),.sync] ++ removeFolder listing d (stagePath j.transactionId) ++
          removeFolder listing d (backupPath j.transactionId) ++ [.sync],.ok ()⟩

-- The process-start cleanup; `isUuid` is what the uuid crate accepts.
def stripPrefix (first name : String) : Option String :=
  if first.toList.isPrefixOf name.toList then some (String.ofList (name.toList.drop first.length)) else none

def stripSuffix (last name : String) : Option String :=
  if last.toList.isSuffixOf name.toList then some (String.ofList (name.toList.take (name.length - last.length))) else none

def cleanOrphans (isUuid : String → Bool) (listing : String → List String) (entries : List String) (d : Dir) : List (Instr Op) :=
  entries.flatMap (fun name =>
    (if [".replace-",".backup-"].any (fun first => (stripPrefix first name).any isUuid) && (d.folders name).isSome then
      removeDirAll listing name else []) ++
    (if ((stripPrefix ".write-" name).bind (stripSuffix ".tmp")).any isUuid && (d.files name).isSome then
      [.op (.remove name)] else [])) ++ [.sync]

structure StagedVault where
  id : String
  fingerprint : String
  deriving DecidableEq, Repr

def zeroed : Content → Content
  | .bytes data => .bytes (data.map (fun _ => 0))
  | .journal _ => .bytes []

def clearSession (d : Dir) : List (Instr Op) :=
  match d.files sessionName with
  | none => []
  | some content => [.op (.put sessionName (zeroed content)),.op (.remove sessionName)]

def journalAt (staged : StagedVault) (d : Dir) (phase : Phase) : Journal where
  formatVersion := 1
  transactionId := staged.id
  targetFingerprint := staged.fingerprint
  oldPresent f := (d.files f.name).isSome
  phase := phase

def moveOld (staged : StagedVault) (j : Journal) : List (Instr Op) :=
  files.flatMap (fun f => (if j.oldPresent f then [.op (.moveOut f.name (backupPath staged.id))] else []) ++ [.sync])

def generationFiles : List VaultFile := [.vault,.notes,.vaultLink]

-- A staged file that is not there fails its rename.
def moveNew (staged : StagedVault) (d : Dir) : Program where
  instrs := (generationFiles.takeWhile (fun f => (d.inside (stagePath staged.id) f.name).isSome)).flatMap
    (fun f => [.op (.moveIn (stagePath staged.id) f.name),.sync])
  result :=
    if generationFiles.all (fun f => (d.inside (stagePath staged.id) f.name).isSome) then .ok ()
    else .error "No such file or directory"

-- From the backup directory to the journal's last word before the commit.
def swap (staged : StagedVault) (d : Dir) : Program :=
  if (d.folders (backupPath staged.id)).isSome then ⟨clearSession d,.error "File exists"⟩
  else
    let j := journalAt staged d
    Program.andThen
      (Program.andThen ⟨clearSession d ++ [.op (.mkdir (backupPath staged.id)),.sync] ++ writeJournal (j .prepared) ++
          moveOld staged (j .prepared) ++ writeJournal (j .oldMoved),.ok ()⟩
        (moveNew staged d))
      ⟨writeJournal (j .newInstalled),.ok ()⟩

def commit (staged : StagedVault) (d : Dir) : Program := ⟨writeJournal (journalAt staged d .committed),.ok ()⟩

-- The hook of `install` does nothing. However the call returns, the staged vault
-- is dropped, and with it its directory.
def installWithHook (listing : String → List String) (staged : StagedVault) (d : Dir) : Program :=
  let first := recover listing d
  let ready := run first.instrs d
  let swapped := (swap staged ready).andThen (commit staged ready)
  let installed := run swapped.instrs ready
  let body := first.andThen (swapped.andThen (recover listing installed))
  ⟨body.instrs ++ removeFolder listing (run body.instrs d) (stagePath staged.id),body.result⟩

end ZkNote.VaultFiles
