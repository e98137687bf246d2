import ZkNote.Diff3
import ZkNote.NoteCodec

namespace ZkNote.NoteMerge
open PlaintextNotes NoteErrors Diff3

inductive FieldMergeStatus (α : Type) where
  | unchanged (value : α)
  | localOnly (value : α)
  | remoteOnly (value : α)
  | identical (value : α)
  | merged (value : α)
  | conflict (base mine theirs : α)
  deriving DecidableEq, Repr

inductive FieldConflict where
  | title (base mine theirs : String)
  | body (base mine theirs : String)
  | attachments (base mine theirs : List String)
  deriving DecidableEq, Repr

structure NoteMergeOutcome where
  candidate : PlaintextNote
  conflicts : List FieldConflict
  titleStatus : FieldMergeStatus String
  bodyStatus : FieldMergeStatus String
  bodyDiff : Option Diff3Result
  deriving DecidableEq, Repr

def NoteMergeOutcome.isClean (outcome : NoteMergeOutcome) : Bool := outcome.conflicts.isEmpty

def mergeScalarField {α : Type} [DecidableEq α] (base mine theirs : α) : FieldMergeStatus α :=
  match decide (mine ≠ base),decide (theirs ≠ base) with
  | false,false => .unchanged base
  | true,false => .localOnly mine
  | false,true => .remoteOnly theirs
  | true,true => if mine = theirs then .identical mine else .conflict base mine theirs

-- `BTreeSet<String>`: its members in order, each once.
def ordered (members : List String) : List String := dedup (members.insertionSort (· ≤ ·))

def kept (base mine theirs : List String) (member : String) : Bool :=
  if member ∈ base then member ∈ mine && member ∈ theirs else member ∈ mine || member ∈ theirs

def mergeTags (lower : String → String) (base mine theirs : List String) : List String :=
  let base := base.map (foldTag lower)
  let mine := mine.map (foldTag lower)
  let theirs := theirs.map (foldTag lower)
  (ordered (base ++ mine ++ theirs)).filter (fun tag => tag ≠ "" && kept base mine theirs tag)

def mergeAttachments (base mine theirs : List String) : List String :=
  (ordered (base ++ mine ++ theirs)).filter (kept base mine theirs)

-- The value a scalar field ends up with: of a conflict, the local one.
def FieldMergeStatus.value {α : Type} : FieldMergeStatus α → α
  | .unchanged value | .localOnly value | .remoteOnly value | .identical value | .merged value => value
  | .conflict _ mine _ => mine

def titleConflicts : FieldMergeStatus String → List FieldConflict
  | .conflict base mine theirs => [.title base mine theirs]
  | _ => []

def mergeBody (base mine theirs : String) (bodyDiff : Diff3Result) : String × FieldMergeStatus String × List FieldConflict :=
  if base = mine ∧ base = theirs then (base,.unchanged base,[])
  else if base ≠ mine ∧ base = theirs then (mine,.localOnly mine,[])
  else if base = mine ∧ base ≠ theirs then (theirs,.remoteOnly theirs,[])
  else if mine = theirs then (mine,.identical mine,[])
  else if bodyDiff.isClean then (bodyDiff.mergedText,.merged bodyDiff.mergedText,[])
  else (bodyDiff.mergedText,.conflict base mine theirs,[.body base mine theirs])

def threeWayMergeNote (lower : String → String) (now : String) (base mine theirs : PlaintextNote) : NoteMergeOutcome :=
  let titleStatus := mergeScalarField base.title mine.title theirs.title
  let bodyDiff := diff3Merge base.body mine.body theirs.body
  let body := mergeBody base.body mine.body theirs.body bodyDiff
  let candidate : PlaintextNote :=
    {PlaintextNote.new titleStatus.value body.1 now with
      tags := mergeTags lower base.tags mine.tags theirs.tags
      attachments := mergeAttachments base.attachments mine.attachments theirs.attachments
      createdAt := base.createdAt}
  { candidate := candidate.canonicalize lower
    conflicts := titleConflicts titleStatus ++ body.2.2
    titleStatus := titleStatus
    bodyStatus := body.2.1
    bodyDiff := some bodyDiff }

-- The note layer as the sync engine and the commands call it, at one clock reading.
def noteCodec {Key : Type} (crates : NoteCrates Key) (now : String) : NoteCodec Key PlaintextNote where
  decrypt envelope key := (PlaintextNote.decrypt crates envelope key).mapError (CoreError.display crates.debug)
  encrypt seed note key objectId := (PlaintextNote.encrypt crates seed note key objectId).mapError (CoreError.display crates.debug)
  build title body tags createdAt now :=
    ((NoteBuilder.build crates.lower now ⟨none,title,body,tags,createdAt,none,[]⟩).map (PlaintextNote.canonicalize crates.lower)).mapError
      (CoreError.display crates.debug ∘ .validation)
  threeWayMergeNote base mine theirs := (threeWayMergeNote crates.lower now base mine theirs).candidate
  blank := PlaintextNote.new "" "" now
  createdAt note := note.createdAt
  updatedAt note := note.updatedAt

-- The shortcuts of the body merge take what diff3 takes.
theorem mergeBody_diff (base mine theirs : String) :
    (mergeBody base mine theirs (diff3Merge base mine theirs)).1 = (diff3Merge base mine theirs).mergedText ∧
    (mergeBody base mine theirs (diff3Merge base mine theirs)).2.2 =
      if (diff3Merge base mine theirs).isClean = true then [] else [.body base mine theirs] := by
  unfold mergeBody
  split
  · rename_i all
    rw [← all.1,← all.2]
    simp [diff3Merge,mergeTexts]
  · split
    · rename_i only
      rw [← only.2]
      simp [diff3Merge,mergeTexts]
    · split
      · rename_i only
        rw [← only.1]
        simp [diff3Merge,mergeTexts,only.2,Ne.symm only.2]
      · split
        · rename_i same
          simp [diff3Merge,mergeTexts,same]
        · split
          · exact ⟨rfl,rfl⟩
          · exact ⟨rfl,rfl⟩

theorem codec_decrypted {Key : Type} {crates : NoteCrates Key} {key : Key} {envelope : Protocol.EncryptedEnvelope} {note : PlaintextNote}
    (opens : PlaintextNote.decrypt crates envelope key = .ok note) (now : String) : (noteCodec crates now).decrypt envelope key = .ok note := by
  show (PlaintextNote.decrypt crates envelope key).mapError _ = _
  rw [opens]
  rfl

end ZkNote.NoteMerge
