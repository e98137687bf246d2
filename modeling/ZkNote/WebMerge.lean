import ZkNote.IndexedDb
import ZkNote.NoteMerge

namespace ZkNote.WebMerge
open LcsGrid PlaintextNotes Diff3 NoteMerge IndexedDb StdText

-- `utils/diff3.ts`. `String.prototype.trim` strips white space and line ends in
-- the sense of the language, the byte order mark among them.
def isJsSpace (c : Char) : Bool :=
  let v := c.toNat
  (0x09 ≤ v && v ≤ 0x0d) || v = 0x20 || v = 0xa0 || v = 0x1680 || (0x2000 ≤ v && v ≤ 0x200a) ||
    v = 0x2028 || v = 0x2029 || v = 0x202f || v = 0x205f || v = 0x3000 || v = 0xfeff

-- What the page takes from the browser: lower-casing, and its locale's order.
structure Browser where
  toLowerCase : String → String
  collation : Collation

structure PlaintextNoteDto where
  id : String
  title : String
  body : String
  tags : List String
  attachments : List String
  createdAt : String
  updatedAt : String
  deriving DecidableEq, Repr

structure ThreeWayNoteMergeResult where
  candidate : PlaintextNoteDto
  isClean : Bool
  hasTitleConflict : Bool
  hasBodyConflict : Bool
  diffResult : Diff3Result
  deriving DecidableEq, Repr

theorem flat_inside {n m i j : Nat} (row : i ≤ n) (column : j ≤ m) : i*(m+1)+j < (n+1)*(m+1) := by
  calc i*(m+1)+j < i*(m+1)+(m+1) := by omega
    _ = (i+1)*(m+1) := (Nat.succ_mul i (m+1)).symm
    _ ≤ (n+1)*(m+1) := Nat.mul_le_mul_right _ (Nat.succ_le_succ row)

theorem flat_apart {m i j i' j' : Nat} (column : j ≤ m) (column' : j' ≤ m) : i'*(m+1)+j' = i*(m+1)+j ↔ i' = i ∧ j' = j := by
  constructor
  · intro same
    have rows : i' = i := by
      have quotient := congrArg (· / (m+1)) same
      simp only [Nat.mul_comm _ (m+1),Nat.mul_add_div (Nat.succ_pos m),Nat.div_eq_of_lt (Nat.lt_succ_of_le column),
        Nat.div_eq_of_lt (Nat.lt_succ_of_le column')] at quotient
      exact quotient
    exact ⟨rows,by rw [rows] at same; omega⟩
  · rintro ⟨rfl,rfl⟩
    rfl

-- One `Int32Array`, row after row with `m + 1` numbers each.
def flat (n m : Nat) : Grid (Vector Nat ((n+1)*(m+1))) n m where
  blank := Vector.replicate ((n+1)*(m+1)) 0
  read s i j := s[i*(m+1)+j]?.getD 0
  write s i j v := s.setIfInBounds (i*(m+1)+j) v
  read_blank i j row column := by
    rw [Vector.getElem?_replicate,if_pos (flat_inside row column)]
    rfl
  read_write s i j v i' j' row column row' column' := by
    rw [Vector.getElem?_setIfInBounds]
    by_cases same : i*(m+1)+j = i'*(m+1)+j'
    · rw [if_pos same,if_pos (flat_inside row column),if_pos ((flat_apart column column').mp same.symm)]
      rfl
    · rw [if_neg same,if_neg (fun is => same ((flat_apart column column').mpr is).symm)]

def lcsMatchedPairs {α : Type} [DecidableEq α] (a b : List α) : List (Nat × Nat) :=
  pairsAround (withinLimit (fun a b => matched a b (flat a.length b.length))) a b

def conflictBlock (mine _base theirs : List String) : List String :=
  "<<<<<<< LOCAL" :: mine ++ "=======" :: theirs ++ [">>>>>>> REMOTE"]

def diff3Merge (base mine theirs : String) : Diff3Result := mergeTexts conflictBlock lcsMatchedPairs base mine theirs

-- `new Set(list)`: each member once, where it came first.
def jsSet : List String → List String
  | [] => []
  | tag :: rest => tag :: (jsSet rest).filter (· ≠ tag)

def foldJsTags (browser : Browser) (tags : List String) : List String :=
  jsSet ((tags.map (fun tag => browser.toLowerCase (trimBy isJsSpace tag))).filter (· ≠ ""))

def sortedBefore (collation : Collation) (a b : String) : Prop := collation.localeCompare a b ≠ .gt

instance (collation : Collation) : DecidableRel (sortedBefore collation) :=
  fun a b => inferInstanceAs (Decidable (collation.localeCompare a b ≠ .gt))

def mergeTags (browser : Browser) (baseTags localTags remoteTags : List String) : List String :=
  let baseSet := foldJsTags browser baseTags
  let localSet := foldJsTags browser localTags
  let remoteSet := foldJsTags browser remoteTags
  let allTags := jsSet (baseSet ++ localSet ++ remoteSet)
  (allTags.filter (kept baseSet localSet remoteSet)).insertionSort (sortedBefore browser.collation)

-- `a || b` on strings.
def orElse (a b : String) : String := if a = "" then b else a

def mergeTitle (baseTitle localTitle remoteTitle : String) : String × Bool :=
  match decide (localTitle ≠ baseTitle),decide (remoteTitle ≠ baseTitle) with
  | false,false => (baseTitle,false)
  | true,false => (localTitle,false)
  | false,true => (remoteTitle,false)
  | true,true => if localTitle = remoteTitle then (localTitle,false) else (localTitle,true)

def threeWayMergeNotes (browser : Browser) (now : String) (baseNote : Option PlaintextNoteDto) (localNote remoteNote : PlaintextNoteDto) :
    ThreeWayNoteMergeResult :=
  let baseTitle := baseNote.elim "" (·.title)
  let baseBody := baseNote.elim "" (·.body)
  let baseTags := baseNote.elim [] (·.tags)
  let title := mergeTitle baseTitle localNote.title remoteNote.title
  let diffResult := diff3Merge baseBody localNote.body remoteNote.body
  let baseAttachments := baseNote.elim [] (·.attachments)
  { candidate :=
      { id := localNote.id
        title := title.1
        body := diffResult.mergedText
        tags := mergeTags browser baseTags localNote.tags remoteNote.tags
        attachments := mergeTags browser baseAttachments localNote.attachments remoteNote.attachments
        createdAt := orElse (orElse localNote.createdAt remoteNote.createdAt) now
        updatedAt := now }
    isClean := !title.2 && diffResult.isClean
    hasTitleConflict := title.2
    hasBodyConflict := !diffResult.isClean
    diffResult := diffResult }

end ZkNote.WebMerge
