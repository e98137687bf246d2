import ZkNote.LcsGrid
import ZkNote.PlaintextNotes

namespace ZkNote.Diff3
open LcsGrid PlaintextNotes

variable {α : Type} [DecidableEq α]

structure BodyConflict where
  baseLineStart : Nat
  baseLines : List String
  localLines : List String
  remoteLines : List String
  deriving DecidableEq, Repr

structure Diff3Result where
  mergedText : String
  isClean : Bool
  conflicts : List BodyConflict
  deriving DecidableEq, Repr

-- `list[start..stop]`.
def slice {β : Type} (list : List β) (start stop : Nat) : List β := (list.take stop).drop start

-- The common lines at both ends, and between them the pairs of the differing core.
def pairsAround (core : List α → List α → List (Nat × Nat)) (a b : List α) : List (Nat × Nat) :=
  if a.isEmpty || b.isEmpty then [] else
  let prefixLen := commonPrefix a b
  let suffixLen := commonPrefix (a.drop prefixLen).reverse (b.drop prefixLen).reverse
  let aMid := slice a prefixLen (a.length-suffixLen)
  let bMid := slice b prefixLen (b.length-suffixLen)
  (List.range prefixLen).map (fun k => (k,k)) ++
    (core aMid bMid).map (fun pair => (prefixLen+pair.1,prefixLen+pair.2)) ++
    (List.range suffixLen).map (fun k => (a.length-suffixLen+k,b.length-suffixLen+k))

-- A core whose table would be too large is left unmatched.
def withinLimit (matched : List α → List α → List (Nat × Nat)) (a b : List α) : List (Nat × Nat) :=
  if a.isEmpty || b.isEmpty then [] else
  if a.length*b.length ≤ 4000000 then matched a b else []

-- `Vec<Vec<u32>>`, a vector for each row.
def rows (n m : Nat) : Grid (Vector (Vector Nat (m+1)) (n+1)) n m where
  blank := Vector.replicate (n+1) (Vector.replicate (m+1) 0)
  read s i j := (s[i]?.bind (fun row => row[j]?)).getD 0
  write s i j v := s.setIfInBounds i ((s[i]?.getD (Vector.replicate (m+1) 0)).setIfInBounds j v)
  read_blank i j row column := by
    simp [Nat.lt_succ_of_le row,Nat.lt_succ_of_le column]
  read_write s i j v i' j' row column row' column' := by
    by_cases sameRow : i' = i
    · subst sameRow
      by_cases sameColumn : j' = j
      · subst sameColumn
        simp [Nat.lt_succ_of_le row,Nat.lt_succ_of_le column]
      · simp [Nat.lt_succ_of_le row,sameColumn,Ne.symm sameColumn]
    · simp [sameRow,Ne.symm sameRow]

def lcsMatchedPairs (a b : List α) : List (Nat × Nat) :=
  pairsAround (withinLimit (fun a b => matched a b (rows a.length b.length))) a b

def linesOf (text : String) : List String :=
  let norm := unixNewlines text
  if norm = "" then [] else (norm.toList.splitOn '\n').map String.ofList

section
variable (block : (mine base theirs : List String) → List String)

def processChunk (bStart : Nat) (base mine theirs : List String) : List String × List BodyConflict :=
  match decide (mine ≠ base),decide (theirs ≠ base) with
  | false,false => (base,[])
  | true,false => (mine,[])
  | false,true => (theirs,[])
  | true,true =>
    if mine = theirs then (mine,[])
    else (block mine base theirs,[⟨bStart+1,base,mine,theirs⟩])

-- One chunk before each anchor, the anchor's own line, and a last chunk.
def mergeChunks (base mine theirs : List String) : Nat → Nat → Nat → List (Nat × Nat × Nat) → List String × List BodyConflict
  | prevB,prevL,prevR,[] =>
    processChunk block prevB (slice base prevB base.length) (slice mine prevL mine.length) (slice theirs prevR theirs.length)
  | prevB,prevL,prevR,(b,l,r) :: rest =>
    let chunk := processChunk block prevB (slice base prevB b) (slice mine prevL l) (slice theirs prevR r)
    let others := mergeChunks base mine theirs (b+1) (l+1) (r+1) rest
    (chunk.1 ++ base[b]?.toList ++ others.1,chunk.2 ++ others.2)

-- Base lines that are matched on both sides; a map keeps the last value of a key.
def commonAnchors (pairs : List String → List String → List (Nat × Nat)) (base mine theirs : List String) : List (Nat × Nat × Nat) :=
  let brMap := (pairs base theirs).reverse
  (pairs base mine).filterMap (fun pair => (brMap.lookup pair.1).map (fun r => (pair.1,pair.2,r)))

def mergeTexts (pairs : List String → List String → List (Nat × Nat)) (base mine theirs : String) : Diff3Result :=
  if mine = theirs then ⟨mine,true,[]⟩ else
  if theirs = base then ⟨mine,true,[]⟩ else
  if mine = base then ⟨theirs,true,[]⟩ else
  let baseLines := linesOf base
  let localLines := linesOf mine
  let remoteLines := linesOf theirs
  let merged := mergeChunks block baseLines localLines remoteLines 0 0 0 (commonAnchors pairs baseLines localLines remoteLines)
  ⟨String.intercalate "\n" merged.1,merged.2.isEmpty,merged.2⟩

end

def conflictBlock (mine base theirs : List String) : List String :=
  "<<<<<<< LOCAL" :: mine ++ "||||||| BASE" :: base ++ "=======" :: theirs ++ [">>>>>>> REMOTE"]

def diff3Merge (base mine theirs : String) : Diff3Result := mergeTexts conflictBlock lcsMatchedPairs base mine theirs

end ZkNote.Diff3
