import Mathlib.Data.List.Infix
import Mathlib.Data.List.Sort
import ZkNote.SessionIndex
import ZkNote.ByteOffsets

namespace ZkNote.SearchIndex
open PlaintextNotes SessionIndex StdText

inductive IndexOp where
  | insert (id : String) (note : PlaintextNote)
  | insertRaw (id title : String) (tags : List String) (body updatedAt : String)
  | remove (id : String)
  | clear
  deriving DecidableEq, Repr

-- `position`, then `Vec::remove`: of several entries with the id the first goes.
def remove (entries : List IndexedNote) (id : String) : List IndexedNote := entries.eraseP (fun e => e.id = id)

def insertRaw (entries : List IndexedNote) (id title : String) (tags : List String) (body updatedAt : String) : List IndexedNote :=
  remove entries id ++ [⟨id,title,tags,body,updatedAt⟩]

def insert (entries : List IndexedNote) (id : String) (note : PlaintextNote) : List IndexedNote :=
  remove entries id ++ [indexed id note]

def IndexOp.apply (entries : List IndexedNote) : IndexOp → List IndexedNote
  | .insert id note => SearchIndex.insert entries id note
  | .insertRaw id title tags body updatedAt => SearchIndex.insertRaw entries id title tags body updatedAt
  | .remove id => SearchIndex.remove entries id
  | .clear => []

def run (ops : List IndexOp) : List IndexedNote := ops.foldl IndexOp.apply []

structure SearchTerm where
  text : String
  tagOnly : Bool
  deriving DecidableEq, Repr

structure SearchResult where
  id : String
  title : String
  tags : List String
  snippet : String
  updatedAt : String
  score : UInt32
  deriving DecidableEq

def splitWhitespace (text : List Char) : List (List Char) := (text.splitOnP isWhitespace).filter (· ≠ [])

-- `str::contains`.
def contains (text part : String) : Bool := decide (part.toList <:+: text.toList)

-- `str::matches(part).count()`: the next match is looked for after the last one;
-- the empty text matches before and after every character.
def countFrom (part : List Char) : Nat → List Char → Nat
  | _,[] => 0
  | skip+1,_ :: rest => countFrom part skip rest
  | 0,c :: rest => if part.isPrefixOf (c :: rest) then 1+countFrom part (part.length-1) rest else countFrom part 0 rest

def countMatches (text part : String) : Nat :=
  if part = "" then text.toList.length+1 else countFrom part.toList 0 text.toList

-- What the search takes from elsewhere: full Unicode lower-casing, `char::is_alphanumeric`,
-- and whether the build stops on an overflow or wraps.
structure SearchBuild where
  lower : String → String
  isAlphanumeric : Char → Bool
  overflowChecks : Bool

variable (build : SearchBuild)

def searchTerm (lower : String → String) (word : List Char) : SearchTerm :=
  match word with
  | '#' :: stripped => ⟨lower (String.ofList stripped),true⟩
  | word => ⟨lower (String.ofList word),false⟩

def searchTerms (lower : String → String) (trimmedQuery : String) : List SearchTerm :=
  (splitWhitespace trimmedQuery.toList).map (searchTerm lower)

def SearchBuild.add (a b : UInt32) : Option UInt32 :=
  if build.overflowChecks && decide (2^32 ≤ a.toNat+b.toNat) then none else some (a+b)

def SearchBuild.mul (a b : UInt32) : Option UInt32 :=
  if build.overflowChecks && decide (2^32 ≤ a.toNat*b.toNat) then none else some (a*b)

structure Lowered where
  title : String
  body : String
  tags : List String

def Lowered.of (lower : String → String) (note : IndexedNote) : Lowered := ⟨lower note.title,lower note.body,note.tags.map lower⟩

def Lowered.inTags (note : Lowered) (text : String) : Bool := note.tags.any (fun tag => tag == text || contains tag text)

def Lowered.matchesTerm (note : Lowered) (term : SearchTerm) : Bool :=
  if term.tagOnly then note.inTags term.text
  else contains note.title term.text || contains note.body term.text || note.inTags term.text

def Lowered.titleBoost (note : Lowered) (fullQuery : String) (score : UInt32) : Option UInt32 :=
  if note.title = fullQuery then build.add score 200
  else if contains note.title fullQuery then build.add score 100
  else some score

def Lowered.queryScore (note : Lowered) (fullQuery : String) (score : UInt32) : Option UInt32 := do
  let score ← note.titleBoost build fullQuery score
  if contains note.body fullQuery then build.add score 40 else some score

def Lowered.titleScore (note : Lowered) (text : String) (score : UInt32) : Option UInt32 :=
  if note.title = text then build.add score 60
  else if (note.title.toList.splitOnP (fun c => !build.isAlphanumeric c)).any (fun word => word == text.toList) then build.add score 40
  else if contains note.title text then build.add score 20
  else some score

def tagScore (text : String) (score : UInt32) (tag : String) : Option UInt32 :=
  if tag = text then build.add score 50
  else if contains tag text then build.add score 25
  else some score

-- `count as u32` keeps the low half of the count.
def Lowered.bodyScore (note : Lowered) (term : SearchTerm) (score : UInt32) : Option UInt32 :=
  if term.tagOnly then some score else
  let count := countMatches note.body term.text
  if 0 < count then do
    let twice ← build.mul (UInt32.ofNat count) 2
    let bonus ← build.add 10 (if twice ≤ 20 then twice else 20)
    build.add score bonus
  else some score

def Lowered.termScore (note : Lowered) (score : UInt32) (term : SearchTerm) : Option UInt32 := do
  let score ← note.titleScore build term.text score
  let score ← note.tags.foldlM (tagScore build term.text) score
  note.bodyScore build term score

-- `none` is a run that stopped on an overflow, `some none` a note that does not match.
def scoreNote (note : IndexedNote) (fullQuery : String) (terms : List SearchTerm) : Option (Option UInt32) :=
  let lowered := Lowered.of build.lower note
  if terms.all lowered.matchesTerm then do
    let score ← lowered.queryScore build fullQuery 10
    let score ← terms.foldlM (lowered.termScore build) score
    some (some score)
  else some none

-- `str::find`: the byte offset of the first occurrence.
def findText (part : List Char) : List Char → Option Nat
  | [] => if part = [] then some 0 else none
  | c :: rest => if part.isPrefixOf (c :: rest) then some 0 else (findText part rest).map (· + c.utf8Size)

def earliest (lowerBody : List Char) (earliestPos : Option Nat) (term : String) : Option Nat :=
  if term = "" then earliestPos else
  match findText term.toList lowerBody,earliestPos with
  | some pos,some p => if pos < p then some pos else some p
  | some pos,none => some pos
  | none,earliestPos => earliestPos

-- How many characters of the body start before the byte offset; 0 when all do.
def charIndex (body : List Char) (bytePos : Nat) : Nat :=
  ((List.range body.length).find? (fun i => bytePos ≤ ByteOffsets.size (body.take i))).getD 0

def charWindow (body : List Char) : Option Nat → Nat × Nat
  | some bytePos => (charIndex body bytePos-20,min body.length (charIndex body bytePos+40))
  | none => (0,min body.length 60)

def blank (c : Char) : Char := if c = '\n' || c = '\r' then ' ' else c

def ellipsis (cut : Bool) : String := if cut then "..." else ""

def extractSnippet (lower : String → String) (body : String) (terms : List String) : String :=
  if body = "" then "" else
  let chars := body.toList
  let (charStart,charEnd) := charWindow chars (terms.foldl (earliest (lower body).toList) none)
  let snippet := String.ofList (((chars.take charEnd).drop charStart).map blank)
  ellipsis (0 < charStart) ++ trim snippet ++ ellipsis (charEnd < chars.length)

def resultOf (rawTerms : List String) (note : IndexedNote) (score : UInt32) : SearchResult :=
  ⟨note.id,note.title,note.tags,extractSnippet build.lower note.body rawTerms,note.updatedAt,score⟩

def collectMatches (fullQuery : String) (terms : List SearchTerm) : List IndexedNote → Option (List SearchResult)
  | [] => some []
  | note :: rest => do
    let score ← scoreNote build note fullQuery terms
    let results ← collectMatches fullQuery terms rest
    some (match score with
      | some score => resultOf build (terms.map (·.text)) note score :: results
      | none => results)

-- By score and then by time, both descending.
def ranked (a b : SearchResult) : Prop := b.score < a.score ∨ a.score = b.score ∧ b.updatedAt ≤ a.updatedAt

instance : DecidableRel ranked := fun _ _ => inferInstanceAs (Decidable (_ ∨ _))

def search (entries : List IndexedNote) (query : String) : Option (List SearchResult) :=
  let trimmedQuery := trim query
  if trimmedQuery = "" then some [] else
  let terms := searchTerms build.lower trimmedQuery
  if terms = [] then some [] else
  (collectMatches build (build.lower trimmedQuery) terms entries).map (·.insertionSort ranked)

end ZkNote.SearchIndex
