import ZkNote.PlaintextNotes

namespace ZkNote.EditBuffer
open PlaintextNotes StdText

structure ParsedEdit where
  title : String
  tags : List String
  body : String
  deriving DecidableEq, Repr

def noteToEditBuffer (title : String) (tags : List String) (body : String) : String :=
  let tagsFormatted := if tags = [] then "[]" else "[" ++ String.intercalate ", " tags ++ "]"
  "---\ntitle: " ++ title ++ "\ntags: " ++ tagsFormatted ++ "\n---\n\n" ++ body ++ "\n"

-- `strip_prefix`.
def afterStart (start : String) (text : List Char) : Option (List Char) :=
  if start.toList.isPrefixOf text then some (text.drop start.length) else none

def trimList (space : Char → Bool) (text : List Char) : List Char := ((text.dropWhile space).reverse.dropWhile space).reverse

-- Where the search for the closing fence ends: the text up to the fence and the
-- text after it, nothing, or a slice that would start inside a character.
inductive Fence where
  | found (front after : List Char)
  | absent
  | insideCharacter

def closes (after : List Char) : Bool := after.isEmpty || (afterStart "\n" after).isSome || (afterStart "\r\n" after).isSome

def fenceHere (text : List Char) : Option (List Char × List Char) :=
  match afterStart "\n---" text with
  | some after => if closes after then some (['\n'],after) else none
  | none =>
    match afterStart "\r\n---" text with
    | some after => if closes after then some (['\r','\n'],after) else none
    | none => none

-- The source advances one byte at a time, and slices at every byte it comes to.
def findClosingFence : List Char → Fence
  | [] => .absent
  | c :: rest =>
    match fenceHere (c :: rest) with
    | some (newline,after) => .found newline after
    | none =>
      if c.utf8Size ≠ 1 then .insideCharacter
      else match findClosingFence rest with
        | .found front after => .found (c :: front) after
        | .absent => .absent
        | .insideCharacter => .insideCharacter

-- `str::lines`: a line ends at a line feed, with the carriage return before it.
def lines (text : List Char) : List (List Char) :=
  let parts := text.splitOn '\n'
  let whole := parts.dropLast.map (fun line => if line.getLast? = some '\r' then line.dropLast else line)
  match parts.getLast? with
  | some [] | none => whole
  | some last => whole ++ [last]

def isQuote (c : Char) : Bool := c = '\x22'
def isApostrophe (c : Char) : Bool := c = '\x27'

def readTags (lower : String → String) (value : List Char) : List String :=
  let cleaned := trimList (· = ']') (trimList (· = '[') (trimList isWhitespace value))
  ((cleaned.splitOn ',').map (fun tag => lower (String.ofList (trimList isApostrophe (trimList isQuote (trimList isWhitespace tag)))))).filter (· ≠ "")

def readLine (lower : String → String) (parsed : ParsedEdit) (line : List Char) : ParsedEdit :=
  let lineTrim := trimList isWhitespace line
  match afterStart "title:" lineTrim with
  | some value =>
    let cleaned := trimList isApostrophe (trimList isQuote (trimList isWhitespace value))
    if cleaned.isEmpty then parsed else {parsed with title := String.ofList cleaned}
  | none =>
    match afterStart "tags:" lineTrim with
    | some value => {parsed with tags := readTags lower value}
    | none => parsed

def withoutFrontmatter (content : List Char) (defaultTitle : String) (defaultTags : List String) : ParsedEdit :=
  let untitled : ParsedEdit := ⟨defaultTitle,defaultTags,String.ofList (trimList isWhitespace content)⟩
  match lines content with
  | [] => untitled
  | first :: rest =>
    match afterStart "# " (trimList isWhitespace first) with
    | some title =>
      ⟨String.ofList (trimList isWhitespace title),defaultTags,String.ofList (trimList isWhitespace (['\n'].intercalate rest))⟩
    | none => untitled

-- No result where the search for the fence slices inside a character, which stops
-- the program.
def parseEditBuffer (lower : String → String) (content defaultTitle : String) (defaultTags : List String) : Option ParsedEdit :=
  let fallback := withoutFrontmatter content.toList defaultTitle defaultTags
  match afterStart "---" (content.toList.dropWhile isWhitespace) with
  | none => some fallback
  | some rest =>
    let afterOpening := ((afterStart "\r\n" rest).or (afterStart "\n" rest)).getD rest
    match findClosingFence afterOpening with
    | .insideCharacter => none
    | .absent => some fallback
    | .found frontmatter rawBody =>
      some ((lines frontmatter).foldl (readLine lower) ⟨defaultTitle,defaultTags,String.ofList (trimList isWhitespace rawBody)⟩)

end ZkNote.EditBuffer
