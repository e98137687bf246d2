import ZkNote.FenceSearch
import ZkNote.NoteMergeLaws
import ZkNote.TrimmedText

namespace ZkNote.TagLine
open EditBuffer PlaintextNotes TrimmedText StdText
open NoteMergeLaws (asciiLower lower_code)

-- `str::to_lowercase` on ASCII text.
def LowersAscii (lower : String → String) : Prop := ∀ text : String, (∀ c ∈ text.toList, c.utf8Size = 1) → lower text = asciiLower text

-- A tag as a note keeps it, in ASCII.
structure Kept (lower : String → String) (tag : String) : Prop where
  some_ : tag ≠ ""
  folded : foldTag lower tag = tag
  ascii : ∀ c ∈ tag.toList, c.utf8Size = 1

def isOpening (c : Char) : Bool := c = '['
def isClosing (c : Char) : Bool := c = ']'

def unquoted (piece : List Char) : List Char := trimList isApostrophe (trimList isQuote (trimList isWhitespace piece))

-- The tags that come back from the line they are written in.
structure Legible (tags : List String) : Prop where
  commas : ∀ tag ∈ tags, ',' ∉ tag.toList
  quotes : ∀ tag ∈ tags, Bare isQuote tag.toList ∧ Bare isApostrophe tag.toList
  opens : ∀ tag c, tags.head? = some tag → tag.toList.head? = some c → c ≠ '[' ∧ c ≠ ']'
  closes : ∀ tag, tags.getLast? = some tag → tag.toList.getLast? ≠ some ']'

variable {lower : String → String} {tag : String} {tags : List String} {piece text front mid back : List Char} {p : Char → Bool} {c : Char}

theorem trim_mem (inside : c ∈ trimList p text) : c ∈ text := by
  obtain ⟨front,back,whole,_⟩ := trim_infix p text
  rw [whole]
  exact List.mem_append_left _ (List.mem_append_right _ inside)

theorem unquoted_mem (inside : c ∈ unquoted piece) : c ∈ piece := trim_mem (trim_mem (trim_mem inside))

theorem unquoted_length (piece : List Char) : (unquoted piece).length ≤ (trimList isWhitespace piece).length :=
  Nat.le_trans (trim_length _ _) (trim_length _ _)

theorem ascii_lowered (ascii : LowersAscii lower) (text : List Char) (chars : ∀ c ∈ text, c.utf8Size = 1) : (lower (String.ofList text)).toList = text.map Char.toLower := by
  rw [ascii _ (by rw [String.toList_ofList]; exact chars),asciiLower,String.toList_ofList,String.toList_ofList]

theorem kept_trimmed (ascii : LowersAscii lower) (kept : Kept lower tag) : trimList isWhitespace tag.toList = tag.toList := by
  have folded := congrArg (fun text => text.toList.length) kept.folded
  have lowered := ascii_lowered ascii (trimList isWhitespace tag.toList) (fun c inside => kept.ascii c (trim_mem inside))
  have whole : foldTag lower tag = lower (String.ofList (trimList isWhitespace tag.toList)) := rfl
  simp only [whole,lowered,List.length_map] at folded
  exact trim_full folded

theorem kept_lowered (ascii : LowersAscii lower) (kept : Kept lower tag) : lower tag = tag := by
  have folded := kept.folded
  have whole : foldTag lower tag = lower (String.ofList (trimList isWhitespace tag.toList)) := rfl
  rwa [whole,kept_trimmed ascii kept,String.ofList_toList] at folded

-- What a piece of the line gives, when the piece has no more than the tag's letters.
theorem piece_same (ascii : LowersAscii lower) (chars : ∀ c ∈ piece, c.utf8Size = 1)
    (gives : lower (String.ofList (unquoted piece)) = tag) : (unquoted piece).length = tag.toList.length := by
  have lowered := ascii_lowered ascii (unquoted piece) (fun c inside => chars c (unquoted_mem inside))
  rw [gives] at lowered
  rw [lowered,List.length_map]

theorem kept_piece (ascii : LowersAscii lower) (kept : Kept lower tag) (quote : Bare isQuote tag.toList) (apostrophe : Bare isApostrophe tag.toList) :
    lower (String.ofList (unquoted tag.toList)) = tag := by
  have same : unquoted tag.toList = tag.toList := by
    rw [unquoted,kept_trimmed ascii kept]
    exact (congrArg (trim isApostrophe) (trim_bare quote)).trans (trim_bare apostrophe)
  rw [same,String.ofList_toList,kept_lowered ascii kept]

theorem spaced_piece (piece : List Char) : unquoted (' ' :: piece) = unquoted piece :=
  congrArg (fun text => trimList isApostrophe (trimList isQuote text)) (trim_front [' '] (fun c inside => by
    rw [List.mem_singleton.mp inside]
    decide))

-- Trimming one end stops at the first letter that is not marked.
theorem drop_stops (mark : p c = false) (front back : List Char) : (front ++ c :: back).dropWhile p = front.dropWhile p ++ c :: back := by
  rw [List.dropWhile_append]
  split
  · rename_i empty
    rw [List.isEmpty_iff.mp empty,List.dropWhile_cons_of_neg (by rw [mark]; exact Bool.false_ne_true),List.nil_append]
  · rfl

theorem rdrop_stops (mark : p c = false) (front back : List Char) : (front ++ c :: back).rdropWhile p = front ++ c :: back.rdropWhile p := by
  have turned := drop_stops mark back.reverse front.reverse
  rw [List.rdropWhile,List.rdropWhile,List.reverse_append,List.reverse_cons,List.append_assoc,List.singleton_append,turned]
  simp

theorem shorter_front (text : List Char) (same : (text.dropWhile p).length = text.length) : text.dropWhile p = text :=
  (List.dropWhile_suffix p).eq_of_length same

theorem shorter_back (text : List Char) (same : (text.rdropWhile p).length = text.length) : text.rdropWhile p = text :=
  (List.rdropWhile_prefix p text).eq_of_length same

theorem rdrop_length (p : Char → Bool) (text : List Char) : (text.rdropWhile p).length ≤ text.length := (List.rdropWhile_prefix p text).length_le

-- What is left between the brackets.
theorem brackets_trimmed (text : List Char) :
    trimList (· = ']') (trimList (· = '[') (trimList isWhitespace (' ' :: '[' :: (text ++ [']'])))) = trim isClosing (text.dropWhile isOpening) := by
  have outer : Bare isWhitespace ('[' :: (text ++ [']'])) := by
    rintro c (first | last)
    · cases first
      rfl
    · rw [← List.cons_append,List.getLast?_append,List.getLast?_singleton] at last
      cases last
      rfl
  have spaces : trimList isWhitespace (' ' :: '[' :: (text ++ [']'])) = '[' :: (text ++ [']']) :=
    (trim_front [' '] (fun c inside => by rw [List.mem_singleton.mp inside]; rfl)).trans (trim_bare outer)
  have opened : trimList (· = '[') ('[' :: (text ++ [']'])) = text.dropWhile isOpening ++ [']'] := by
    have closing := drop_stops (p := isOpening) (c := ']') rfl text []
    show (('[' :: (text ++ [']'])).dropWhile isOpening).rdropWhile isOpening = _
    rw [List.dropWhile_cons_of_pos (by rfl),closing,rdrop_stops (p := isOpening) (c := ']') rfl,List.rdropWhile_nil]
  rw [spaces,opened]
  exact trim_back [']'] (fun c inside => by rw [List.mem_singleton.mp inside]; rfl)

def spaced (tag : List Char) : List Char := ' ' :: tag

def joined (tags : List (List Char)) : List Char := [',',' '].intercalate tags

theorem joined_cons (tag : List Char) (next : List Char) (rest : List (List Char)) : joined (tag :: next :: rest) = tag ++ ',' :: ' ' :: joined (next :: rest) := by
  simp [joined,List.intercalate]

theorem joined_split (tag : List Char) (rest : List (List Char)) (plain : ∀ text ∈ tag :: rest, ',' ∉ text) :
    (joined (tag :: rest)).splitOn ',' = tag :: rest.map spaced := by
  induction rest generalizing tag with
  | nil =>
      rw [show joined [tag] = tag by simp [joined,List.intercalate]]
      exact List.splitOn_eq_singleton (plain tag List.mem_cons_self)
  | cons next rest ih =>
      have later := ih next (fun text inside => plain text (List.mem_cons_of_mem _ inside))
      rw [joined_cons,List.splitOn_append_cons_self_of_not_mem (plain tag List.mem_cons_self),List.splitOn_cons_eq_if_modifyHead,later]
      rfl

theorem joined_chars (tags : List (List Char)) (inside : c ∈ joined tags) : c = ',' ∨ c = ' ' ∨ ∃ tag ∈ tags, c ∈ tag := by
  induction tags with
  | nil => cases inside
  | cons tag rest ih =>
      cases rest with
      | nil =>
          rw [show joined [tag] = tag by simp [joined,List.intercalate]] at inside
          exact .inr (.inr ⟨tag,List.mem_cons_self,inside⟩)
      | cons next rest =>
          rw [joined_cons,List.mem_append,List.mem_cons,List.mem_cons] at inside
          rcases inside with here | comma | blank | later
          · exact .inr (.inr ⟨tag,List.mem_cons_self,here⟩)
          · exact .inl comma
          · exact .inr (.inl blank)
          · rcases ih later with comma | blank | ⟨text,member,there⟩
            · exact .inl comma
            · exact .inr (.inl blank)
            · exact .inr (.inr ⟨text,List.mem_cons_of_mem _ member,there⟩)

-- The last one stands at the end, and before it a blank.
theorem joined_last (mid : List (List Char)) :
    ∃ rest, ∀ first' last', joined (first' :: mid ++ [last']) = first' ++ ',' :: (rest ++ ' ' :: last') := by
  induction mid with
  | nil => exact ⟨[],fun first' last' => by simp [joined,List.intercalate]⟩
  | cons tag mid ih =>
      obtain ⟨rest,is⟩ := ih
      refine ⟨' ' :: tag ++ ',' :: rest,fun first' last' => ?_⟩
      rw [List.cons_append,List.cons_append,joined_cons,← List.cons_append,is]
      simp

theorem brackets_joined (first last : List Char) (mid : List (List Char)) :
    trim isClosing ((joined (first :: mid ++ [last])).dropWhile isOpening) =
      joined ((first.dropWhile isOpening).dropWhile isClosing :: mid ++ [last.rdropWhile isClosing]) := by
  obtain ⟨rest,is⟩ := joined_last mid
  rw [is,is,drop_stops (p := isOpening) rfl,TrimmedText.trim,drop_stops (p := isClosing) rfl,rdrop_stops (p := isClosing) rfl,rdrop_stops (p := isClosing) rfl]

def tagOf (lower : String → String) (piece : List Char) : String := lower (String.ofList (unquoted piece))

theorem read_pieces (lower : String → String) (text : List Char) : readTags lower (' ' :: '[' :: (text ++ [']'])) =
    (((trim isClosing (text.dropWhile isOpening)).splitOn ',').map (tagOf lower)).filter (· ≠ "") := by
  unfold readTags
  rw [brackets_trimmed]
  rfl

theorem spaced_pieces (lower : String → String) (tag : List Char) (rest : List (List Char)) :
    (tag :: rest.map spaced).map (tagOf lower) = (tag :: rest).map (tagOf lower) := by
  simp only [List.map_cons,List.map_map,List.cons.injEq,true_and]
  exact List.map_congr_left (fun piece _ => congrArg (fun text => lower (String.ofList text)) (spaced_piece piece))

theorem filter_full {made : List String} {keep : String → Bool} (same : made.filter keep = tags) (length : made.length = tags.length) : made = tags := by
  have all := List.length_filter_eq_length_iff.mp ((congrArg List.length same).trans length.symm)
  rw [← same,List.filter_eq_self.mpr all]

theorem lower_comma (is : c.toLower = ',') : c = ',' := by
  have codes := congrArg Char.toNat is
  rw [lower_code] at codes
  apply Char.toNat_inj.mp
  split at codes
  · have comma : ','.toNat = 44 := rfl
    omega
  · exact codes

theorem split_chars {sep : Char} (cut : piece ∈ text.splitOn sep) (member : c ∈ piece) : c ∈ text ∧ c ≠ sep := by
  induction text generalizing piece with
  | nil =>
      rw [List.splitOn_nil,List.mem_singleton] at cut
      rw [cut] at member
      cases member
  | cons d rest ih =>
      rw [List.splitOn_cons_eq_if_modifyHead] at cut
      split at cut
      · rcases List.mem_cons.mp cut with rfl | later
        · cases member
        · have found := ih later member
          exact ⟨List.mem_cons_of_mem _ found.1,found.2⟩
      · rename_i other
        cases pieces : rest.splitOn sep with
        | nil => exact absurd pieces (List.splitOn_ne_nil _ _)
        | cons head others =>
            rw [pieces,List.modifyHead_cons] at cut
            rw [pieces] at ih
            rcases List.mem_cons.mp cut with rfl | later
            · rcases List.mem_cons.mp member with rfl | inside
              · exact ⟨List.mem_cons_self,fun same => other (by rw [same]; exact beq_self_eq_true sep)⟩
              · have found := ih List.mem_cons_self inside
                exact ⟨List.mem_cons_of_mem _ found.1,found.2⟩
            · have found := ih (List.mem_cons_of_mem _ later) member
              exact ⟨List.mem_cons_of_mem _ found.1,found.2⟩

-- No tag that was read has a comma, so none that comes back does.
theorem read_plain (ascii : LowersAscii lower) (chars : ∀ c ∈ text, c.utf8Size = 1)
    (same : readTags lower (' ' :: '[' :: (text ++ [']'])) = tags) : ∀ tag ∈ tags, ',' ∉ tag.toList := by
  intro tag inside comma
  rw [← same,read_pieces] at inside
  obtain ⟨piece,cut,rfl⟩ := List.mem_map.mp (List.mem_filter.mp inside).1
  obtain ⟨front,back,whole,_⟩ := trim_infix isClosing (text.dropWhile isOpening)
  have within : ∀ c ∈ piece, c.utf8Size = 1 := by
    intro c member
    apply chars
    apply (List.dropWhile_suffix isOpening).subset
    rw [whole]
    exact List.mem_append_left _ (List.mem_append_right _ (split_chars cut member).1)
  rw [tagOf,ascii_lowered ascii (unquoted piece) (fun c member => within c (unquoted_mem member))] at comma
  obtain ⟨c,member,lowered⟩ := List.mem_map.mp comma
  exact (split_chars cut (unquoted_mem member)).2 (lower_comma lowered)

theorem opens_iff : (text.dropWhile isOpening).dropWhile isClosing = text ↔ ∀ c, text.head? = some c → c ≠ '[' ∧ c ≠ ']' := by
  cases text with
  | nil => simp
  | cons d rest =>
      simp only [List.head?_cons,Option.some.injEq,forall_eq']
      constructor
      · intro same
        have lengths := congrArg List.length same
        have inner := (List.dropWhile_suffix isClosing (l := (d :: rest).dropWhile isOpening)).length_le
        have outer := (List.dropWhile_suffix isOpening (l := d :: rest)).length_le
        have opened := shorter_front (p := isOpening) (d :: rest) (by omega)
        rw [opened] at same
        refine ⟨fun is => ?_,fun is => ?_⟩
        · rw [is,List.dropWhile_cons_of_pos (by rfl)] at opened
          have lengths := congrArg List.length opened
          have fewer := (List.dropWhile_suffix isOpening (l := rest)).length_le
          rw [List.length_cons] at lengths
          omega
        · rw [is,List.dropWhile_cons_of_pos (by rfl)] at same
          have lengths := congrArg List.length same
          have fewer := (List.dropWhile_suffix isClosing (l := rest)).length_le
          rw [List.length_cons] at lengths
          omega
      · intro other
        rw [List.dropWhile_cons_of_neg (by simp [isOpening,other.1]),List.dropWhile_cons_of_neg (by simp [isClosing,other.2])]

theorem closes_iff : text.rdropWhile isClosing = text ↔ text.getLast? ≠ some ']' := by
  rw [List.rdropWhile_eq_self_iff]
  constructor
  · intro open_ last
    have some_ : text ≠ [] := by
      rintro rfl
      cases last
    rw [List.getLast?_eq_some_getLast some_,Option.some.injEq] at last
    apply open_ some_
    rw [last]
    rfl
  · intro other some_ closing
    apply other
    rw [List.getLast?_eq_some_getLast some_,of_decide_eq_true closing]

-- A piece no longer than its tag that gives the tag is the tag, without quotes at its ends.
theorem piece_whole (ascii : LowersAscii lower) (kept : Kept lower tag) (chars : ∀ c ∈ piece, c ∈ tag.toList) (fits : piece.length ≤ tag.toList.length)
    (gives : tagOf lower piece = tag) : piece.length = tag.toList.length := by
  have full := piece_same ascii (fun c inside => kept.ascii c (chars c inside)) gives
  have trims := unquoted_length piece
  have white : (trimList isWhitespace piece).length ≤ piece.length := trim_length _ _
  omega

theorem tag_bare (ascii : LowersAscii lower) (kept : Kept lower tag) (gives : tagOf lower tag.toList = tag) :
    Bare isQuote tag.toList ∧ Bare isApostrophe tag.toList := by
  have full := piece_same ascii kept.ascii gives
  rw [unquoted,kept_trimmed ascii kept] at full
  have inner : (trimList isApostrophe (trimList isQuote tag.toList)).length ≤ (trimList isQuote tag.toList).length := trim_length _ _
  have outer : (trimList isQuote tag.toList).length ≤ tag.toList.length := trim_length _ _
  have quote : trimList isQuote tag.toList = tag.toList := trim_full (show (trimList isQuote tag.toList).length = _ by omega)
  rw [quote] at full
  exact ⟨trim_same_iff.mp quote,trim_same_iff.mp (trim_full full)⟩

section
variable (ascii : LowersAscii lower) (kept : ∀ tag ∈ tags, Kept lower tag)
include ascii kept

theorem kept_same (plain : ∀ tag ∈ tags, Bare isQuote tag.toList ∧ Bare isApostrophe tag.toList) :
    ((tags.map String.toList).map (tagOf lower)).filter (· ≠ "") = tags := by
  have back : (tags.map String.toList).map (tagOf lower) = tags := by
    rw [List.map_map]
    exact (List.map_congr_left (fun tag inside => kept_piece ascii (kept tag inside) (plain tag inside).1 (plain tag inside).2)).trans (List.map_id tags)
  rw [back]
  exact List.filter_eq_self.mpr (fun tag inside => decide_eq_true (kept tag inside).some_)

theorem one_read_iff (one : tags = [tag]) :
    readTags lower (' ' :: '[' :: (joined (tags.map String.toList) ++ [']'])) = tags ↔ Legible tags := by
  have alone : joined (tags.map String.toList) = tag.toList := by rw [one]; simp [joined,List.intercalate]
  have letters : ∀ c ∈ tag.toList, c.utf8Size = 1 := (kept tag (by rw [one]; exact List.mem_singleton_self tag)).ascii
  constructor
  · intro same
    have plain : ',' ∉ tag.toList := read_plain ascii (by rw [alone]; exact letters) same tag (by rw [one]; exact List.mem_singleton_self tag)
    rw [alone,read_pieces] at same
    obtain ⟨front,back,whole,_⟩ := trim_infix isClosing (tag.toList.dropWhile isOpening)
    have within : ∀ c ∈ trim isClosing (tag.toList.dropWhile isOpening), c ∈ tag.toList := by
      intro c inside
      apply (List.dropWhile_suffix isOpening).subset
      rw [whole]
      exact List.mem_append_left _ (List.mem_append_right _ inside)
    rw [List.splitOn_eq_singleton (fun comma => plain (within _ comma))] at same
    have made := filter_full same (by rw [one]; rfl)
    rw [one] at made
    have gives : tagOf lower (trim isClosing (tag.toList.dropWhile isOpening)) = tag := (List.cons.inj made).1
    have outer := (List.dropWhile_suffix isOpening (l := tag.toList)).length_le
    have inner := trim_length isClosing (tag.toList.dropWhile isOpening)
    have full := piece_whole ascii (kept tag (by rw [one]; exact List.mem_singleton_self tag)) within (by omega) gives
    have opened := shorter_front (p := isOpening) tag.toList (by omega)
    rw [opened] at full gives
    have bare := trim_full full
    rw [bare] at gives
    have quotes := tag_bare ascii (kept tag (by rw [one]; exact List.mem_singleton_self tag)) gives
    have ends : Bare isClosing tag.toList := trim_same_iff.mp bare
    subst one
    refine ⟨?_,?_,?_,?_⟩
    · simpa using plain
    · simpa using quotes
    · intro other c first head
      cases first
      refine opens_iff.mp ?_ c head
      rw [opened,List.dropWhile_eq_self_iff]
      intro positive
      rw [ends _ (.inl (by rw [List.head?_eq_getElem?,List.getElem?_eq_getElem positive]))]
      exact Bool.false_ne_true
    · intro other last closing
      cases last
      exact absurd (ends ']' (.inr closing)) (by decide)
  · intro legible
    subst one
    have opened := opens_iff.mpr (fun c head => legible.opens tag c rfl head)
    have closed := closes_iff.mpr (legible.closes tag rfl)
    rw [alone,read_pieces]
    have core : trim isClosing (tag.toList.dropWhile isOpening) = tag.toList := by
      rw [TrimmedText.trim,opened,closed]
    rw [core,List.splitOn_eq_singleton (legible.commas tag (List.mem_singleton_self tag))]
    exact kept_same ascii kept legible.quotes

theorem more_read_iff {first last : String} {mid : List String} (more : tags = first :: mid ++ [last]) :
    readTags lower (' ' :: '[' :: (joined (tags.map String.toList) ++ [']'])) = tags ↔ Legible tags := by
  have parts : tags.map String.toList = first.toList :: mid.map String.toList ++ [last.toList] := by rw [more]; simp
  have isFirst : first ∈ tags := by rw [more]; exact List.mem_cons_self
  have isLast : last ∈ tags := by rw [more]; exact List.mem_append_right _ (List.mem_singleton_self last)
  have split : (∀ tag ∈ tags, ',' ∉ tag.toList) →
      readTags lower (' ' :: '[' :: (joined (tags.map String.toList) ++ [']'])) =
        (((first.toList.dropWhile isOpening).dropWhile isClosing :: mid.map String.toList ++ [last.toList.rdropWhile isClosing]).map
          (tagOf lower)).filter (· ≠ "") := by
    intro plain
    have texts : ∀ text ∈ (first.toList.dropWhile isOpening).dropWhile isClosing :: (mid.map String.toList ++ [last.toList.rdropWhile isClosing]),
        ',' ∉ text := by
      intro text inside comma
      rcases List.mem_cons.mp inside with rfl | inside
      · exact plain first isFirst ((List.dropWhile_suffix isOpening).subset ((List.dropWhile_suffix isClosing).subset comma))
      · rcases List.mem_append.mp inside with inside | inside
        · obtain ⟨tag,member,rfl⟩ := List.mem_map.mp inside
          exact plain tag (by rw [more]; exact List.mem_append_left _ (List.mem_cons_of_mem _ member)) comma
        · rw [List.mem_singleton.mp inside] at comma
          exact plain last isLast ((List.rdropWhile_prefix isClosing last.toList).subset comma)
    rw [read_pieces,parts,brackets_joined,List.cons_append,joined_split _ _ texts,spaced_pieces]
  constructor
  · intro same
    have letters : ∀ c ∈ joined (tags.map String.toList), c.utf8Size = 1 := by
      intro c inside
      rcases joined_chars _ inside with rfl | rfl | ⟨text,member,there⟩
      · rfl
      · rfl
      · obtain ⟨tag,at_,rfl⟩ := List.mem_map.mp member
        exact (kept tag at_).ascii c there
    have plain := read_plain ascii letters same
    rw [split plain] at same
    have made := filter_full same (by rw [more]; simp)
    rw [more] at made
    simp only [List.map_append,List.map_cons,List.map_nil,List.map_map,List.cons_append,List.cons.injEq] at made
    obtain ⟨firstGives,rest⟩ := made
    obtain ⟨midGives,lastGives⟩ := List.append_inj' rest rfl
    have lastGives := (List.cons.inj lastGives).1
    have outer := (List.dropWhile_suffix isOpening (l := first.toList)).length_le
    have inner := (List.dropWhile_suffix isClosing (l := first.toList.dropWhile isOpening)).length_le
    have firstFull := piece_whole ascii (kept first isFirst)
      (fun c inside => (List.dropWhile_suffix isOpening).subset ((List.dropWhile_suffix isClosing).subset inside)) (by omega) firstGives
    have opened := shorter_front (p := isOpening) first.toList (by omega)
    rw [opened] at firstFull firstGives
    have unclosed := shorter_front (p := isClosing) first.toList firstFull
    have lastFull := piece_whole ascii (kept last isLast) (fun c inside => (List.rdropWhile_prefix isClosing last.toList).subset inside)
      (rdrop_length _ _) lastGives
    have closed := shorter_back (p := isClosing) last.toList lastFull
    rw [unclosed] at firstGives
    rw [closed] at lastGives
    refine ⟨plain,?_,?_,?_⟩
    · intro tag inside
      rw [more] at inside
      rcases List.mem_append.mp inside with inside | inside
      · rcases List.mem_cons.mp inside with rfl | inside
        · exact tag_bare ascii (kept tag isFirst) firstGives
        · have gives : tagOf lower tag.toList = tag := by
            obtain ⟨i,at_⟩ := List.getElem?_of_mem inside
            have each := congrArg (fun tags => tags[i]?) midGives
            simp only [List.getElem?_map,at_,Option.map_some,Option.some.injEq] at each
            exact each
          exact tag_bare ascii (kept tag (by rw [more]; exact List.mem_append_left _ (List.mem_cons_of_mem _ inside))) gives
      · rw [List.mem_singleton.mp inside]
        exact tag_bare ascii (kept last isLast) lastGives
    · intro tag c head inside
      rw [more] at head
      cases head
      exact opens_iff.mp (by rw [opened,unclosed]) c inside
    · intro tag tail
      rw [more,List.getLast?_concat] at tail
      cases tail
      exact closes_iff.mp closed
  · intro legible
    have opened := opens_iff.mpr (fun c head => legible.opens first c (by rw [more]; rfl) head)
    have closed := closes_iff.mpr (legible.closes last (by rw [more,List.getLast?_concat]))
    rw [split legible.commas,opened,closed,← parts]
    exact kept_same ascii kept legible.quotes

theorem tags_read_iff (some_ : tags ≠ []) :
    readTags lower (' ' :: '[' :: (joined (tags.map String.toList) ++ [']'])) = tags ↔ Legible tags := by
  cases tags with
  | nil => exact absurd rfl some_
  | cons first rest =>
      rcases List.eq_nil_or_concat rest with rfl | ⟨mid,last,rfl⟩
      · exact one_read_iff ascii kept rfl
      · exact more_read_iff ascii kept (by rw [List.concat_eq_append,List.cons_append])

end

end ZkNote.TagLine
