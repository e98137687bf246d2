import ZkNote.AttachmentFrame
import ZkNote.NoteSets
import ZkNote.TagLine

namespace ZkNote.EditRoundTrip
open EditBuffer FenceSearch Fallible NoteErrors PlaintextNotes TrimmedText StdText
open AttachmentFrame (FoldStable)
open TagLine (LowersAscii Kept Legible unquoted joined tags_read_iff split_chars trim_mem unquoted_mem)

variable {lower : String → String} {title current body : String} {tags defaultTags : List String} {text pre front back line : List Char}
  {rows texts : List (List Char)} {c : Char}

-- Lines of a text, and what a text in front of it does to them.
theorem split_pre (pre text : List Char) (plain : '\n' ∉ pre) : (pre ++ text).splitOn '\n' = (text.splitOn '\n').modifyHead (pre ++ ·) := by
  induction pre with
  | nil =>
      rw [List.nil_append]
      cases text.splitOn '\n' <;> rfl
  | cons c pre ih =>
      have other : (c == '\n') = false := by
        rw [beq_eq_false_iff_ne]
        exact fun is => plain (is ▸ List.mem_cons_self)
      rw [List.cons_append,List.splitOn_cons_eq_if_modifyHead,if_neg (by rw [other]; exact Bool.false_ne_true),
        ih (fun inside => plain (List.mem_cons_of_mem _ inside)),List.modifyHead_modifyHead]
      rfl

-- The first line, and the rest behind it.
theorem split_first (text : List Char) : ∃ rest, text.splitOn '\n' = text.takeWhile (· ≠ '\n') :: rest := by
  induction text with
  | nil => exact ⟨[],rfl⟩
  | cons c text ih =>
      obtain ⟨rest,is⟩ := ih
      rw [List.splitOn_cons_eq_if_modifyHead]
      by_cases newline : c = '\n'
      · rw [if_pos (by rw [newline]; rfl),List.takeWhile_cons_of_neg (by simp [newline])]
        exact ⟨_,rfl⟩
      · rw [if_neg (by simpa using newline),List.takeWhile_cons_of_pos (by simpa using newline),is]
        exact ⟨rest,rfl⟩

def isFence (line : List Char) : Prop := line = "---".toList ∨ line = "---\r".toList

instance (line : List Char) : Decidable (isFence line) := inferInstanceAs (Decidable (_ ∨ _))

theorem first_unique (line : List Char) {back' : List Char} (plain : '\n' ∉ front) (plain' : '\n' ∉ line) (same : front ++ '\n' :: back = line ++ '\n' :: back') : front = line := by
  have cuts := congrArg (List.takeWhile (fun c => decide (c ≠ '\n'))) same
  have stops : ∀ part rest : List Char, '\n' ∉ part → (part ++ '\n' :: rest).takeWhile (fun c => decide (c ≠ '\n')) = part := by
    intro part rest none
    have marks : ∀ c ∈ part, decide (c ≠ '\n') = true := by
      intro c inside
      exact decide_eq_true (fun is => none (is ▸ inside))
    rw [List.takeWhile_append_of_pos marks,List.takeWhile_cons_of_neg (by simp),List.append_nil]
  rwa [stops front back plain,stops line back' plain'] at cuts

-- A closing fence at the start of a line.
theorem fence_line_iff (plain : '\n' ∉ line) : (∃ after, line ++ '\n' :: back = "---".toList ++ after ∧ closes after = true) ↔ isFence line := by
  constructor
  · rintro ⟨after,whole,ends⟩
    rw [closes,Bool.or_eq_true,Bool.or_eq_true] at ends
    rcases ends with (empty | unix) | windows
    · rw [List.isEmpty_iff.mp empty,List.append_nil] at whole
      have newline : '\n' ∈ "---".toList := by
        rw [← whole]
        exact List.mem_append_right _ List.mem_cons_self
      exact absurd newline (by decide)
    · obtain ⟨rest,is⟩ := Option.isSome_iff_exists.mp unix
      rw [after_start_iff.mp is] at whole
      exact .inl (first_unique "---".toList plain (by decide) whole)
    · obtain ⟨rest,is⟩ := Option.isSome_iff_exists.mp windows
      rw [after_start_iff.mp is] at whole
      exact .inr (first_unique "---\r".toList plain (by decide) whole)
  · rintro (rfl | rfl)
    · exact ⟨'\n' :: back,rfl,rfl⟩
    · exact ⟨'\r' :: '\n' :: back,rfl,rfl⟩

theorem first_plain (text : List Char) : '\n' ∉ text.takeWhile (· ≠ '\n') := by
  intro inside
  have other := List.mem_takeWhile_imp inside
  simp at other

theorem first_line (front back : List Char) : ∃ rest, front ++ '\n' :: back = front.takeWhile (· ≠ '\n') ++ '\n' :: rest := by
  induction front with
  | nil => exact ⟨back,rfl⟩
  | cons c front ih =>
      obtain ⟨rest,is⟩ := ih
      by_cases newline : c = '\n'
      · rw [List.takeWhile_cons_of_neg (by simp [newline]),newline]
        exact ⟨_,rfl⟩
      · rw [List.takeWhile_cons_of_pos (by simpa using newline),List.cons_append,is]
        exact ⟨rest,rfl⟩

-- The fences behind a line feed are the lines that are fences, the first line apart.
theorem fences_iff (front back : List Char) :
    (∃ j < front.length, ∃ after, (front ++ '\n' :: back).drop j = '\n' :: ("---".toList ++ after) ∧ closes after = true) ↔
      ∃ line ∈ (front.splitOn '\n').tail, isFence line := by
  induction front with
  | nil => simp
  | cons c front ih =>
      obtain ⟨others,cut⟩ := split_first front
      obtain ⟨rest,first⟩ := first_line front back
      have head : (∃ after, front ++ '\n' :: back = "---".toList ++ after ∧ closes after = true) ↔ isFence (front.takeWhile (· ≠ '\n')) := by
        rw [first]
        exact fence_line_iff (first_plain front)
      have turns : (∃ j < (c :: front).length, ∃ after, (c :: front ++ '\n' :: back).drop j = '\n' :: ("---".toList ++ after) ∧ closes after = true) ↔
          (c = '\n' ∧ ∃ after, front ++ '\n' :: back = "---".toList ++ after ∧ closes after = true) ∨
            ∃ j < front.length, ∃ after, (front ++ '\n' :: back).drop j = '\n' :: ("---".toList ++ after) ∧ closes after = true := by
        constructor
        · rintro ⟨j,small,after,is,ends⟩
          cases j with
          | zero =>
              rw [List.drop_zero,List.cons_append,List.cons.injEq] at is
              exact .inl ⟨is.1,after,is.2,ends⟩
          | succ j => exact .inr ⟨j,Nat.lt_of_succ_lt_succ small,after,is,ends⟩
        · rintro (⟨rfl,after,is,ends⟩ | ⟨j,small,after,is,ends⟩)
          · exact ⟨0,Nat.succ_pos _,after,congrArg (List.cons '\n') is,ends⟩
          · exact ⟨j+1,Nat.succ_lt_succ small,after,is,ends⟩
      rw [turns,ih,head,List.splitOn_cons_eq_if_modifyHead,cut]
      by_cases newline : c = '\n'
      · rw [if_pos (by rw [newline]; rfl)]
        simp only [newline,true_and,List.tail_cons,List.mem_cons,exists_eq_or_imp]
      · rw [if_neg (by simpa using newline)]
        simp only [newline,false_and,false_or,List.modifyHead_cons,List.tail_cons]

theorem no_fence_iff (last : front.getLast? ≠ some '\r') :
    (∀ j < front.length, ¬FenceAt (front ++ '\n' :: back) j) ↔ ∀ line ∈ (front.splitOn '\n').tail, ¬isFence line := by
  constructor
  · intro none line inside fence
    obtain ⟨j,small,after,is,ends⟩ := (fences_iff front back).mpr ⟨line,inside,fence⟩
    exact none j small ⟨['\n'],after,fence_here_iff.mpr ⟨is,ends,.inl rfl⟩⟩
  · intro none j small
    rintro ⟨newline,after,here⟩
    obtain ⟨is,ends,rfl | rfl⟩ := fence_here_iff.mp here
    · obtain ⟨line,inside,fence⟩ := (fences_iff front back).mp ⟨j,small,after,is,ends⟩
      exact none line inside fence
    · have further : j+1 < front.length := by
        by_contra ending
        have place : j = front.length-1 := by omega
        have first := congrArg List.head? is
        rw [List.head?_drop,List.getElem?_append_left small,place,← List.getLast?_eq_getElem?] at first
        exact last first
      have next : (front ++ '\n' :: back).drop (j+1) = '\n' :: ("---".toList ++ after) := by
        have later := congrArg List.tail is
        rwa [List.tail_drop] at later
      obtain ⟨line,inside,fence⟩ := (fences_iff front back).mp ⟨j+1,further,after,next,ends⟩
      exact none line inside fence

-- What a line says about the title, and the title after all of them.
def titleValue (line : List Char) : Option (List Char) := afterStart "title:" (trimList isWhitespace line)

def titleFrom (current : String) (texts : List (List Char)) : String :=
  texts.foldl (fun title text => if (unquoted text).isEmpty then title else String.ofList (unquoted text)) current

theorem fold_lines (lower : String → String) (rows : List (List Char)) (parsed : ParsedEdit) :
    (rows.foldl (readLine lower) parsed).title = titleFrom parsed.title (rows.filterMap titleValue) ∧
      (rows.foldl (readLine lower) parsed).body = parsed.body := by
  induction rows generalizing parsed with
  | nil => exact ⟨rfl,rfl⟩
  | cons line rows ih =>
      have turn : (readLine lower parsed line).body = parsed.body ∧ (readLine lower parsed line).title =
          titleFrom parsed.title ([line].filterMap titleValue) := by
        unfold readLine
        dsimp only
        rw [List.filterMap_cons,List.filterMap_nil]
        unfold titleValue
        cases titled : afterStart "title:" (trimList isWhitespace line) with
        | some value =>
            dsimp only [titleFrom,List.foldl_cons,List.foldl_nil]
            change (if (unquoted value).isEmpty = true then parsed else _).body = _ ∧ (if (unquoted value).isEmpty = true then parsed else _).title = _
            split <;> exact ⟨rfl,rfl⟩
        | none =>
            dsimp only
            cases afterStart "tags:" (trimList isWhitespace line) <;> exact ⟨rfl,rfl⟩
      obtain ⟨title,body⟩ := ih (readLine lower parsed line)
      refine ⟨?_,body.trans turn.1⟩
      rw [List.foldl_cons,title,turn.2,titleFrom,titleFrom,titleFrom,← List.foldl_append,← List.filterMap_append]
      rfl

-- A carriage return at the end of a line is white space.
def stripped (line : List Char) : List Char := if line.getLast? = some '\r' then line.dropLast else line

theorem stripped_trim (line : List Char) : trimList isWhitespace (stripped line) = trimList isWhitespace line := by
  unfold stripped
  split
  · rename_i last
    obtain ⟨front,rfl⟩ := List.getLast?_eq_some_iff.mp last
    rw [List.dropLast_concat]
    exact (trim_back ['\r'] (fun c inside => by rw [List.mem_singleton.mp inside]; rfl)).symm
  · rfl

theorem read_stripped (lower : String → String) (parsed : ParsedEdit) (line : List Char) :
    readLine lower parsed (stripped line) = readLine lower parsed line := by
  unfold readLine
  rw [stripped_trim]

theorem read_lines (lower : String → String) (front : List Char) (parsed : ParsedEdit) :
    (lines (front ++ ['\n'])).foldl (readLine lower) parsed = (front.splitOn '\n').foldl (readLine lower) parsed := by
  have cut : lines (front ++ ['\n']) = (front.splitOn '\n').map stripped := by
    unfold lines
    dsimp only
    rw [List.splitOn_append_cons_self,List.splitOn_nil,List.dropLast_concat,List.getLast?_concat]
    rfl
  rw [cut,List.foldl_map]
  simp only [read_stripped]

def titleKey : List Char := ['t','i','t','l','e',':',' ']
def tagsKey : List Char := ['t','a','g','s',':',' ']
def dashes : List Char := ['-','-','-']

theorem trimList_eq (space : Char → Bool) (text : List Char) : trimList space text = trim space text := rfl

theorem unquoted_rdrop (text : List Char) : unquoted ((' ' :: text).rdropWhile isWhitespace) = unquoted text := by
  have ends : trim isWhitespace ((' ' :: text).rdropWhile isWhitespace) = trim isWhitespace (' ' :: text) := by
    have whole := List.rdropWhile_append_rtakeWhile (p := isWhitespace) (l := ' ' :: text)
    conv_rhs => rw [← whole]
    exact (trim_back _ (fun c inside => List.mem_rtakeWhile_imp inside)).symm
  have begins : trim isWhitespace (' ' :: text) = trim isWhitespace text :=
    trim_front [' '] (fun c inside => by rw [List.mem_singleton.mp inside]; rfl)
  exact congrArg (fun text => trimList isApostrophe (trimList isQuote text)) (ends.trans begins)

theorem title_line (text : List Char) : titleValue (titleKey ++ text) = some ((' ' :: text).rdropWhile isWhitespace) := by
  have trimmed : trimList isWhitespace (titleKey ++ text) = "title:".toList ++ (' ' :: text).rdropWhile isWhitespace := by
    have front : (titleKey ++ text).dropWhile isWhitespace = titleKey ++ text := List.dropWhile_cons_of_neg (by decide)
    rw [trimList_eq,TrimmedText.trim,front]
    exact TagLine.rdrop_stops (p := isWhitespace) (c := ':') rfl ['t','i','t','l','e'] (' ' :: text)
  rw [titleValue,trimmed]
  exact after_start_iff.mpr rfl

-- The texts that a written title puts behind a title key, one line after the other.
def titleTexts (title : List Char) : List (List Char) :=
  match title.splitOn '\n' with
  | [] => []
  | first :: rest => first :: rest.filterMap titleValue

theorem title_step (current : String) (text : List Char) (texts : List (List Char)) :
    titleFrom current (text :: texts) = titleFrom (if unquoted text = [] then current else String.ofList (unquoted text)) texts := by
  rw [titleFrom,List.foldl_cons,titleFrom]
  simp only [List.isEmpty_iff]

theorem title_from (current : String) (texts : List (List Char)) :
    (titleFrom current texts = current ∧ ∀ text ∈ texts, unquoted text = []) ∨
      ∃ text ∈ texts, unquoted text ≠ [] ∧ titleFrom current texts = String.ofList (unquoted text) := by
  induction texts generalizing current with
  | nil => exact .inl ⟨rfl,fun text inside => by cases inside⟩
  | cons text texts ih =>
      rw [title_step]
      split
      · rename_i empty
        rcases ih current with ⟨same,none⟩ | ⟨other,inside,is⟩
        · refine .inl ⟨same,fun text' member => ?_⟩
          rcases List.mem_cons.mp member with rfl | later
          · exact empty
          · exact none text' later
        · exact .inr ⟨other,List.mem_cons_of_mem _ inside,is⟩
      · rename_i some_
        rcases ih (String.ofList (unquoted text)) with ⟨same,_⟩ | ⟨other,inside,is⟩
        · exact .inr ⟨text,List.mem_cons_self,some_,same⟩
        · exact .inr ⟨other,List.mem_cons_of_mem _ inside,is⟩

theorem title_text_plain (inside : text ∈ titleTexts front) : '\n' ∉ text := by
  obtain ⟨rest,cut⟩ := split_first front
  have pieces : ∀ line ∈ front.splitOn '\n', '\n' ∉ line := fun line member newline => (split_chars member newline).2 rfl
  rw [titleTexts,cut] at inside
  rw [cut] at pieces
  rcases List.mem_cons.mp inside with rfl | later
  · exact first_plain front
  · obtain ⟨line,member,is⟩ := List.mem_filterMap.mp later
    intro newline
    apply pieces line (List.mem_cons_of_mem _ member)
    apply trim_mem (p := isWhitespace)
    rw [after_start_iff.mp is]
    exact List.mem_append_right _ newline

-- A title of one line comes back as it was read; of several lines none is the title.
theorem title_iff (title current : String) : titleFrom current (titleTexts title.toList) = title ↔
    ∀ text ∈ titleTexts title.toList, if unquoted text = [] then current = title else unquoted text = title.toList := by
  obtain ⟨rest,cut⟩ := split_first title.toList
  by_cases newline : '\n' ∈ title.toList
  · have other : ∀ text ∈ titleTexts title.toList, unquoted text ≠ title.toList := by
      intro text inside same
      rw [← same] at newline
      exact title_text_plain inside (unquoted_mem newline)
    constructor
    · intro same text inside
      rcases title_from current (titleTexts title.toList) with ⟨stays,none⟩ | ⟨text',inside',_,is⟩
      · rw [if_pos (none text inside)]
        exact stays.symm.trans same
      · refine absurd ?_ (other text' inside')
        rw [← same,is,String.toList_ofList]
    · intro each
      have empty : ∀ text ∈ titleTexts title.toList, unquoted text = [] ∧ current = title := by
        intro text inside
        have here := each text inside
        split at here
        · rename_i none
          exact ⟨none,here⟩
        · exact absurd here (other text inside)
      have first := empty (title.toList.takeWhile (· ≠ '\n')) (by rw [titleTexts,cut]; exact List.mem_cons_self)
      rcases title_from current (titleTexts title.toList) with ⟨stays,_⟩ | ⟨text,inside,read,_⟩
      · exact stays.trans first.2
      · exact absurd (empty text inside).1 read
  · have one : titleTexts title.toList = [title.toList] := by
      rw [titleTexts,List.splitOn_eq_singleton newline]
      rfl
    rw [one,title_step,titleFrom,List.foldl_nil]
    simp only [List.mem_singleton,forall_eq]
    split
    · exact Iff.rfl
    · constructor
      · intro same
        rw [← String.toList_ofList (l := unquoted title.toList),same]
      · intro same
        rw [same,String.ofList_toList]

def tagsText (tags : List String) : List Char := '[' :: (joined (tags.map String.toList) ++ [']'])

-- The lines between the fences, and all that comes behind them.
def frontOf (title : String) (tags : List String) : List Char := titleKey ++ title.toList ++ '\n' :: (tagsKey ++ tagsText tags)

def behindFront (body : String) : List Char := dashes ++ '\n' :: '\n' :: (body.toList ++ ['\n'])

theorem tags_formatted (tags : List String) : (if tags = [] then "[]" else "[" ++ String.intercalate ", " tags ++ "]").toList = tagsText tags := by
  have separator : ", ".toList = [',',' '] := rfl
  have opening : "[".toList = ['['] := rfl
  have closing : "]".toList = [']'] := rfl
  split
  · rename_i none
    rw [none]
    rfl
  · rw [String.toList_append,String.toList_append,String.toList_intercalate,separator,opening,closing,List.append_assoc,List.singleton_append]
    rfl

theorem buffer_chars (title : String) (tags : List String) (body : String) :
    (noteToEditBuffer title tags body).toList = "---\n".toList ++ (frontOf title tags ++ '\n' :: behindFront body) := by
  have head : "---\ntitle: ".toList = "---\n".toList ++ titleKey := rfl
  have label : "\ntags: ".toList = '\n' :: tagsKey := rfl
  have closing : "\n---\n\n".toList = '\n' :: (dashes ++ ['\n','\n']) := rfl
  have ending : "\n".toList = ['\n'] := rfl
  unfold noteToEditBuffer frontOf behindFront
  simp only [String.toList_append,tags_formatted,head,label,closing,ending,List.append_assoc,List.cons_append,List.nil_append]

theorem opening_taken (text : List Char) : afterOpening ("---\n".toList ++ text) = some text := by
  have front : ("---\n".toList ++ text).dropWhile isWhitespace = "---\n".toList ++ text := List.dropWhile_cons_of_neg (by decide)
  have dashes : afterStart "---" ("---\n".toList ++ text) = some ('\n' :: text) := after_start_iff.mpr rfl
  have windows : afterStart "\r\n" ('\n' :: text) = none := if_neg (by simp)
  have unix : afterStart "\n" ('\n' :: text) = some text := after_start_iff.mpr rfl
  rw [afterOpening,front,dashes,Option.map_some,windows,unix]
  rfl

theorem buffer_opening (title : String) (tags : List String) (body : String) :
    afterOpening (noteToEditBuffer title tags body).toList = some (frontOf title tags ++ '\n' :: behindFront body) := by
  rw [buffer_chars,opening_taken]

theorem joined_plain (plain : ∀ tag ∈ tags, '\n' ∉ tag.toList) : '\n' ∉ tagsKey ++ tagsText tags := by
  intro inside
  rw [tagsText] at inside
  simp only [List.mem_append,List.mem_cons,List.not_mem_nil,or_false] at inside
  rcases inside with label | opening | inner | closing
  · exact absurd label (by decide)
  · exact absurd opening (by decide)
  · rcases TagLine.joined_chars _ inner with comma | blank | ⟨text,member,there⟩
    · exact absurd comma (by decide)
    · exact absurd blank (by decide)
    · obtain ⟨tag,at_,rfl⟩ := List.mem_map.mp member
      exact plain tag at_ there
  · exact absurd closing (by decide)

theorem front_split (plain : ∀ tag ∈ tags, '\n' ∉ tag.toList) {rest : List (List Char)} (cut : title.toList.splitOn '\n' = front :: rest) :
    (frontOf title tags).splitOn '\n' = (titleKey ++ front) :: (rest ++ [tagsKey ++ tagsText tags]) := by
  rw [frontOf,List.splitOn_append_cons_self,split_pre _ _ (by decide),cut,List.splitOn_eq_singleton (joined_plain plain),List.modifyHead_cons,
    List.cons_append]

theorem tags_line (lower : String → String) (parsed : ParsedEdit) (text : List Char) :
    titleValue (tagsKey ++ '[' :: (text ++ [']'])) = none ∧
      readLine lower parsed (tagsKey ++ '[' :: (text ++ [']'])) = {parsed with tags := readTags lower (' ' :: '[' :: (text ++ [']']))} := by
  have bare : Bare isWhitespace (tagsKey ++ '[' :: (text ++ [']'])) := by
    rintro c (first | last)
    · cases first
      rfl
    · rw [← List.cons_append,← List.append_assoc,List.getLast?_concat] at last
      cases last
      rfl
  have trimmed : trimList isWhitespace (tagsKey ++ '[' :: (text ++ [']'])) = tagsKey ++ '[' :: (text ++ [']']) := trim_bare bare
  have untitled : afterStart "title:" (tagsKey ++ '[' :: (text ++ [']'])) = none := if_neg (by simp [tagsKey])
  have tagged : afterStart "tags:" (tagsKey ++ '[' :: (text ++ [']'])) = some (' ' :: '[' :: (text ++ [']'])) := after_start_iff.mpr rfl
  constructor
  · rw [titleValue,trimmed,untitled]
  · unfold readLine
    rw [trimmed]
    dsimp only
    rw [untitled,tagged]

theorem read_front (lower : String → String) (title : String) (plain : ∀ tag ∈ tags, '\n' ∉ tag.toList) (parsed : ParsedEdit) :
    (lines (frontOf title tags ++ ['\n'])).foldl (readLine lower) parsed =
      ⟨titleFrom parsed.title (titleTexts title.toList),readTags lower (' ' :: tagsText tags),parsed.body⟩ := by
  obtain ⟨rest,cut⟩ := split_first title.toList
  rw [read_lines,front_split plain cut,← List.cons_append,List.foldl_append,List.foldl_cons,List.foldl_nil,tagsText,(tags_line lower _ _).2]
  obtain ⟨titled,body⟩ := fold_lines lower ((titleKey ++ title.toList.takeWhile (· ≠ '\n')) :: rest) parsed
  rw [titled,body,List.filterMap_cons,title_line,titleTexts,cut]
  dsimp only
  rw [title_step,title_step,unquoted_rdrop]

-- The buffers that are read back as they were written, with `current` as the title
-- that the parser falls back to.
structure Readable (current title : String) (tags : List String) (body : String) : Prop where
  ascii : (∀ c ∈ title.toList, c.utf8Size = 1) ∧ ∀ tag ∈ tags, ∀ c ∈ tag.toList, c.utf8Size = 1
  fence : ∀ line ∈ (title.toList.splitOn '\n').tail, ¬isFence line
  titled : ∀ text ∈ titleTexts title.toList, if unquoted text = [] then current = title else unquoted text = title.toList
  tagged : Legible tags
  trimmed : Bare isWhitespace body.toList

-- Tags as canonical notes have them.
def Canonical (lower : String → String) (tags : List String) : Prop := ∀ tag ∈ tags, tag ≠ "" ∧ foldTag lower tag = tag ∧ '\n' ∉ tag.toList

theorem joined_mem {tag : List Char} {texts : List (List Char)} (inside : tag ∈ texts) (member : c ∈ tag) : c ∈ joined texts := by
  induction texts with
  | nil => cases inside
  | cons text texts ih =>
      cases texts with
      | nil =>
          rw [List.mem_singleton.mp inside] at member
          simpa [joined,List.intercalate] using member
      | cons next texts =>
          rw [TagLine.joined_cons]
          rcases List.mem_cons.mp inside with rfl | later
          · exact List.mem_append_left _ member
          · exact List.mem_append_right _ (List.mem_cons_of_mem _ (List.mem_cons_of_mem _ (ih later)))

theorem ascii_chars {text : List Char} (ascii : text.all (fun c => c.utf8Size == 1) = true) : ∀ c ∈ text, c.utf8Size = 1 :=
  fun c inside => beq_iff_eq.mp (List.all_eq_true.mp ascii c inside)

theorem front_ascii : (∀ c ∈ frontOf title tags, c.utf8Size = 1) ↔
    (∀ c ∈ title.toList, c.utf8Size = 1) ∧ ∀ tag ∈ tags, ∀ c ∈ tag.toList, c.utf8Size = 1 := by
  rw [frontOf,tagsText]
  constructor
  · intro all
    refine ⟨fun c inside => all c (by simp [inside]),fun tag at_ c inside => all c ?_⟩
    have member := joined_mem (List.mem_map_of_mem (f := String.toList) at_) inside
    simp [member]
  · rintro ⟨inTitle,inTags⟩ c inside
    have keys : (∀ c ∈ titleKey, c.utf8Size = 1) ∧ ∀ c ∈ tagsKey, c.utf8Size = 1 := ⟨ascii_chars (by decide),ascii_chars (by decide)⟩
    simp only [List.mem_append,List.mem_cons,List.not_mem_nil,or_false] at inside
    rcases inside with (key | here) | rfl | key | rfl | member | rfl
    · exact keys.1 c key
    · exact inTitle c here
    · rfl
    · exact keys.2 c key
    · rfl
    · rcases TagLine.joined_chars _ member with rfl | rfl | ⟨text,at_,there⟩
      · rfl
      · rfl
      · obtain ⟨tag,held,rfl⟩ := List.mem_map.mp at_
        exact inTags tag held c there
    · rfl

theorem front_last (title : String) (tags : List String) : (frontOf title tags).getLast? = some ']' := by
  rw [frontOf,tagsText,← List.cons_append,← List.append_assoc,← List.cons_append,← List.append_assoc,List.getLast?_concat]

theorem behind_here (body : String) : fenceHere ('\n' :: behindFront body) = some (['\n'],'\n' :: '\n' :: (body.toList ++ ['\n'])) :=
  fence_here_iff.mpr ⟨rfl,rfl,.inl rfl⟩

theorem front_fence (plain : ∀ tag ∈ tags, '\n' ∉ tag.toList) :
    (∀ j < (frontOf title tags).length, ¬FenceAt (frontOf title tags ++ '\n' :: behindFront body) j) ↔
      ∀ line ∈ (title.toList.splitOn '\n').tail, ¬isFence line := by
  obtain ⟨rest,cut⟩ := split_first title.toList
  have open_ : ¬isFence (tagsKey ++ tagsText tags) := by
    rintro (same | same) <;> cases same
  rw [no_fence_iff (by rw [front_last]; decide),front_split plain cut,cut,List.tail_cons,List.tail_cons]
  constructor
  · exact fun none line inside => none line (List.mem_append_left _ inside)
  · intro none line inside
    rcases List.mem_append.mp inside with inside | last
    · exact none line inside
    · rw [List.mem_singleton.mp last]
      exact open_

theorem body_trimmed (body : List Char) : trimList isWhitespace ('\n' :: '\n' :: (body ++ ['\n'])) = trimList isWhitespace body := by
  have blank : ∀ c ∈ ['\n'], isWhitespace c = true := List.all_eq_true.mp (by decide)
  exact (trim_front ['\n'] blank).trans ((trim_front ['\n'] blank).trans (trim_back ['\n'] blank))

theorem legible_nil : Legible [] where
  commas _ inside := by cases inside
  quotes _ inside := by cases inside
  opens _ _ head := by cases head
  closes _ last := by cases last

theorem tags_iff (ascii : LowersAscii lower) (canonical : Canonical lower tags) (letters : ∀ tag ∈ tags, ∀ c ∈ tag.toList, c.utf8Size = 1) :
    readTags lower (' ' :: tagsText tags) = tags ↔ Legible tags := by
  by_cases some_ : tags = []
  · rw [some_]
    refine iff_of_true ?_ legible_nil
    have nothing : lower "" = "" := ascii "" (fun c inside => by cases inside)
    refine (TagLine.read_pieces lower []).trans ?_
    show ([lower ""].filter (· ≠ "")) = []
    rw [nothing]
    rfl
  · exact tags_read_iff ascii (fun tag inside => ⟨(canonical tag inside).1,(canonical tag inside).2.1,letters tag inside⟩) some_

-- Behind the true fence the parser has the fields as they were read.
theorem parse_front (canonical : Canonical lower tags) (front : findClosingFence (frontOf title tags ++ '\n' :: behindFront body) =
      .found (frontOf title tags ++ ['\n']) ('\n' :: '\n' :: (body.toList ++ ['\n']))) :
    parseEditBuffer lower (noteToEditBuffer title tags body) current defaultTags =
      some ⟨titleFrom current (titleTexts title.toList),readTags lower (' ' :: tagsText tags),String.ofList (trimList isWhitespace body.toList)⟩ := by
  rw [parse_found (buffer_opening title tags body) front,read_front lower title (fun tag inside => (canonical tag inside).2.2),body_trimmed]

def letterCount (text : List Char) : Nat := text.countP (fun c => !isWhitespace c)

theorem count_append (front back : List Char) : letterCount (front ++ back) = letterCount front+letterCount back := List.countP_append

theorem count_trimmed (text : List Char) : letterCount (trimList isWhitespace text) = letterCount text := trim_count isWhitespace text

-- A fence before the true one leaves more behind it than the body has.
theorem fence_is_last {after : List Char} (found : findClosingFence (frontOf title tags ++ '\n' :: behindFront body) = .found front after)
    (same : trimList isWhitespace after = body.toList) :
    findClosingFence (frontOf title tags ++ '\n' :: behindFront body) = .found (frontOf title tags ++ ['\n']) ('\n' :: '\n' :: (body.toList ++ ['\n'])) ∧
      (∀ j < (frontOf title tags).length, ¬FenceAt (frontOf title tags ++ '\n' :: behindFront body) j) ∧ ∀ c ∈ frontOf title tags, c.utf8Size = 1 := by
  obtain ⟨pre,newline,rest,whole,fence,rfl,first,letters⟩ := find_found found
  rcases Nat.lt_trichotomy pre.length (frontOf title tags).length with earlier | there | later
  · exfalso
    obtain ⟨others,parts⟩ : pre <+: frontOf title tags :=
      List.prefix_of_prefix_length_le ⟨rest,whole.symm⟩ (List.prefix_append _ _) (Nat.le_of_lt earlier)
    have counts := congrArg letterCount whole
    have inner := count_trimmed after
    obtain ⟨is,_,feed⟩ := fence_here_iff.mp fence
    have blank : letterCount newline = 0 := by rcases feed with rfl | rfl <;> rfl
    have behind_ : letterCount ('\n' :: behindFront body) = 3+letterCount body.toList := by
      have parts : '\n' :: behindFront body = ('\n' :: dashes) ++ ['\n','\n'] ++ body.toList ++ ['\n'] := by simp [behindFront]
      rw [parts,count_append,count_append,count_append]
      rfl
    have three : letterCount "---".toList = 3 := rfl
    rw [count_append,count_append,behind_,is,count_append,count_append,blank,three,← parts,count_append] at counts
    rw [same] at inner
    have last := front_last title tags
    have none : others = [] := by
      by_contra some_
      have closing : ']' ∈ others := by
        rw [← parts,List.getLast?_append,List.getLast?_eq_some_getLast some_,Option.some_or,Option.some.injEq] at last
        rw [← last]
        exact List.getLast_mem some_
      have positive : 0 < letterCount others := List.countP_pos_iff.mpr ⟨']',closing,rfl⟩
      omega
    rw [none,List.append_nil] at parts
    rw [parts] at earlier
    exact Nat.lt_irrefl _ earlier
  · obtain ⟨rfl,rfl⟩ := List.append_inj whole.symm there
    rw [behind_here] at fence
    cases fence
    exact ⟨found,first,letters⟩
  · refine absurd ?_ (first _ later)
    exact ⟨_,_,by rw [List.drop_left]; exact behind_here body⟩

theorem parse_written_iff (ascii : LowersAscii lower) (canonical : Canonical lower tags) (current title body : String) (defaultTags : List String) :
    parseEditBuffer lower (noteToEditBuffer title tags body) current defaultTags = some ⟨title,tags,body⟩ ↔ Readable current title tags body := by
  have plain : ∀ tag ∈ tags, '\n' ∉ tag.toList := fun tag inside => (canonical tag inside).2.2
  constructor
  · intro parsed
    cases search : findClosingFence (frontOf title tags ++ '\n' :: behindFront body) with
    | absent => exact absurd ⟨_,_,by rw [List.drop_left]; exact behind_here body⟩ (absent_none search (frontOf title tags).length)
    | insideCharacter =>
        have some_ := (parse_some_iff lower _ current defaultTags).mp ⟨_,(parse_cut _ _ _ _).trans parsed⟩ _ (buffer_opening title tags body)
        exact absurd search some_
    | found front after =>
        rw [parse_found (buffer_opening title tags body) search] at parsed
        have sameBody := congrArg ParsedEdit.body (Option.some.inj parsed)
        rw [(fold_lines lower _ _).2] at sameBody
        dsimp only at sameBody
        have same : trimList isWhitespace after = body.toList := by
          rw [← sameBody,String.toList_ofList]
        obtain ⟨true_,first,letters⟩ := fence_is_last search same
        rw [search] at true_
        cases true_
        rw [read_front lower title plain,body_trimmed] at parsed
        have fields := ParsedEdit.mk.inj (Option.some.inj parsed)
        have canon := front_ascii.mp letters
        refine ⟨canon,(front_fence plain).mp first,(title_iff title current).mp fields.1,(tags_iff ascii canonical canon.2).mp fields.2.1,?_⟩
        apply trim_same_iff.mp
        rw [← trimList_eq,← body_trimmed,same]
  · intro readable
    have front := find_first (behind_here body) ((front_fence plain).mpr readable.fence) (front_ascii.mpr readable.ascii)
    rw [parse_front canonical front,(title_iff title current).mpr readable.titled,(tags_iff ascii canonical readable.ascii.2).mpr readable.tagged,
      trimList_eq,trim_bare readable.trimmed,String.ofList_toList]

theorem each_valid {check : String → Except NoteValidationError Unit} (passes : tags.forM check = .ok ()) : ∀ tag ∈ tags, check tag = .ok () := by
  induction tags with
  | nil => exact fun tag inside => by cases inside
  | cons first rest ih =>
      obtain ⟨_,one,later⟩ := bind_done (show (check first >>= fun _ => rest.forM check) = .ok () from passes)
      intro tag inside
      rcases List.mem_cons.mp inside with rfl | inside
      · exact one
      · exact ih later tag inside

def Built (lower : String → String) (note : PlaintextNote) : Prop := ∃ now builder, NoteBuilder.build lower now builder = .ok note

theorem built_canonical (stable : FoldStable lower) {note : PlaintextNote} (built : Built lower note) : Canonical lower note.tags := by
  obtain ⟨now,builder,done⟩ := built
  unfold NoteBuilder.build at done
  dsimp only at done
  split at done
  · cases done
  rename_i valid
  cases done
  unfold PlaintextNote.validate at valid
  obtain ⟨_,valid⟩ := passed valid
  obtain ⟨_,valid⟩ := passed valid
  obtain ⟨_,valid⟩ := passed valid
  obtain ⟨_,valid⟩ := passed valid
  split at valid
  · cases valid
  rename_i tagsValid
  intro tag inside
  obtain ⟨some_,folded⟩ := NoteSets.canonical_folded stable inside
  refine ⟨some_,folded,fun newline => ?_⟩
  have checked := each_valid tagsValid tag inside
  unfold PlaintextNote.validateTag at checked
  obtain ⟨_,checked⟩ := passed checked
  obtain ⟨_,checked⟩ := passed checked
  obtain ⟨control,_⟩ := passed checked
  exact control (List.any_eq_true.mpr ⟨'\n',newline,rfl⟩)

-- One field of the written note set to another value.
inductive Change where
  | title (new : String)
  | tags (new : List String)
  | body (new : String)

def Change.apply (note : PlaintextNote) : Change → PlaintextNote
  | .title new => {note with title := new}
  | .tags new => {note with tags := new}
  | .body new => {note with body := new}

def contentOf (note : PlaintextNote) : ParsedEdit := ⟨note.title,note.tags,note.body⟩

def bufferOf (note : PlaintextNote) : String := noteToEditBuffer note.title note.tags note.body

-- The note's own buffer gives the note back, and the changed buffer the changed note.
structure RoundTrips (lower : String → String) (note : PlaintextNote) (change : Change) : Prop where
  same : parseEditBufferAt lower (bufferOf note) note.title note.tags = some (contentOf note)
  changed : parseEditBufferAt lower (bufferOf (change.apply note)) note.title note.tags = some (contentOf (change.apply note))

theorem round_trip_iff {lower : String → String} (ascii : LowersAscii lower) (stable : FoldStable lower) {note : PlaintextNote} {change : Change}
    (built : Built lower note) (valid : Built lower (change.apply note)) : RoundTrips lower note change ↔
      Readable note.title note.title note.tags note.body ∧
        Readable note.title (change.apply note).title (change.apply note).tags (change.apply note).body := by
  have same := parse_written_iff ascii (built_canonical stable built) note.title note.title note.body note.tags
  have changed := parse_written_iff ascii (built_canonical stable valid) note.title (change.apply note).title (change.apply note).body note.tags
  rw [← parse_cut] at same changed
  exact ⟨fun trips => ⟨same.mp trips.same,changed.mp trips.changed⟩,fun readable => ⟨same.mpr readable.1,changed.mpr readable.2⟩⟩

theorem lowers_ascii : LowersAscii NoteMergeLaws.asciiLower := fun _ _ => rfl

theorem folds_stable : FoldStable NoteMergeLaws.asciiLower := NoteMergeLaws.foldTag_again NoteMergeLaws.ascii_lowers

def noteOf (title body : String) (tags : List String) : PlaintextNote := ⟨1,title,body,tags,"2026-01-02T03:04:05Z","2026-01-02T03:04:05Z",[]⟩

def plannedNote : PlaintextNote := noteOf "Plan" "Buy milk." ["home","work"]

theorem renamed_plan_reads : RoundTrips NoteMergeLaws.asciiLower plannedNote (.title "New plan") := by
  have built : Built NoteMergeLaws.asciiLower plannedNote :=
    ⟨"2026-01-02T03:04:05Z",{title := "Plan",body := "Buy milk.",tags := ["home","work"]},by decide +kernel⟩
  have valid : Built NoteMergeLaws.asciiLower (Change.apply plannedNote (.title "New plan")) :=
    ⟨"2026-01-02T03:04:05Z",{title := "New plan",body := "Buy milk.",tags := ["home","work"]},by decide +kernel⟩
  refine (round_trip_iff lowers_ascii folds_stable built valid).mpr ⟨?_,?_⟩
  all_goals
    refine ⟨⟨ascii_chars (by decide),?_⟩,by decide,by decide,⟨by decide,by decide,?_,?_⟩,by decide⟩
    · have plain : ∀ tag ∈ ["home","work"], tag.toList.all (fun c => c.utf8Size == 1) = true := by decide
      exact fun tag inside => ascii_chars (plain tag inside)
    · intro tag c head inside
      cases head
      cases inside
      decide
    · intro tag last
      cases last
      decide

-- The opening quotation mark is taken for quoting, although the title goes on behind its end.
theorem quoted_title_changed : Built NoteMergeLaws.asciiLower (noteOf "\"Draft\" v2" "Old text." []) ∧
    parseEditBufferAt NoteMergeLaws.asciiLower (noteToEditBuffer "\"Draft\" v2" [] "New text.") "\"Draft\" v2" [] =
      some ⟨"Draft\" v2",[],"New text."⟩ ∧
    ¬RoundTrips NoteMergeLaws.asciiLower (noteOf "\"Draft\" v2" "Old text." []) (.body "New text.") := by
  have read : parseEditBufferAt NoteMergeLaws.asciiLower (noteToEditBuffer "\"Draft\" v2" [] "New text.") "\"Draft\" v2" [] =
      some ⟨"Draft\" v2",[],"New text."⟩ := by decide +kernel
  refine ⟨⟨"2026-01-02T03:04:05Z",{title := "\"Draft\" v2",body := "Old text."},by decide +kernel⟩,read,fun trips => ?_⟩
  have changed := read.symm.trans trips.changed
  exact absurd changed (by decide)

end ZkNote.EditRoundTrip
