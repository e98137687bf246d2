import ZkNote.ByteOffsets
import ZkNote.EditBuffer

namespace ZkNote.FenceSearch
open ByteOffsets EditBuffer PlaintextNotes StdText

-- The search for the fence and the parser with every slice cut at its byte offset:
-- no result where one of them would stop the program. `left` counts the bytes from
-- `pos` to the end.
def findFrom (s : List Char) : (left : Nat) → Option (Option Nat)
  | 0 => some none
  | left+1 =>
    let pos := size s-(left+1)
    match onward s pos with
    | none => none
    | some here =>
      if (afterStart "\n---" here).isSome then
        match onward s (pos+4) with
        | none => none
        | some after => if closes after then some (some (pos+1)) else findFrom s left
      else if (afterStart "\r\n---" here).isSome then
        match onward s (pos+5) with
        | none => none
        | some after => if closes after then some (some (pos+2)) else findFrom s left
      else findFrom s left

def findClosingFenceAt (s : List Char) : Option (Option Nat) := findFrom s (size s)

def afterOpening (content : List Char) : Option (List Char) :=
  (afterStart "---" (content.dropWhile isWhitespace)).map (fun rest => ((afterStart "\r\n" rest).or (afterStart "\n" rest)).getD rest)

def parseEditBufferAt (lower : String → String) (content defaultTitle : String) (defaultTags : List String) : Option ParsedEdit :=
  let fallback := withoutFrontmatter content.toList defaultTitle defaultTags
  match afterOpening content.toList with
  | none => some fallback
  | some s =>
    match findClosingFenceAt s with
    | none => none
    | some none => some fallback
    | some (some closingPos) => do
      let frontmatter ← upTo s closingPos
      let rawBody ← onward s (closingPos+3)
      return (lines frontmatter).foldl (readLine lower) ⟨defaultTitle,defaultTags,String.ofList (trimList isWhitespace rawBody)⟩

variable {text rest pre after front : List Char} {start : String} {c : Char} {n : Nat}

theorem after_start_iff : afterStart start text = some after ↔ text = start.toList ++ after := by
  unfold afterStart
  constructor
  · intro is
    split at is
    · rename_i begins
      obtain ⟨rest,rfl⟩ := List.isPrefixOf_iff_prefix.mp begins
      rw [← String.length_toList,List.drop_left] at is
      rw [Option.some.inj is]
    · cases is
  · rintro rfl
    rw [if_pos (List.isPrefixOf_iff_prefix.mpr (List.prefix_append _ _)),← String.length_toList,List.drop_left]

theorem cut_past (pre rest : List Char) (n : Nat) : cut (size pre+n) (pre ++ rest) = (cut n rest).map (fun parts => (pre ++ parts.1,parts.2)) := by
  induction pre with
  | nil =>
      rw [show size [] = 0 from rfl,Nat.zero_add,List.nil_append]
      cases cut n rest <;> rfl
  | cons c pre ih =>
      have positive := c.utf8Size_pos
      obtain ⟨m,is⟩ : ∃ m, size (c :: pre)+n = m+1 := ⟨size (c :: pre)+n-1,by rw [size_cons]; omega⟩
      have left : m+1-c.utf8Size = size pre+n := by
        rw [size_cons] at is
        omega
      rw [is,List.cons_append,cut,if_pos (by rw [size_cons] at is; omega),left,ih]
      cases cut n rest <;> rfl

-- One byte past the start of a longer character.
theorem onward_inside (pre rest : List Char) (wide : c.utf8Size ≠ 1) : onward (pre ++ c :: rest) (size pre+1) = none := by
  have positive := c.utf8Size_pos
  rw [onward,cut_past,cut,if_neg (by omega)]
  rfl

theorem rest_of (first : List Char) (same : first ++ rest = first ++ after) : rest = after := List.append_cancel_left same

theorem fence_here_iff : fenceHere text = some (front,after) ↔
    text = front ++ "---".toList ++ after ∧ closes after = true ∧ (front = ['\n'] ∨ front = ['\r','\n']) := by
  unfold fenceHere
  cases plain : afterStart "\n---" text with
  | some rest =>
      obtain rfl := after_start_iff.mp plain
      dsimp only
      split
      · rename_i ends
        constructor
        · intro is
          cases is
          exact ⟨rfl,ends,.inl rfl⟩
        · rintro ⟨same,_,rfl | rfl⟩
          · rw [rest_of "\n---".toList same]
          · cases same
      · rename_i goesOn
        refine iff_of_false (fun is => by cases is) ?_
        rintro ⟨same,ends,rfl | rfl⟩
        · rw [rest_of "\n---".toList same] at goesOn
          exact goesOn ends
        · cases same
  | none =>
      dsimp only
      have unlike : ¬(text = ['\n'] ++ "---".toList ++ after) := by
        intro same
        have begins := after_start_iff.mpr (show text = "\n---".toList ++ after from same)
        rw [plain] at begins
        cases begins
      cases windows : afterStart "\r\n---" text with
      | some rest =>
          obtain rfl := after_start_iff.mp windows
          dsimp only
          split
          · rename_i ends
            constructor
            · intro is
              cases is
              exact ⟨rfl,ends,.inr rfl⟩
            · rintro ⟨same,_,rfl | rfl⟩
              · exact absurd same unlike
              · rw [rest_of "\r\n---".toList same]
          · rename_i goesOn
            refine iff_of_false (fun is => by cases is) ?_
            rintro ⟨same,ends,rfl | rfl⟩
            · exact unlike same
            · rw [rest_of "\r\n---".toList same] at goesOn
              exact goesOn ends
      | none =>
          refine iff_of_false (fun is => by cases is) ?_
          rintro ⟨same,_,rfl | rfl⟩
          · exact unlike same
          · have begins := after_start_iff.mpr (show text = "\r\n---".toList ++ after from same)
            rw [windows] at begins
            cases begins

-- What the search finds behind one more character.
def behind (c : Char) : Fence → Fence
  | .found front after => .found (c :: front) after
  | .absent => .absent
  | .insideCharacter => .insideCharacter

theorem find_cons (open_ : fenceHere (c :: rest) = none) :
    findClosingFence (c :: rest) = if c.utf8Size ≠ 1 then .insideCharacter else behind c (findClosingFence rest) := by
  rw [findClosingFence,open_]
  cases findClosingFence rest <;> rfl

theorem find_here {newline : List Char} (here : fenceHere (c :: rest) = some (newline,after)) : findClosingFence (c :: rest) = .found newline after := by
  rw [findClosingFence,here]

-- A text that begins with a newline and a fence, whether or not the fence closes.
theorem starts_at (pre : List Char) (begins : afterStart start text = some after) :
    onward (pre ++ text) (size pre+size start.toList) = some after := by
  rw [after_start_iff.mp begins,← size_append,← List.append_assoc]
  exact onward_append _ _

-- What the search by characters found, as a byte offset.
def offsetOf (start : Nat) : Fence → Option (Option Nat)
  | .found front _ => some (some (start+size front))
  | .absent => some none
  | .insideCharacter => none

theorem find_from (pre rest : List Char) : findFrom (pre ++ rest) (size rest) = offsetOf (size pre) (findClosingFence rest) := by
  induction rest generalizing pre with
  | nil => rfl
  | cons c rest ih =>
      have positive := c.utf8Size_pos
      obtain ⟨left,is⟩ : ∃ left, size (c :: rest) = left+1 := ⟨size (c :: rest)-1,by rw [size_cons]; omega⟩
      have place : size (pre ++ c :: rest)-(left+1) = size pre := by
        rw [size_append,is]
        omega
      have here : onward (pre ++ c :: rest) (size pre) = some (c :: rest) := onward_append pre (c :: rest)
      -- The turn after this one: on to the next character, or inside this one.
      have goesOn (open_ : fenceHere (c :: rest) = none) : findFrom (pre ++ c :: rest) left = offsetOf (size pre) (findClosingFence (c :: rest)) := by
        rw [find_cons open_]
        by_cases narrow : c.utf8Size = 1
        · rw [size_cons,narrow] at is
          have next := ih (pre ++ [c])
          rw [List.append_assoc,List.singleton_append] at next
          rw [if_neg (not_not.mpr narrow),show left = size rest by omega,next]
          cases findClosingFence rest with
          | absent => rfl
          | insideCharacter => rfl
          | found front after =>
              have sum : size (pre ++ [c])+size front = size pre+size (c :: front) := by
                rw [size_append,size_cons,size_cons,Nat.add_assoc]
                rfl
              exact congrArg (fun n => some (some n)) sum
        · rw [if_pos narrow]
          obtain ⟨fewer,less⟩ : ∃ fewer, left = fewer+1 := ⟨left-1,by rw [size_cons] at is; omega⟩
          have inside : size (pre ++ c :: rest)-(fewer+1) = size pre+1 := by
            rw [size_append,is]
            omega
          rw [less,findFrom,inside,onward_inside pre rest narrow]
          rfl
      rw [is,findFrom,place,here]
      dsimp only
      cases plain : afterStart "\n---" (c :: rest) with
      | some after =>
          have next : onward (pre ++ c :: rest) (size pre+4) = some after := starts_at pre plain
          rw [Option.isSome_some,if_pos rfl,next]
          dsimp only
          split
          · rename_i ends
            rw [find_here (by rw [fenceHere,plain]; exact if_pos ends)]
            rfl
          · rename_i goes
            exact goesOn (by rw [fenceHere,plain]; exact if_neg goes)
      | none =>
          rw [Option.isSome_none,if_neg (by decide)]
          cases windows : afterStart "\r\n---" (c :: rest) with
          | some after =>
              have next : onward (pre ++ c :: rest) (size pre+5) = some after := starts_at pre windows
              rw [Option.isSome_some,if_pos rfl,next]
              dsimp only
              split
              · rename_i ends
                rw [find_here (by rw [fenceHere,plain,windows]; exact if_pos ends)]
                rfl
              · rename_i goes
                exact goesOn (by rw [fenceHere,plain,windows]; exact if_neg goes)
          | none =>
              rw [Option.isSome_none,if_neg (by decide)]
              exact goesOn (by rw [fenceHere,plain,windows])

def FenceAt (text : List Char) (i : Nat) : Prop := ∃ newline after, fenceHere (text.drop i) = some (newline,after)

theorem no_fence_cons (open_ : fenceHere (c :: rest) = none) : (∀ j < n, ¬FenceAt rest j) ↔ ∀ j < n+1, ¬FenceAt (c :: rest) j := by
  constructor
  · intro none j small
    cases j with
    | zero =>
        rintro ⟨newline,after,is⟩
        rw [List.drop_zero,open_] at is
        cases is
    | succ j => exact none j (Nat.lt_of_succ_lt_succ small)
  · intro none j small
    exact none (j+1) (Nat.succ_lt_succ small)

-- The search finds the first fence, past ASCII only.
theorem find_found (found : findClosingFence text = .found front after) :
    ∃ pre newline rest, text = pre ++ rest ∧ fenceHere rest = some (newline,after) ∧ front = pre ++ newline ∧
      (∀ j < pre.length, ¬FenceAt text j) ∧ ∀ c ∈ pre, c.utf8Size = 1 := by
  induction text generalizing front with
  | nil => cases found
  | cons c rest ih =>
      cases here : fenceHere (c :: rest) with
      | some parts =>
          rw [find_here here] at found
          cases found
          exact ⟨[],parts.1,c :: rest,rfl,here,rfl,fun j small => absurd small (Nat.not_lt_zero j),fun c inside => by cases inside⟩
      | none =>
          rw [find_cons here] at found
          split at found
          · cases found
          · rename_i narrow
            cases next : findClosingFence rest with
            | found earlier after' =>
                rw [next] at found
                cases found
                obtain ⟨pre,newline,back,rfl,fence,rfl,first,ascii⟩ := ih next
                refine ⟨c :: pre,newline,back,rfl,fence,rfl,(no_fence_cons here).mp first,?_⟩
                intro d inside
                rcases List.mem_cons.mp inside with rfl | later
                · exact not_not.mp narrow
                · exact ascii d later
            | absent =>
                rw [next] at found
                cases found
            | insideCharacter =>
                rw [next] at found
                cases found

theorem find_first {newline : List Char} (fence : fenceHere rest = some (newline,after)) (first : ∀ j < pre.length, ¬FenceAt (pre ++ rest) j)
    (ascii : ∀ c ∈ pre, c.utf8Size = 1) : findClosingFence (pre ++ rest) = .found (pre ++ newline) after := by
  induction pre with
  | nil =>
      cases rest with
      | nil => cases fence
      | cons c rest => exact find_here fence
  | cons c pre ih =>
      have open_ : fenceHere (c :: (pre ++ rest)) = none := by
        cases here : fenceHere (c :: (pre ++ rest)) with
        | none => rfl
        | some parts => exact absurd ⟨parts.1,parts.2,here⟩ (first 0 (Nat.succ_pos _))
      rw [List.cons_append,find_cons open_,if_neg (not_not.mpr (ascii c List.mem_cons_self)),
        ih ((no_fence_cons open_).mpr first) (fun d inside => ascii d (List.mem_cons_of_mem _ inside))]
      rfl

theorem absent_none (absent : findClosingFence text = .absent) (i : Nat) : ¬FenceAt text i := by
  induction text generalizing i with
  | nil =>
      rintro ⟨newline,after,is⟩
      rw [List.drop_nil] at is
      cases is
  | cons c rest ih =>
      cases here : fenceHere (c :: rest) with
      | some parts =>
          rw [find_here here] at absent
          cases absent
      | none =>
          rw [find_cons here] at absent
          split at absent
          · cases absent
          · cases next : findClosingFence rest with
            | absent => exact (no_fence_cons here).mp (fun j _ => ih next j) i (Nat.lt_succ_self i)
            | found front after =>
                rw [next] at absent
                cases absent
            | insideCharacter =>
                rw [next] at absent
                cases absent

-- Every character of more than one byte comes after the start of a closing fence.
def FenceBeforeWide (text : List Char) : Prop := ∀ i c, text[i]? = some c → c.utf8Size ≠ 1 → ∃ j < i, FenceAt text j

theorem search_ends_iff : findClosingFence text ≠ .insideCharacter ↔ FenceBeforeWide text := by
  induction text with
  | nil => exact iff_of_true (fun is => by cases is) (fun i c at_ => by cases at_)
  | cons c rest ih =>
      cases here : fenceHere (c :: rest) with
      | some parts =>
          obtain ⟨newline,after⟩ := parts
          rw [find_here here]
          refine iff_of_true (fun is => by cases is) ?_
          intro i d at_ wide
          cases i with
          | zero =>
              obtain ⟨same,_,newline⟩ := fence_here_iff.mp here
              cases at_
              rcases newline with rfl | rfl <;> cases same <;> exact absurd rfl wide
          | succ i => exact ⟨0,Nat.succ_pos i,newline,after,here⟩
      | none =>
          have first : ¬FenceAt (c :: rest) 0 := (no_fence_cons (n := 0) here).mp (fun j small => absurd small (Nat.not_lt_zero j)) 0 Nat.one_pos
          rw [find_cons here]
          by_cases narrow : c.utf8Size = 1
          · have goesOn : behind c (findClosingFence rest) ≠ .insideCharacter ↔ findClosingFence rest ≠ .insideCharacter := by
              cases findClosingFence rest <;> simp [behind]
            rw [if_neg (not_not.mpr narrow),goesOn,ih]
            constructor
            · intro before i d at_ wide
              cases i with
              | zero =>
                  cases at_
                  exact absurd narrow wide
              | succ i =>
                  obtain ⟨j,earlier,newline,after,is⟩ := before i d at_ wide
                  exact ⟨j+1,Nat.succ_lt_succ earlier,newline,after,is⟩
            · intro before i d at_ wide
              obtain ⟨j,earlier,fence⟩ := before (i+1) d at_ wide
              cases j with
              | zero => exact absurd fence first
              | succ j => exact ⟨j,Nat.lt_of_succ_lt_succ earlier,fence⟩
          · rw [if_pos narrow]
            refine iff_of_false (not_not.mpr rfl) (fun before => ?_)
            obtain ⟨j,earlier,_⟩ := before 0 c rfl narrow
            exact absurd earlier (Nat.not_lt_zero j)

theorem found_slices {pos : Nat} (found : findClosingFenceAt text = some (some pos)) :
    ∃ frontmatter rawBody, findClosingFence text = .found frontmatter rawBody ∧ text = frontmatter ++ "---".toList ++ rawBody ∧
      size frontmatter = pos ∧ upTo text pos = some frontmatter ∧ onward text (pos+3) = some rawBody := by
  have searched := find_from [] text
  rw [List.nil_append,← findClosingFenceAt.eq_1,found] at searched
  cases chars : findClosingFence text with
  | absent =>
      rw [chars] at searched
      cases searched
  | insideCharacter =>
      rw [chars] at searched
      cases searched
  | found frontmatter rawBody =>
      rw [chars] at searched
      have place : pos = size frontmatter := by simpa [offsetOf,show size [] = 0 from rfl] using searched
      have whole : text = frontmatter ++ "---".toList ++ rawBody := by
        obtain ⟨pre,newline,rest,parts,fence,is,_⟩ := find_found chars
        rw [parts,(fence_here_iff.mp fence).1,is,← List.append_assoc,← List.append_assoc]
      refine ⟨frontmatter,rawBody,rfl,whole,place.symm,?_,?_⟩
      · rw [place,whole,List.append_assoc]
        exact upTo_append _ _
      · have behind := onward_append (frontmatter ++ "---".toList) rawBody
        rw [size_append,← whole,← place] at behind
        exact behind

-- Cut at bytes the parser is the parser that reads characters.
theorem parse_cut (lower : String → String) (content defaultTitle : String) (defaultTags : List String) :
    parseEditBufferAt lower content defaultTitle defaultTags = parseEditBuffer lower content defaultTitle defaultTags := by
  unfold parseEditBufferAt parseEditBuffer afterOpening
  dsimp only
  cases afterStart "---" (content.toList.dropWhile isWhitespace) with
  | none => rfl
  | some rest =>
      rw [Option.map_some]
      dsimp only
      generalize ((afterStart "\r\n" rest).or (afterStart "\n" rest)).getD rest = s
      have searched := find_from [] s
      rw [List.nil_append] at searched
      cases at_ : findClosingFenceAt s with
      | none =>
          rw [← findClosingFenceAt.eq_1,at_] at searched
          cases chars : findClosingFence s with
          | insideCharacter => rfl
          | absent =>
              rw [chars] at searched
              cases searched
          | found front after =>
              rw [chars] at searched
              cases searched
      | some outcome =>
          cases outcome with
          | none =>
              rw [← findClosingFenceAt.eq_1,at_] at searched
              cases chars : findClosingFence s with
              | absent => rfl
              | insideCharacter =>
                  rw [chars] at searched
                  cases searched
              | found front after =>
                  rw [chars] at searched
                  cases searched
          | some pos =>
              obtain ⟨frontmatter,rawBody,chars,_,_,front,behind⟩ := found_slices at_
              rw [chars]
              dsimp only
              rw [front,behind]
              rfl

theorem parse_some_iff (lower : String → String) (content defaultTitle : String) (defaultTags : List String) :
    (∃ parsed, parseEditBufferAt lower content defaultTitle defaultTags = some parsed) ↔
      ∀ s, afterOpening content.toList = some s → findClosingFence s ≠ .insideCharacter := by
  rw [parse_cut]
  unfold parseEditBuffer afterOpening
  dsimp only
  cases afterStart "---" (content.toList.dropWhile isWhitespace) with
  | none => exact iff_of_true ⟨_,rfl⟩ (fun s is => by cases is)
  | some rest =>
      simp only [Option.map_some,Option.some.injEq,forall_eq']
      cases findClosingFence (((afterStart "\r\n" rest).or (afterStart "\n" rest)).getD rest) <;> simp

theorem parse_found {lower : String → String} {content defaultTitle : String} {defaultTags : List String} (opens : afterOpening content.toList = some text)
    (found : findClosingFence text = .found front after) : parseEditBuffer lower content defaultTitle defaultTags =
      some ((lines front).foldl (readLine lower) ⟨defaultTitle,defaultTags,String.ofList (trimList isWhitespace after)⟩) := by
  obtain ⟨rest,begins,is⟩ := Option.map_eq_some_iff.mp opens
  unfold parseEditBuffer
  rw [begins]
  dsimp only
  rw [is,found]

theorem parse_returns_iff (lower : String → String) (content defaultTitle : String) (defaultTags : List String) :
    ((∃ parsed, parseEditBufferAt lower content defaultTitle defaultTags = some parsed) ↔
      ∀ s, afterOpening content.toList = some s → FenceBeforeWide s) ∧
    ∀ s closingPos, afterOpening content.toList = some s → findClosingFenceAt s = some (some closingPos) →
      ∃ frontmatter rawBody, s = frontmatter ++ "---".toList ++ rawBody ∧ size frontmatter = closingPos ∧
        upTo s closingPos = some frontmatter ∧ onward s (closingPos+3) = some rawBody := by
  constructor
  · rw [parse_some_iff]
    exact forall₂_congr (fun s _ => search_ends_iff)
  · intro s closingPos _ found
    obtain ⟨frontmatter,rawBody,_,whole,place,front,rest⟩ := found_slices found
    exact ⟨frontmatter,rawBody,whole,place,front,rest⟩

theorem accented_title_stops :
    parseEditBufferAt String.toLower (noteToEditBuffer "Café" [] "Espresso") "Café" [] = none := by
  decide +kernel

end ZkNote.FenceSearch
