import Mathlib.Order.Bounds.Basic
import ZkNote.LowerCase
import ZkNote.SearchExact

namespace ZkNote.SnippetMatches
open LowerCase PlaintextNotes SearchIndex StdText

def Short (term : String) : Prop := term ≠ "" ∧ term.toList.length ≤ 20 ∧ ∀ c ∈ term.toList, isWhitespace c = false

def lowered (tables : CaseTables) (body : String) : List Char := tables.lowerFrom [] body.toList

-- The byte offsets in the lowercased body at which terms first occur.
def offsets (tables : CaseTables) (body : String) (terms : List String) : Set Nat :=
  {p | ∃ term ∈ terms, term ≠ "" ∧ findText term.toList (lowered tables body) = some p}

structure EarliestShort (tables : CaseTables) (body : String) (terms : List String) (term : String) : Prop where
  listed : term ∈ terms
  short : Short term
  earliest : ∃ p, findText term.toList (lowered tables body) = some p ∧
    ∀ other ∈ terms, Short other → ∀ q, findText other.toList (lowered tables body) = some q → p ≤ q

def Shown (tables : CaseTables) (body : String) (terms : List String) : Prop :=
  ∀ term, EarliestShort tables body terms term → contains (tables.toLowercase (extractSnippet tables.toLowercase body terms)) term = true

-- From 20 characters before a place of the body to 40 after it.
def around (body : List Char) (place : Nat) : List Char := (body.take (place+40)).drop (place-20)

-- The term occurs around the place that the first match's byte offset has in the body.
def InWindow (tables : CaseTables) (body : String) (terms : List String) (term : String) : Prop :=
  ∃ p, IsLeast (offsets tables body terms) p ∧ term.toList <:+: tables.lowerFrom [] (around body.toList (charIndex body.toList p))

-- The dots of an ellipsis complete a text: its beginning by dots before the window,
-- its end by dots behind it, or both around all of the window.
inductive Completed (before behind : Nat) (window text : List Char) : Prop where
  | first (some_ : 0 < i) (dots : i ≤ before) (is : text = List.replicate i '.' ++ rest) (starts : rest <+: window)
  | last (some_ : 0 < j) (dots : j ≤ behind) (is : text = rest ++ List.replicate j '.') (ends : rest <:+ window)
  | both (some_ : 0 < i ∧ 0 < j) (dots : i ≤ before ∧ j ≤ behind) (is : text = List.replicate i '.' ++ window ++ List.replicate j '.')

-- Three dots before a window that leaves out the body's beginning, three behind
-- one that leaves out its end; the window without the white space at its ends.
def Dotted (tables : CaseTables) (body : String) (terms : List String) (term : String) : Prop :=
  ∃ p, IsLeast (offsets tables body terms) p ∧
    Completed (if 20 < charIndex body.toList p then 3 else 0) (if charIndex body.toList p+40 < body.toList.length then 3 else 0)
      (tables.lowerFrom [] (TrimmedText.trim isWhitespace (around body.toList (charIndex body.toList p)))) term.toList

-- The term's own match begins with a character of the body, at most 20 characters
-- from the place to which the first match's byte offset has drifted.
structure Near (tables : CaseTables) (body : String) (terms : List String) (term : String) : Prop where
  free : ∀ c ∈ term.toList, c ≠ 'σ' ∧ c ≠ 'ς'
  close : ∃ front back p, body.toList = front ++ back ∧ IsLeast (offsets tables body terms) p ∧
    findText term.toList (lowered tables body) = some (ByteOffsets.size (tables.lowerIn [] back front)) ∧
    charIndex body.toList p ≤ front.length+20 ∧ front.length ≤ charIndex body.toList p+20

-- The first match begins with a character of the body, and what is before it has
-- as many bytes in lower case.
structure Aligned (tables : CaseTables) (body : String) (terms : List String) (term : String) : Prop where
  free : ∀ c ∈ term.toList, c ≠ 'σ' ∧ c ≠ 'ς'
  sized : ∃ front back, body.toList = front ++ back ∧ IsLeast (offsets tables body terms) (ByteOffsets.size front) ∧
    findText term.toList (lowered tables body) = some (ByteOffsets.size front) ∧
    ByteOffsets.size (tables.lowerIn [] back front) = ByteOffsets.size front

variable {tables : CaseTables} {body term : String} {terms : List String} {part text front back : List Char} {p : Nat}

theorem find_text (found : findText part text = some p) : ∃ front back, text = front ++ part ++ back ∧ ByteOffsets.size front = p := by
  induction text generalizing p with
  | nil =>
      rw [findText] at found
      split at found
      · rename_i empty
        cases found
        exact ⟨[],[],by rw [empty]; rfl,rfl⟩
      · cases found
  | cons c rest ih =>
      rw [findText] at found
      split at found
      · rename_i starts
        cases found
        obtain ⟨back,is⟩ := List.isPrefixOf_iff_prefix.mp starts
        exact ⟨[],back,is.symm,rfl⟩
      · obtain ⟨q,later,is⟩ := Option.map_eq_some_iff.mp found
        obtain ⟨front,back,whole,size⟩ := ih later
        refine ⟨c :: front,back,by rw [whole]; rfl,?_⟩
        rw [ByteOffsets.size_cons,size,← is,Nat.add_comm]

theorem least_same {S T : Set Nat} (inside : T ⊆ S) (below : ∀ s ∈ S, ∃ t ∈ T, t ≤ s) : IsLeast T p ↔ IsLeast S p := by
  constructor
  · rintro ⟨member,least⟩
    refine ⟨inside member,fun s is => ?_⟩
    obtain ⟨t,isT,less⟩ := below s is
    exact (least isT).trans less
  · rintro ⟨member,least⟩
    obtain ⟨t,isT,less⟩ := below p member
    have same : t = p := Nat.le_antisymm less (least (inside isT))
    exact ⟨same ▸ isT,fun t is => least (inside is)⟩

theorem earliest_from {lowered : List Char} {met : Option Nat} (is : earliest lowered met term = some p) :
    met = some p ∨ term ≠ "" ∧ findText term.toList lowered = some p := by
  unfold earliest at is
  split at is
  · exact .inl is
  · rename_i some_
    split at is
    · rename_i found
      split at is
      · cases is
        exact .inr ⟨some_,found⟩
      · exact .inl is
    · rename_i found
      cases is
      exact .inr ⟨some_,found⟩
    · exact .inl is

theorem earliest_below {lowered : List Char} (met : Option Nat) (term : String) (is : met = some p ∨ term ≠ "" ∧ findText term.toList lowered = some p) :
    ∃ q, earliest lowered met term = some q ∧ q ≤ p := by
  unfold earliest
  split
  · rename_i empty
    rcases is with is | ⟨some_,_⟩
    · exact ⟨p,is,Nat.le_refl p⟩
    · exact absurd empty some_
  · split
    · rename_i pos m found
      have either : m = p ∨ pos = p := is.imp Option.some.inj (fun is => Option.some.inj (found.symm.trans is.2))
      split
      · exact ⟨pos,rfl,by omega⟩
      · exact ⟨m,rfl,by omega⟩
    · rename_i pos found
      rcases is with is | ⟨_,is⟩
      · cases is
      · exact ⟨pos,rfl,Nat.le_of_eq (Option.some.inj (found.symm.trans is))⟩
    · rename_i found
      rcases is with is | ⟨_,is⟩
      · exact ⟨p,is,Nat.le_refl p⟩
      · cases found.symm.trans is

-- The fold keeps the least offset that it has met.
theorem earliest_least (lowered : List Char) (terms : List String) (met : Option Nat) : terms.foldl (earliest lowered) met = some p ↔
    IsLeast {q | met = some q ∨ ∃ term ∈ terms, term ≠ "" ∧ findText term.toList lowered = some q} p := by
  induction terms generalizing met with
  | nil =>
      constructor
      · rintro is
        refine ⟨.inl is,?_⟩
        rintro q (other | ⟨term,listed,_⟩)
        · exact Nat.le_of_eq (Option.some.inj (is.symm.trans other))
        · cases listed
      · rintro ⟨is | ⟨term,listed,_⟩,_⟩
        · exact is
        · cases listed
  | cons term rest ih =>
      rw [List.foldl_cons,ih]
      apply least_same
      · rintro q (is | ⟨other,listed,found⟩)
        · exact (earliest_from is).imp id (fun found => ⟨term,List.mem_cons_self,found⟩)
        · exact .inr ⟨other,List.mem_cons_of_mem _ listed,found⟩
      · rintro q (is | ⟨other,listed,found⟩)
        · obtain ⟨r,kept,less⟩ := earliest_below met term (.inl is)
          exact ⟨r,.inl kept,less⟩
        · rcases List.mem_cons.mp listed with rfl | later
          · obtain ⟨r,kept,less⟩ := earliest_below met _ (.inr found)
            exact ⟨r,.inl kept,less⟩
          · exact ⟨q,.inr ⟨other,later,found⟩,Nat.le_refl q⟩

theorem after_marks {mark : Char → Bool} (first : ∀ c ∈ front, mark c = true) (begins : ∀ c, part.head? = some c → mark c = false)
    (some_ : part ≠ []) (inside : part <:+: front ++ text) : part <:+: text := by
  induction front with
  | nil => exact inside
  | cons c rest ih =>
      rw [List.cons_append,List.infix_cons_iff] at inside
      rcases inside with starts | later
      · cases part with
        | nil => exact absurd rfl some_
        | cons d tail =>
            have same : d = c := (List.cons_prefix_cons.mp starts).1
            have marked := first c List.mem_cons_self
            rw [← same,begins d rfl] at marked
            cases marked
      · exact ih (fun d member => first d (List.mem_cons_of_mem _ member)) later

-- A text that neither starts nor ends with a mark is found between the marks.
theorem between_marks (mark : Char → Bool) (first : ∀ c ∈ front, mark c = true) (last : ∀ c ∈ back, mark c = true)
    (begins : ∀ c, part.head? = some c → mark c = false) (ends : ∀ c, part.getLast? = some c → mark c = false) (some_ : part ≠ [])
    (inside : part <:+: front ++ text ++ back) : part <:+: text := by
  rw [List.append_assoc] at inside
  have later := after_marks first begins some_ inside
  rw [← List.reverse_infix,List.reverse_append] at later
  rw [← List.reverse_infix]
  apply after_marks (fun c member => last c (List.mem_reverse.mp member)) _ (by simpa using some_) later
  intro c is
  exact ends c (by rwa [List.head?_reverse] at is)

-- What the Unicode tables say of white space and of the full stop.
structure UnicodeTables (tables : CaseTables) : Prop where
  separates : tables.Separates isWhitespace
  fullStop : tables.Plain '.'

theorem blank_keeps (c : Char) (solid : isWhitespace c = false) : blank c = c := by
  unfold blank
  rw [if_neg]
  intro newline
  rw [Bool.or_eq_true,decide_eq_true_eq,decide_eq_true_eq] at newline
  rcases newline with rfl | rfl
  · exact absurd solid (by decide)
  · exact absurd solid (by decide)

theorem blank_stays (c : Char) (space : isWhitespace c = true) : isWhitespace (blank c) = true := by
  unfold blank
  split
  · rfl
  · exact space

theorem blank_white (c : Char) : isWhitespace (blank c) = isWhitespace c := by
  cases space : isWhitespace c with
  | true => exact blank_stays c space
  | false => rw [blank_keeps c space,space]

theorem blank_solid (solid : ∀ c ∈ text, isWhitespace c = false) : text.map blank = text :=
  (List.map_congr_left (fun c inside => blank_keeps c (solid c inside))).trans (List.map_id _)

-- What a blanked text and a word have in common was not blanked.
theorem blank_same (solid : ∀ c ∈ text.map blank, isWhitespace c = false) : text.map blank = text := by
  refine blank_solid (fun c inside => ?_)
  rw [← blank_white c]
  exact solid (blank c) (List.mem_map_of_mem inside)

theorem infix_blank (text : List Char) (solid : ∀ c ∈ part, isWhitespace c = false) : part <:+: text.map blank ↔ part <:+: text := by
  constructor
  · rintro ⟨front,back,whole⟩
    obtain ⟨start,rest,is,isStart,isBack⟩ := List.map_eq_append_iff.mp whole.symm
    obtain ⟨first,middle,isFirst,_,isMiddle⟩ := List.map_eq_append_iff.mp isStart
    have same : middle = part := by
      rw [← isMiddle]
      exact (blank_same (fun c inside => solid c (isMiddle ▸ inside))).symm
    exact ⟨first,rest,by rw [is,isFirst,same]⟩
  · intro inside
    have image := inside.map blank
    rwa [blank_solid solid] at image

theorem trim_blank (text : List Char) : TrimmedText.trim isWhitespace (text.map blank) = (TrimmedText.trim isWhitespace text).map blank := by
  have same : isWhitespace ∘ blank = isWhitespace := funext blank_white
  rw [TrimmedText.trim,TrimmedText.trim,List.rdropWhile,List.rdropWhile,List.dropWhile_map,same,← List.map_reverse,List.dropWhile_map,same,
    ← List.map_reverse]

theorem completed_blank (before behind : Nat) (window : List Char) (solid : ∀ c ∈ text, isWhitespace c = false) :
    Completed before behind (window.map blank) text ↔ Completed before behind window text := by
  have kept : ∀ {rest : List Char}, (∀ c ∈ rest, c ∈ text) → rest.map blank = rest :=
    fun inside => blank_solid (fun c member => solid c (inside c member))
  constructor
  · intro completed
    cases completed with
    | first some_ dots is starts =>
        obtain ⟨back,whole⟩ := starts
        obtain ⟨front,tail,rfl,isFront,_⟩ := List.map_eq_append_iff.mp whole.symm
        rw [← isFront] at is
        rw [blank_same (fun c inside => solid c (by rw [is]; exact List.mem_append_right _ inside))] at is
        exact .first some_ dots is (List.prefix_append _ _)
    | last some_ dots is ends =>
        obtain ⟨front,whole⟩ := ends
        obtain ⟨head,back,rfl,_,isBack⟩ := List.map_eq_append_iff.mp whole.symm
        rw [← isBack] at is
        rw [blank_same (fun c inside => solid c (by rw [is]; exact List.mem_append_left _ inside))] at is
        exact .last some_ dots is (List.suffix_append _ _)
    | both some_ dots is =>
        rw [blank_same (fun c inside => solid c (by rw [is]; exact List.mem_append_left _ (List.mem_append_right _ inside)))] at is
        exact .both some_ dots is
  · intro completed
    cases completed with
    | first some_ dots is starts =>
        refine .first some_ dots is ?_
        have image := starts.map blank
        rwa [kept (fun c inside => is ▸ List.mem_append_right _ inside)] at image
    | last some_ dots is ends =>
        refine .last some_ dots is ?_
        have image := ends.map blank
        rwa [kept (fun c inside => is ▸ List.mem_append_left _ inside)] at image
    | both some_ dots is =>
        refine .both some_ dots ?_
        rw [kept (fun c inside => is ▸ List.mem_append_left _ (List.mem_append_right _ inside))]
        exact is

theorem suffix_append_cases {p front back : List Char} (ends : p <:+ front ++ back) :
    p <:+ back ∨ ∃ s, s ≠ [] ∧ s <:+ front ∧ p = s ++ back := by
  obtain ⟨start,whole⟩ := ends
  rcases List.append_eq_append_iff.mp whole with ⟨s,isFront,isP⟩ | ⟨s,_,isBack⟩
  · cases s with
    | nil => exact .inl (isP ▸ List.suffix_rfl)
    | cons c rest => exact .inr ⟨c :: rest,List.cons_ne_nil _ _,⟨start,isFront.symm⟩,isP⟩
  · exact .inl ⟨s,isBack.symm⟩

-- Where a text is found among dots, window and dots.
theorem spliced_iff (before behind : Nat) (window : List Char) (some_ : part ≠ []) :
    part <:+: List.replicate before '.' ++ window ++ List.replicate behind '.' ↔ part <:+: window ∨ Completed before behind window part := by
  constructor
  · rw [List.infix_append_iff,List.infix_append_iff]
    rintro ((dots | inside | ⟨p,q,is,ends,starts⟩) | dots | ⟨p,q,is,ends,starts⟩)
    · obtain ⟨short,isDots⟩ := List.infix_replicate_iff.mp dots
      exact .inr (.first (List.length_pos_of_ne_nil some_) short (by rw [List.append_nil]; exact isDots) List.nil_prefix)
    · exact .inl inside
    · obtain ⟨short,isDots⟩ := List.suffix_replicate_iff.mp ends
      by_cases empty : p = []
      · rw [is,empty]
        exact .inl starts.isInfix
      · exact .inr (.first (List.length_pos_of_ne_nil empty) short (by rw [is,← isDots]) starts)
    · obtain ⟨short,isDots⟩ := List.infix_replicate_iff.mp dots
      exact .inr (.last (List.length_pos_of_ne_nil some_) short (by rw [List.nil_append]; exact isDots) List.nil_suffix)
    · obtain ⟨short,isDots⟩ := List.prefix_replicate_iff.mp starts
      by_cases empty : q = []
      · rw [empty,List.append_nil] at is
        rcases suffix_append_cases ends with ends | ⟨s,more,ends,whole⟩
        · exact .inl (is ▸ ends.isInfix)
        · obtain ⟨short,isDots⟩ := List.suffix_replicate_iff.mp ends
          exact .inr (.first (List.length_pos_of_ne_nil more) short (by rw [is,whole,← isDots]) List.prefix_rfl)
      · rcases suffix_append_cases ends with ends | ⟨s,more,ends,whole⟩
        · exact .inr (.last (List.length_pos_of_ne_nil empty) short (by rw [is,← isDots]) ends)
        · obtain ⟨shortS,isDotsS⟩ := List.suffix_replicate_iff.mp ends
          exact .inr (.both ⟨List.length_pos_of_ne_nil more,List.length_pos_of_ne_nil empty⟩ ⟨shortS,short⟩
            (by rw [is,whole,← isDots,← isDotsS]))
  · have cut : ∀ {i n : Nat}, i ≤ n → List.replicate n '.' = List.replicate (n-i) '.' ++ List.replicate i '.' := by
      intro i n fits
      rw [List.replicate_append_replicate,Nat.sub_add_cancel fits]
    have cut' : ∀ {j n : Nat}, j ≤ n → List.replicate n '.' = List.replicate j '.' ++ List.replicate (n-j) '.' := by
      intro j n fits
      rw [List.replicate_append_replicate,Nat.add_sub_cancel' fits]
    rintro (inside | completed)
    · exact inside.trans ⟨_,_,rfl⟩
    · cases completed with
      | @first i rest _ dots is starts =>
          obtain ⟨back,rfl⟩ := starts
          rw [is,cut dots]
          exact ⟨List.replicate (before-i) '.',back ++ List.replicate behind '.',by simp only [List.append_assoc]⟩
      | @last j rest _ dots is ends =>
          obtain ⟨front,rfl⟩ := ends
          rw [is,cut' dots]
          exact ⟨List.replicate before '.' ++ front,List.replicate (behind-j) '.',by simp only [List.append_assoc]⟩
      | @both i j _ dots is =>
          rw [is,cut dots.1,cut' dots.2]
          exact ⟨List.replicate (before-i) '.',List.replicate (behind-j) '.',by simp only [List.append_assoc]⟩

theorem lower_blank (unicode : UnicodeTables tables) (text : List Char) :
    tables.lowerFrom [] (text.map blank) = (tables.lowerFrom [] text).map blank := by
  rw [lower_whole,lower_whole]
  exact change_lower unicode.separates blank_keeps blank_stays [] [] text

-- Neither the blanks for line ends nor the trimming touches a word.
theorem infix_trimmed (unicode : UnicodeTables tables) (some_ : part ≠ []) (solid : ∀ c ∈ part, isWhitespace c = false) (text : List Char) :
    part <:+: tables.lowerFrom [] (TrimmedText.trim isWhitespace (text.map blank)) ↔ part <:+: tables.lowerFrom [] text := by
  obtain ⟨front,back,whole,first,last⟩ := TrimmedText.trim_infix isWhitespace (text.map blank)
  have blanked := lower_blank unicode text
  have plain : ∀ c, isWhitespace c = true → tables.Plain c := fun c space => space_plain unicode.separates space
  have framed := lower_framed (fun c inside => plain c (first c inside)) (fun c inside => plain c (last c inside))
    (TrimmedText.trim isWhitespace (text.map blank))
  rw [← infix_blank (tables.lowerFrom [] text) solid,← blanked,whole,framed,← whole]
  constructor
  · intro inside
    exact inside.trans ⟨front,back,rfl⟩
  · intro inside
    exact between_marks isWhitespace first last (fun c is => solid c (List.mem_of_mem_head? is)) (fun c is => solid c (List.mem_of_mem_getLast? is)) some_ inside

theorem snippet_chars (lower : String → String) (some_ : body ≠ "") (least : terms.foldl (earliest (lower body).toList) none = some p) :
    (extractSnippet lower body terms).toList = (ellipsis (0 < charIndex body.toList p-20)).toList ++
      TrimmedText.trim isWhitespace ((around body.toList (charIndex body.toList p)).map blank) ++
      (ellipsis (charIndex body.toList p+40 < body.toList.length)).toList := by
  have cut : body.toList.take (min body.toList.length (charIndex body.toList p+40)) = body.toList.take (charIndex body.toList p+40) := by
    rw [Nat.min_comm]
    exact List.take_eq_take_min.symm
  have ends : decide (min body.toList.length (charIndex body.toList p+40) < body.toList.length) =
      decide (charIndex body.toList p+40 < body.toList.length) := decide_eq_decide.mpr (by omega)
  unfold extractSnippet
  rw [if_neg some_,least]
  show (ellipsis (0 < charIndex body.toList p-20) ++
    trim (String.ofList (((body.toList.take (min body.toList.length (charIndex body.toList p+40))).drop (charIndex body.toList p-20)).map blank)) ++
    ellipsis (min body.toList.length (charIndex body.toList p+40) < body.toList.length)).toList = _
  rw [String.toList_append,String.toList_append,SearchExact.trim_chars,String.toList_ofList,cut,ends,around]

theorem ellipsis_dots (cut : Bool) : (ellipsis cut).toList = List.replicate (if cut then 3 else 0) '.' := by
  cases cut with
  | true => rfl
  | false => rfl

theorem lowered_snippet (unicode : UnicodeTables tables) (some_ : body ≠ "") (least : IsLeast (offsets tables body terms) p) :
    (tables.toLowercase (extractSnippet tables.toLowercase body terms)).toList = (ellipsis (0 < charIndex body.toList p-20)).toList ++
      tables.lowerFrom [] (TrimmedText.trim isWhitespace ((around body.toList (charIndex body.toList p)).map blank)) ++
      (ellipsis (charIndex body.toList p+40 < body.toList.length)).toList := by
  have dots : ∀ cut, ∀ c ∈ (ellipsis cut).toList, tables.Plain c := by
    intro cut c inside
    rw [ellipsis_dots] at inside
    rw [List.eq_of_mem_replicate inside]
    exact unicode.fullStop
  have folded : terms.foldl (earliest (tables.toLowercase body).toList) none = some p := by
    rw [earliest_least,CaseTables.toLowercase,String.toList_ofList]
    simpa [offsets,lowered] using least
  rw [CaseTables.toLowercase,String.toList_ofList,snippet_chars _ some_ folded,lower_framed (dots _) (dots _)]

theorem short_nonempty (short : Short term) : term.toList ≠ [] := fun empty => short.1 (String.toList_inj.mp empty)

-- The snippet has the term when the window has it, or with the dots of an ellipsis.
theorem seen_iff (unicode : UnicodeTables tables) (early : EarliestShort tables body terms term) :
    contains (tables.toLowercase (extractSnippet tables.toLowercase body terms)) term = true ↔
      InWindow tables body terms term ∨ Dotted tables body terms term := by
  obtain ⟨p,found,_⟩ := early.earliest
  have some_ := short_nonempty early.short
  have nonempty : body ≠ "" := by
    rintro rfl
    obtain ⟨front,back,whole,_⟩ := find_text found
    have length := congrArg List.length whole
    rw [List.length_append,List.length_append] at length
    exact some_ (List.length_eq_zero_iff.mp (by simp [lowered,CaseTables.lowerFrom] at length; omega))
  obtain ⟨q,member,lowest⟩ := Nat.lt_wfRel.wf.has_min (offsets tables body terms) ⟨p,term,early.listed,early.short.1,found⟩
  have least : IsLeast (offsets tables body terms) q := ⟨member,fun r is => Nat.le_of_not_lt (lowest r is)⟩
  have only : ∀ {P : Nat → Prop}, (∃ r, IsLeast (offsets tables body terms) r ∧ P r) ↔ P q := by
    intro P
    constructor
    · rintro ⟨r,least',holds⟩
      exact least'.unique least ▸ holds
    · intro holds
      exact ⟨q,least,holds⟩
  have cut : decide (0 < charIndex body.toList q-20) = decide (20 < charIndex body.toList q) := decide_eq_decide.mpr (by omega)
  rw [contains,decide_eq_true_eq,lowered_snippet unicode nonempty least,ellipsis_dots,ellipsis_dots,spliced_iff _ _ _ some_,InWindow,Dotted,only,only,cut]
  simp only [decide_eq_true_eq]
  refine or_congr (infix_trimmed unicode some_ early.short.2.2 _) ?_
  rw [trim_blank,lower_blank unicode,completed_blank _ _ _ early.short.2.2]

theorem index_at (some_ : back ≠ []) : charIndex (front ++ back) (ByteOffsets.size front) = front.length := by
  have least : (List.range (front ++ back).length).find? (fun i => ByteOffsets.size front ≤ ByteOffsets.size ((front ++ back).take i)) = some front.length := by
    rw [List.find?_range_eq_some]
    refine ⟨by rw [List.take_left]; exact decide_eq_true (Nat.le_refl _),?_,?_⟩
    · have more := List.length_pos_of_ne_nil some_
      rw [List.mem_range,List.length_append]
      omega
    · intro i earlier
      have parts := ByteOffsets.size_append (front.take i) (front.drop i)
      have left := ByteOffsets.length_le_size (front.drop i)
      rw [List.take_append_drop] at parts
      rw [List.length_drop] at left
      rw [List.take_append_of_le_length (Nat.le_of_lt earlier),decide_eq_false (by omega)]
      rfl
  rw [charIndex,least,Option.getD_some]

-- The window around a place that is near the end of `front` has the next 20 characters.
theorem around_near (front back : List Char) {place : Nat} (past : place ≤ front.length+20) (short : front.length ≤ place+20) :
    ∃ more, around (front ++ back) place = front.drop (place-20) ++ back.take 20 ++ more := by
  refine ⟨(back.take (place+40-front.length)).drop 20,?_⟩
  have next : back.take 20 = (back.take (place+40-front.length)).take 20 := by
    rw [List.take_take,Nat.min_eq_left (by omega)]
  rw [around,List.take_append,List.take_of_length_le (by omega),List.drop_append_of_le_length (by omega),next,List.append_assoc,
    List.take_append_drop]

theorem same_size {first second rest rest' : List Char} (whole : first ++ rest = second ++ rest') (size : ByteOffsets.size first = ByteOffsets.size second) :
    first = second ∧ rest = rest' := by
  have one := ByteOffsets.cut_append first rest
  have two := ByteOffsets.cut_append second rest'
  rw [whole,size,two] at one
  exact ⟨(congrArg Prod.fst (Option.some.inj one)).symm,(congrArg Prod.snd (Option.some.inj one)).symm⟩

-- A match that begins with a character of the body begins the lower case of what follows.
theorem match_starts (is : body.toList = front ++ back)
    (found : findText term.toList (lowered tables body) = some (ByteOffsets.size (tables.lowerIn [] back front))) :
    term.toList <+: tables.lowerIn front.reverse [] back := by
  obtain ⟨first,last,whole,size⟩ := find_text found
  have lower : lowered tables body = tables.lowerIn [] back front ++ tables.lowerIn front.reverse [] back := by
    rw [lowered,is,lower_whole,lower_append,List.append_nil,List.append_nil]
  rw [lower,List.append_assoc] at whole
  obtain ⟨_,starts⟩ := same_size whole size.symm
  exact ⟨last,starts.symm⟩

theorem near_seen (unicode : UnicodeTables tables) (early : EarliestShort tables body terms term) (near : Near tables body terms term) :
    InWindow tables body terms term := by
  obtain ⟨front,back,p,is,least,found,past,short⟩ := near.close
  have inside := match_starts is found
  -- A term of 20 characters comes from 20 at most.
  have close : term.toList <+: tables.lowerIn front.reverse (back.drop 20 ++ []) (back.take 20) := by
    rw [← List.take_append_drop 20 back,lower_append] at inside
    by_cases long : 20 ≤ back.length
    · have grown := lower_length unicode.separates front.reverse (back.drop 20 ++ []) (back.take 20)
      rw [List.length_take] at grown
      have brief := early.short.2.1
      exact List.prefix_of_prefix_length_le inside (List.prefix_append _ _) (by omega)
    · rw [List.drop_eq_nil_of_le (by omega)] at inside ⊢
      rwa [CaseTables.lowerIn,List.append_nil] at inside
  obtain ⟨more,window⟩ := around_near front back past short
  refine ⟨p,least,?_⟩
  rw [← is] at window
  rw [window,lower_whole,lower_append,lower_append]
  exact (lower_starts near.free close).isInfix.trans ⟨_,_,rfl⟩

theorem aligned_near (early : EarliestShort tables body terms term) (aligned : Aligned tables body terms term) : Near tables body terms term := by
  obtain ⟨front,back,is,least,found,drift⟩ := aligned.sized
  have inside := match_starts is (by rw [drift]; exact found)
  have more : back ≠ [] := by
    rintro rfl
    exact short_nonempty early.short (List.prefix_nil.mp inside)
  have place : charIndex body.toList (ByteOffsets.size front) = front.length := by
    rw [is]
    exact index_at more
  exact ⟨aligned.free,front,back,_,is,least,by rw [drift]; exact found,by omega,by omega⟩

theorem snippet_shows_iff (unicode : UnicodeTables tables) (body : String) (terms : List String) :
    (Shown tables body terms ↔ ∀ term, EarliestShort tables body terms term →
      InWindow tables body terms term ∨ Dotted tables body terms term) ∧
    (∀ term, EarliestShort tables body terms term → Near tables body terms term → InWindow tables body terms term) ∧
    ∀ term, EarliestShort tables body terms term → Aligned tables body terms term → InWindow tables body terms term :=
  ⟨forall_congr' (fun _ => forall_congr' (fun early => seen_iff unicode early)),fun _ early near => near_seen unicode early near,
    fun _ early aligned => near_seen unicode early (aligned_near early aligned)⟩

-- The English letters, and the dotted capital that takes a byte more in lower case.
def dottedTables : CaseTables where
  lower c := if c = 'İ' then ['i','\u0307'] else [c.toLower]
  cased c := 65 ≤ c.toNat && c.toNat ≤ 90 || 97 ≤ c.toNat && c.toNat ≤ 122 || c = 'İ'
  caseIgnorable c := c = '.' || c = '\u0307'

theorem white_codes {c : Char} (space : isWhitespace c = true) : c.toNat < 65 ∨ 122 < c.toNat ∧ c.toNat ≠ 304 := by
  simp only [isWhitespace,Bool.or_eq_true,Bool.and_eq_true,decide_eq_true_eq] at space
  omega

theorem white_other {c d : Char} (space : isWhitespace c = true) (solid : isWhitespace d = false) : c ≠ d := by
  rintro rfl
  exact Bool.false_ne_true (solid.symm.trans space)

theorem dotted_unicode : UnicodeTables dottedTables := by
  refine ⟨⟨?_,?_,?_,?_,by decide⟩,by decide,by decide,by decide⟩
  · intro c space
    have codes := white_codes space
    have other : c ≠ 'İ' := white_other space (by decide)
    show (if c = 'İ' then _ else _) = _
    rw [if_neg other,List.cons.injEq]
    refine ⟨Char.toNat_inj.mp ?_,rfl⟩
    rw [NoteMergeLaws.lower_code,if_neg (by omega)]
  · intro c space
    have codes := white_codes space
    have other : c ≠ 'İ' := white_other space (by decide)
    simp only [dottedTables,other,decide_false,Bool.or_false,Bool.or_eq_false_iff,Bool.and_eq_false_iff,decide_eq_false_iff_not]
    omega
  · intro c space
    have dot : c ≠ '.' := white_other space (by decide)
    have mark : c ≠ '\u0307' := white_other space (by decide)
    simp only [dottedTables,dot,mark,decide_false,Bool.or_false]
  · intro c solid
    by_cases dotted : c = 'İ'
    · rw [dotted]
      show ['i','\u0307'] ≠ [] ∧ ∀ d ∈ ['i','\u0307'], isWhitespace d = false
      exact ⟨by decide,List.forall_mem_cons.mpr ⟨by decide,List.forall_mem_singleton.mpr (by decide)⟩⟩
    · show (if c = 'İ' then _ else _) ≠ _ ∧ ∀ d ∈ (if c = 'İ' then _ else _), _
      rw [if_neg dotted]
      refine ⟨List.cons_ne_nil _ _,fun d is => ?_⟩
      rw [List.mem_singleton.mp is,NoteMergeLaws.lower_white]
      exact solid

theorem tea_short : Short "tea" := by
  have solid : "tea".toList.all (fun c => !isWhitespace c) = true := by decide
  refine ⟨by decide,by decide,fun c inside => ?_⟩
  simpa using List.all_eq_true.mp solid c inside

def teaBody : String := "Buy Tea. İ"

theorem tea_shown : Shown dottedTables teaBody ["tea"] := by
  have found : findText "tea".toList (lowered dottedTables teaBody) = some 4 := by decide
  have least : IsLeast (offsets dottedTables teaBody ["tea"]) 4 := by
    refine ⟨⟨"tea",List.mem_singleton_self _,by decide,found⟩,?_⟩
    rintro q ⟨term,listed,_,is⟩
    rw [List.mem_singleton.mp listed,found] at is
    exact Nat.le_of_eq (Option.some.inj is)
  obtain ⟨shown,_,aligned⟩ := snippet_shows_iff dotted_unicode teaBody ["tea"]
  refine shown.mpr (fun term early => .inl (aligned term early ?_))
  obtain rfl := List.mem_singleton.mp early.listed
  have free : "tea".toList.all (fun c => c != 'σ' && c != 'ς') = true := by decide
  refine ⟨fun c inside => ?_,"Buy ".toList,"Tea. İ".toList,by decide,least,found,by decide⟩
  simpa using List.all_eq_true.mp free c inside

-- Forty dotted capitals before the word: the byte offset is past the body's end.
def driftedBody : String := String.ofList (List.replicate 40 'İ' ++ " tea".toList)

theorem drifted_match_hidden : extractSnippet dottedTables.toLowercase driftedBody ["tea"] = String.ofList (List.replicate 40 'İ') ++ "..." ∧
    ¬Shown dottedTables driftedBody ["tea"] := by
  have snippet : extractSnippet dottedTables.toLowercase driftedBody ["tea"] = String.ofList (List.replicate 40 'İ') ++ "..." := by decide +kernel
  refine ⟨snippet,fun shown => ?_⟩
  have found : findText "tea".toList (lowered dottedTables driftedBody) = some 121 := by decide +kernel
  have early : EarliestShort dottedTables driftedBody ["tea"] "tea" := by
    refine ⟨List.mem_singleton_self _,tea_short,121,found,?_⟩
    intro other listed _ q is
    rw [List.mem_singleton.mp listed,found] at is
    exact Nat.le_of_eq (Option.some.inj is)
  have seen := shown "tea" early
  rw [snippet] at seen
  exact absurd seen (by decide +kernel)

end ZkNote.SnippetMatches
