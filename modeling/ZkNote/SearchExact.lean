import Mathlib.Data.String.Basic
import ZkNote.NoteMergeLaws
import ZkNote.SearchIndex
import ZkNote.TrimmedText

namespace ZkNote.SearchExact
open KeyedTable PlaintextNotes SessionIndex SearchIndex StdText

variable {lower : String → String} {entries : List IndexedNote} {ops : List IndexOp} {op : IndexOp} {note e : IndexedNote} {id query : String}

def entryOf : IndexOp → Option IndexedNote
  | .insert id note => some (indexed id note)
  | .insertRaw id title tags body updatedAt => some ⟨id,title,tags,body,updatedAt⟩
  | .remove _ => none
  | .clear => none

def Touches (id : String) : IndexOp → Prop
  | .insert other _ => other = id
  | .insertRaw other _ _ _ _ => other = id
  | .remove other => other = id
  | .clear => True

-- The entry some operation inserted, which no later one replaced or took away.
def LastInserted (ops : List IndexOp) (e : IndexedNote) : Prop :=
  ∃ before op after, ops = before ++ op :: after ∧ entryOf op = some e ∧ ∀ later ∈ after, ¬Touches e.id later

-- The session's index, which holds an id once by construction, as the list is kept.
def onTable (index : InMemorySearchIndex) : IndexOp → InMemorySearchIndex
  | .insert id note => index.insert id note
  | .insertRaw id title tags body updatedAt => (index.remove id).upsert ⟨id,title,tags,body,updatedAt⟩
  | .remove id => index.remove id
  | .clear => .empty

theorem erase_unique (unique : (entries.map (·.id)).Nodup) : SearchIndex.remove entries id = entries.filter (fun e => !decide (e.id = id)) := by
  induction entries with
  | nil => rfl
  | cons first rest ih =>
      rw [List.map_cons,List.nodup_cons] at unique
      obtain ⟨fresh,unique⟩ := unique
      rw [SearchIndex.remove]
      by_cases same : first.id = id
      · rw [List.eraseP_cons_of_pos (by simpa using same),List.filter_cons_of_neg (by simpa using same)]
        symm
        rw [List.filter_eq_self]
        intro other inside
        have apart : other.id ≠ id := by
          intro equal
          apply fresh
          rw [same,← equal]
          exact List.mem_map_of_mem inside
        simpa using apart
      · rw [List.eraseP_cons_of_neg (by simpa using same),List.filter_cons_of_pos (by simpa using same)]
        exact congrArg _ (ih unique)

theorem remove_rows (index : InMemorySearchIndex) (id : String) : SearchIndex.remove index.rows id = (index.remove id).rows :=
  erase_unique index.unique

theorem upsert_rows (index : InMemorySearchIndex) (entry : IndexedNote) :
    ((index.remove entry.id).upsert entry).rows = SearchIndex.remove index.rows entry.id ++ [entry] := by
  have absent : entry.id ∉ (index.remove entry.id).rows.map (·.id) := by
    rw [← find_none_iff,InMemorySearchIndex.find_remove,if_pos rfl]
  dsimp only [Table.upsert,place]
  rw [if_neg absent,remove_rows]

theorem apply_table (index : InMemorySearchIndex) (op : IndexOp) : op.apply index.rows = (onTable index op).rows := by
  cases op with
  | insert id note => exact (upsert_rows index (indexed id note)).symm
  | insertRaw id title tags body updatedAt => exact (upsert_rows index ⟨id,title,tags,body,updatedAt⟩).symm
  | remove id => exact remove_rows index id
  | clear => rfl

theorem run_table (ops : List IndexOp) : run ops = (ops.foldl onTable .empty).rows := by
  induction ops using List.reverseRecOn with
  | nil => rfl
  | append_singleton ops op ih =>
      rw [run] at ih
      rw [run,List.foldl_append,List.foldl_append,ih]
      exact apply_table _ op

theorem run_unique (ops : List IndexOp) : ((run ops).map (·.id)).Nodup := by
  rw [run_table]
  exact Table.unique _

theorem mem_remove (index : InMemorySearchIndex) : e ∈ (index.remove id).rows ↔ e ∈ index.rows ∧ e.id ≠ id := by
  rw [InMemorySearchIndex.remove,mem_delete,decide_eq_false_iff_not]

theorem mem_upsert_removed (index : InMemorySearchIndex) (entry : IndexedNote) :
    e ∈ ((index.remove entry.id).upsert entry).rows ↔ entry = e ∨ (e ∈ index.rows ∧ entry.id ≠ e.id) := by
  rw [mem_upsert,mem_remove]
  constructor
  · rintro (rfl | ⟨⟨inside,other⟩,_⟩)
    · exact .inl rfl
    · exact .inr ⟨inside,Ne.symm other⟩
  · rintro (rfl | ⟨inside,other⟩)
    · exact .inl rfl
    · exact .inr ⟨⟨inside,Ne.symm other⟩,Ne.symm other⟩

-- What one operation leaves: its own entry, and those it does not touch.
theorem mem_apply (index : InMemorySearchIndex) (op : IndexOp) :
    e ∈ (onTable index op).rows ↔ entryOf op = some e ∨ (e ∈ index.rows ∧ ¬Touches e.id op) := by
  cases op with
  | insert id note =>
      rw [entryOf,Option.some.injEq]
      exact mem_upsert_removed index (indexed id note)
  | insertRaw id title tags body updatedAt =>
      rw [entryOf,Option.some.injEq]
      exact mem_upsert_removed index ⟨id,title,tags,body,updatedAt⟩
  | remove id =>
      rw [onTable,mem_remove,entryOf,Touches]
      simp [eq_comm]
  | clear => simp [onTable,entryOf,Touches,Table.empty]

theorem last_snoc (ops : List IndexOp) (op : IndexOp) :
    LastInserted (ops ++ [op]) e ↔ entryOf op = some e ∨ (LastInserted ops e ∧ ¬Touches e.id op) := by
  constructor
  · rintro ⟨before,made,after,whole,entry,kept⟩
    cases after using List.reverseRecOn with
    | nil =>
        obtain ⟨_,last⟩ := List.append_inj' whole rfl
        obtain rfl : op = made := by simpa using last
        exact .inl entry
    | append_singleton after last =>
        rw [← List.cons_append,← List.append_assoc] at whole
        obtain ⟨rfl,ends⟩ := List.append_inj' whole rfl
        obtain rfl : op = last := by simpa using ends
        refine .inr ⟨⟨before,made,after,rfl,entry,?_⟩,?_⟩
        · exact fun later inside => kept later (List.mem_append_left _ inside)
        · exact kept op (List.mem_append_right _ (List.mem_singleton_self op))
  · rintro (entry | ⟨⟨before,made,after,rfl,entry,kept⟩,untouched⟩)
    · exact ⟨ops,op,[],rfl,entry,by simp⟩
    · refine ⟨before,made,after ++ [op],by simp,entry,?_⟩
      intro later inside
      rcases List.mem_append.mp inside with old | new
      · exact kept later old
      · rwa [List.mem_singleton.mp new]

theorem run_last (ops : List IndexOp) : e ∈ run ops ↔ LastInserted ops e := by
  rw [run_table]
  induction ops using List.reverseRecOn with
  | nil =>
      constructor
      · intro inside
        cases inside
      · rintro ⟨before,op,after,whole,_⟩
        exact absurd whole (by simp)
  | append_singleton ops op ih =>
      rw [List.foldl_append,List.foldl_cons,List.foldl_nil,mem_apply,last_snoc,ih]

theorem words_front {front text : List Char} (marked : ∀ c ∈ front, isWhitespace c) : splitWhitespace (front ++ text) = splitWhitespace text := by
  induction front with
  | nil => rfl
  | cons c rest ih =>
      obtain ⟨space,others⟩ := List.forall_mem_cons.mp marked
      rw [List.cons_append,splitWhitespace,List.splitOnP_cons_eq_if_modifyHead,if_pos space]
      exact ih others

theorem words_back {back : List Char} (text : List Char) (marked : ∀ c ∈ back, isWhitespace c) : splitWhitespace (text ++ back) = splitWhitespace text := by
  cases back with
  | nil => rw [List.append_nil]
  | cons c rest =>
      obtain ⟨space,others⟩ := List.forall_mem_cons.mp marked
      have none : splitWhitespace rest = [] := by
        rw [← List.append_nil rest,words_front others]
        rfl
      rw [splitWhitespace,List.splitOnP_append_cons text rest space,List.filter_append]
      exact (congrArg _ none).trans (List.append_nil _)

theorem trim_chars (text : String) : (trim text).toList = TrimmedText.trim isWhitespace text.toList := by
  rw [trim,trimBy,String.toList_ofList]
  rfl

theorem words_trim (text : String) : splitWhitespace (trim text).toList = splitWhitespace text.toList := by
  obtain ⟨front,back,whole,before,after⟩ := TrimmedText.trim_infix isWhitespace text.toList
  rw [trim_chars]
  conv_rhs => rw [whole]
  rw [words_back _ after,words_front before]

theorem word_first {c : Char} (rest : List Char) (solid : isWhitespace c = false) : splitWhitespace (c :: rest) ≠ [] := by
  rw [splitWhitespace,List.splitOnP_cons_eq_if_modifyHead,if_neg (by simp [solid])]
  cases pieces : rest.splitOnP isWhitespace with
  | nil => exact absurd pieces (List.splitOnP_ne_nil _ _)
  | cons first others => simp

-- A query is blank when it has no word.
theorem blank_iff (query : String) : trim query = "" ↔ splitWhitespace query.toList = [] := by
  rw [← words_trim]
  constructor
  · intro blank
    rw [blank]
    rfl
  · intro none
    cases chars : (trim query).toList with
    | nil => exact String.toList_inj.mp chars
    | cons c rest =>
        rw [chars] at none
        have bare := TrimmedText.bare_trim isWhitespace query.toList
        rw [← trim_chars,chars] at bare
        exact absurd none (word_first rest (bare c (.inl rfl)))

-- `word` occurs in the text, upper and lower case alike.
def Occurs (lower : String → String) (word : List Char) (text : String) : Prop :=
  (lower (String.ofList word)).toList <:+: (lower text).toList

def InTag (lower : String → String) (word : List Char) (note : IndexedNote) : Prop := ∃ tag ∈ note.tags, Occurs lower word tag

-- A word after `#` occurs in a tag, any other in the title, the body or a tag.
def HasWord (lower : String → String) (note : IndexedNote) (word : List Char) : Prop :=
  (∀ stripped, word = '#' :: stripped → InTag lower stripped note) ∧
    (word.head? ≠ some '#' → Occurs lower word note.title ∨ Occurs lower word note.body ∨ InTag lower word note)

def Matches (lower : String → String) (query : String) (note : IndexedNote) : Prop :=
  ∀ word ∈ splitWhitespace query.toList, HasWord lower note word

theorem contains_iff (text part : String) : contains text part = true ↔ part.toList <:+: text.toList := decide_eq_true_iff

theorem in_tags_iff (note : IndexedNote) (word : List Char) :
    (Lowered.of lower note).inTags (lower (String.ofList word)) = true ↔ InTag lower word note := by
  rw [Lowered.inTags,List.any_eq_true]
  constructor
  · rintro ⟨tag,inside,found⟩
    obtain ⟨whole,member,rfl⟩ := List.mem_map.mp inside
    refine ⟨whole,member,?_⟩
    rcases Bool.or_eq_true_iff.mp found with same | part
    · rw [Occurs,beq_iff_eq.mp same]
    · exact (contains_iff _ _).mp part
  · rintro ⟨tag,member,part⟩
    exact ⟨lower tag,List.mem_map_of_mem member,by rw [(contains_iff _ _).mpr part,Bool.or_true]⟩

theorem matches_term_iff (note : IndexedNote) (word : List Char) :
    (Lowered.of lower note).matchesTerm (searchTerm lower word) = true ↔ HasWord lower note word := by
  rw [HasWord]
  by_cases tagged : word.head? = some '#'
  · obtain ⟨stripped,rfl⟩ : ∃ stripped, word = '#' :: stripped := by
      cases word with
      | nil => cases tagged
      | cons c rest => exact ⟨rest,by rw [Option.some.inj tagged]⟩
    have tagOnly : (Lowered.of lower note).matchesTerm (searchTerm lower ('#' :: stripped)) =
        (Lowered.of lower note).inTags (lower (String.ofList stripped)) := rfl
    rw [tagOnly,in_tags_iff]
    simp
  · have term : searchTerm lower word = ⟨lower (String.ofList word),false⟩ := by
      unfold searchTerm
      split
      · exact absurd rfl tagged
      · rfl
    rw [term,Lowered.matchesTerm,if_neg Bool.false_ne_true,Bool.or_eq_true,Bool.or_eq_true,in_tags_iff,contains_iff,contains_iff,or_assoc]
    constructor
    · intro found
      refine ⟨?_,fun _ => found⟩
      rintro stripped rfl
      exact absurd rfl tagged
    · exact fun both => both.2 tagged

theorem matches_iff (query : String) (note : IndexedNote) :
    (searchTerms lower (trim query)).all (Lowered.of lower note).matchesTerm = true ↔ Matches lower query note := by
  rw [searchTerms,words_trim,List.all_map,List.all_eq_true]
  exact forall_congr' (fun word => imp_congr_right (fun _ => matches_term_iff note word))

section Scores

variable {build : SearchBuild} {x : Option UInt32} {a b score : UInt32} {n m k : Nat} {lowered : Lowered} {term : SearchTerm} {terms : List SearchTerm}

-- A score was reached; where overflow is checked it is at most `n`.
def Reached (build : SearchBuild) (n : Nat) (x : Option UInt32) : Prop :=
  ∃ score, x = some score ∧ (build.overflowChecks = true → score.toNat ≤ n)

-- Nothing up to `n` overflows.
def Room (build : SearchBuild) (n : Nat) : Prop := build.overflowChecks = true → n < 2^32

theorem Room.less (room : Room build n) (less : m ≤ n) : Room build m := fun checks => lt_of_le_of_lt less (room checks)

theorem Reached.more (reached : Reached build n x) (less : n ≤ m) : Reached build m x := by
  obtain ⟨score,is,small⟩ := reached
  exact ⟨score,is,fun checks => (small checks).trans less⟩

theorem reached_some (small : build.overflowChecks = true → score.toNat ≤ n) : Reached build n (some score) := ⟨score,rfl,small⟩

theorem Reached.bind {f : UInt32 → Option UInt32} (reached : Reached build n x)
    (next : ∀ score, (build.overflowChecks = true → score.toNat ≤ n) → Reached build m (f score)) : Reached build m (x >>= f) := by
  obtain ⟨score,rfl,small⟩ := reached
  exact next score small

theorem add_reached (small : build.overflowChecks = true → a.toNat ≤ n) (known : b.toNat ≤ k) (room : Room build (n+k)) :
    Reached build (n+k) (build.add a b) := by
  have fits : ¬(build.overflowChecks && decide (2^32 ≤ a.toNat+b.toNat)) = true := by
    rw [Bool.and_eq_true,decide_eq_true_iff]
    rintro ⟨checks,beyond⟩
    have bound := small checks
    have room := room checks
    omega
  refine ⟨a+b,by rw [SearchBuild.add,if_neg fits],?_⟩
  intro checks
  have bound := small checks
  have sum := UInt32.toNat_add a b
  have less := Nat.mod_le (a.toNat+b.toNat) (2^32)
  omega

theorem fold_reached {α : Type} {step : UInt32 → α → Option UInt32} (list : List α) (k : Nat)
    (each : ∀ member ∈ list, ∀ n score, (build.overflowChecks = true → score.toNat ≤ n) → Room build (n+k) → Reached build (n+k) (step score member))
    (small : build.overflowChecks = true → score.toNat ≤ n) (room : Room build (n+list.length*k)) :
    Reached build (n+list.length*k) (list.foldlM step score) := by
  induction list generalizing score n with
  | nil => exact reached_some (fun checks => (small checks).trans (by simp))
  | cons first rest ih =>
      have count : n+(first :: rest).length*k = n+k+rest.length*k := by
        rw [List.length_cons,Nat.succ_mul]
        omega
      rw [count] at room ⊢
      rw [List.foldlM_cons]
      apply (each first List.mem_cons_self n score small (room.less (Nat.le_add_right _ _))).bind
      intro score small
      exact ih (fun member inside => each member (List.mem_cons_of_mem _ inside)) small room

theorem count_from_bound (part : List Char) (skip : Nat) (text : List Char) : countFrom part skip text ≤ text.length := by
  induction text generalizing skip with
  | nil => cases skip <;> simp [countFrom]
  | cons c rest ih =>
      rw [List.length_cons]
      cases skip with
      | succ skip =>
          rw [countFrom]
          exact (ih skip).trans (Nat.le_succ _)
      | zero =>
          rw [countFrom]
          split
          · have later := ih (part.length-1)
            omega
          · exact (ih 0).trans (Nat.le_succ _)

theorem count_bound (text part : String) : countMatches text part ≤ text.toList.length+1 := by
  rw [countMatches]
  split
  · exact Nat.le_refl _
  · exact (count_from_bound part.toList 0 text.toList).trans (Nat.le_succ _)

theorem query_reached (fullQuery : String) (small : build.overflowChecks = true → score.toNat ≤ n) (room : Room build (n+240)) :
    Reached build (n+240) (lowered.queryScore build fullQuery score) := by
  have titled : Reached build (n+200) (lowered.titleBoost build fullQuery score) := by
    rw [Lowered.titleBoost]
    split
    · exact add_reached small (Nat.le_refl 200) (room.less (by simp))
    · split
      · exact (add_reached small (Nat.le_refl 100) (room.less (by simp))).more (by simp)
      · exact (reached_some small).more (Nat.le_add_right _ _)
  apply titled.bind
  intro score small
  split
  · exact add_reached (n := n+200) (k := 40) small (Nat.le_refl 40) room
  · exact (reached_some small).more (by simp)

theorem title_reached (text : String) (small : build.overflowChecks = true → score.toNat ≤ n) (room : Room build (n+60)) :
    Reached build (n+60) (lowered.titleScore build text score) := by
  rw [Lowered.titleScore]
  split
  · exact add_reached small (Nat.le_refl 60) room
  · split
    · exact (add_reached small (Nat.le_refl 40) (room.less (by simp))).more (by simp)
    · split
      · exact (add_reached small (Nat.le_refl 20) (room.less (by simp))).more (by simp)
      · exact (reached_some small).more (Nat.le_add_right _ _)

theorem tag_reached (text tag : String) (small : build.overflowChecks = true → score.toNat ≤ n) (room : Room build (n+50)) :
    Reached build (n+50) (tagScore build text score tag) := by
  rw [tagScore]
  split
  · exact add_reached small (Nat.le_refl 50) room
  · split
    · exact (add_reached small (Nat.le_refl 25) (room.less (by simp))).more (by simp)
    · exact (reached_some small).more (Nat.le_add_right _ _)

-- Twice the count of occurrences in the body does not overflow.
def Countable (build : SearchBuild) (body : String) : Prop := build.overflowChecks = true → body.toList.length+1 < 2^31

theorem mul_reached (small : build.overflowChecks = true → a.toNat*b.toNat < 2^32) : ∃ score, build.mul a b = some score := by
  refine ⟨a*b,?_⟩
  rw [SearchBuild.mul,if_neg]
  rw [Bool.and_eq_true,decide_eq_true_iff]
  rintro ⟨checks,beyond⟩
  exact absurd (small checks) (Nat.not_lt.mpr beyond)

theorem min_bound (a b : UInt32) : (if a ≤ b then a else b).toNat ≤ b.toNat := by
  split
  · rename_i less
    exact UInt32.le_iff_toNat_le.mp less
  · exact Nat.le_refl _

theorem body_reached (term : SearchTerm) (small : build.overflowChecks = true → score.toNat ≤ n) (countable : Countable build lowered.body)
    (room : Room build (n+30)) : Reached build (n+30) (lowered.bodyScore build term score) := by
  unfold Lowered.bodyScore
  split
  · exact (reached_some small).more (Nat.le_add_right _ _)
  · dsimp only
    split
    · have doubled : build.overflowChecks = true →
          (UInt32.ofNat (countMatches lowered.body term.text)).toNat*(2 : UInt32).toNat < 2^32 := by
        intro checks
        have count := count_bound lowered.body term.text
        have fits := countable checks
        have kept : (UInt32.ofNat (countMatches lowered.body term.text)).toNat ≤ countMatches lowered.body term.text := Nat.mod_le _ _
        rw [show (2 : UInt32).toNat = 2 from rfl]
        omega
      obtain ⟨twice,is⟩ := mul_reached doubled
      rw [is]
      have bonus : Reached build (10+20) (build.add 10 (if twice ≤ 20 then twice else 20)) :=
        add_reached (fun _ => Nat.le_refl 10) (min_bound twice 20) (room.less (by omega))
      obtain ⟨bonus,made,bound⟩ := bonus
      rw [Option.bind_eq_bind,Option.bind_some,made]
      by_cases checks : build.overflowChecks = true
      · exact add_reached small (bound checks) room
      · refine ⟨score+bonus,?_,fun is => absurd is checks⟩
        rw [Option.bind_some,SearchBuild.add,if_neg (by simp [checks])]
    · exact (reached_some small).more (Nat.le_add_right _ _)

theorem term_reached (term : SearchTerm) (tags : build.overflowChecks = true → lowered.tags.length ≤ maxTagsCount) (countable : Countable build lowered.body)
    (small : build.overflowChecks = true → score.toNat ≤ n) (room : Room build (n+5090)) :
    Reached build (n+5090) (lowered.termScore build score term) := by
  have tagged : ∀ score, (build.overflowChecks = true → score.toNat ≤ n+60) →
      Reached build (n+5060) (lowered.tags.foldlM (tagScore build term.text) score) := by
    intro score small
    by_cases checks : build.overflowChecks = true
    · have count : lowered.tags.length ≤ 100 := tags checks
      have total : n+60+lowered.tags.length*50 ≤ n+5060 := by omega
      apply (fold_reached lowered.tags 50 _ small (room.less (by omega))).more total
      intro tag inside n score small room
      exact tag_reached term.text tag small room
    · have unchecked : ∀ m, Room build m := fun _ is => absurd is checks
      obtain ⟨score,is,_⟩ := fold_reached (n := n+60) lowered.tags 50
        (fun tag _ n score small room => tag_reached term.text tag small room) small (unchecked _)
      exact ⟨score,is,fun is => absurd is checks⟩
  apply (title_reached term.text small (room.less (by omega))).bind
  intro score small
  apply (tagged score small).bind
  intro score small
  exact body_reached (n := n+5060) term small countable room

theorem score_reached (note : IndexedNote) (fullQuery : String) (terms : List SearchTerm)
    (tags : build.overflowChecks = true → note.tags.length ≤ maxTagsCount) (countable : Countable build (build.lower note.body))
    (room : Room build (250+terms.length*5090)) (all : terms.all (Lowered.of build.lower note).matchesTerm = true) :
    ∃ score, scoreNote build note fullQuery terms = some (some score) := by
  have reached : Reached build (250+terms.length*5090) ((Lowered.of build.lower note).queryScore build fullQuery 10 >>=
      fun score => terms.foldlM ((Lowered.of build.lower note).termScore build) score) := by
    apply (query_reached (n := 10) fullQuery (fun _ => by decide) (room.less (by omega))).bind
    intro score small
    apply fold_reached terms 5090 _ small room
    intro term inside n score small room
    exact term_reached term (fun checks => by rw [Lowered.of,List.length_map]; exact tags checks) countable small room
  obtain ⟨score,is,_⟩ := reached
  refine ⟨score,?_⟩
  simp only [scoreNote]
  rw [if_pos all]
  rw [Option.bind_eq_bind,Option.bind_eq_some_iff] at is
  obtain ⟨base,first,rest⟩ := is
  rw [first]
  simp only [Option.bind_eq_bind,Option.bind_some,rest]

end Scores

-- A result carries the fields of the entry it was made from.
def Shows (note : IndexedNote) (result : SearchResult) : Prop :=
  result.id = note.id ∧ result.title = note.title ∧ result.tags = note.tags ∧ result.updatedAt = note.updatedAt

theorem score_some {build : SearchBuild} {fullQuery : String} {terms : List SearchTerm} {scored : Option UInt32}
    (done : scoreNote build note fullQuery terms = some scored) :
    scored.isSome = terms.all (Lowered.of build.lower note).matchesTerm := by
  simp only [scoreNote] at done
  split at done
  · rename_i all
    rw [all]
    rw [Option.bind_eq_bind,Option.bind_eq_some_iff] at done
    obtain ⟨base,_,done⟩ := done
    rw [Option.bind_eq_some_iff] at done
    obtain ⟨score,_,is⟩ := done
    rw [← Option.some.inj is,Option.isSome_some]
  · rename_i some_
    rw [← Option.some.inj done,Option.isSome_none]
    exact (Bool.eq_false_iff.mpr some_).symm

theorem collected {build : SearchBuild} {fullQuery : String} {terms : List SearchTerm} {results : List SearchResult}
    (done : collectMatches build fullQuery terms entries = some results) :
    (entries.filter (fun note => terms.all (Lowered.of build.lower note).matchesTerm)).Forall₂ Shows results := by
  induction entries generalizing results with
  | nil =>
      rw [← Option.some.inj done]
      exact .nil
  | cons note rest ih =>
      rw [collectMatches,Option.bind_eq_bind,Option.bind_eq_some_iff] at done
      obtain ⟨scored,one,done⟩ := done
      rw [Option.bind_eq_bind,Option.bind_eq_some_iff] at done
      obtain ⟨others,later,is⟩ := done
      have matched := score_some one
      rw [← Option.some.inj is]
      cases scored with
      | some score =>
          rw [List.filter_cons_of_pos (p := fun note => terms.all (Lowered.of build.lower note).matchesTerm) matched.symm]
          exact .cons ⟨rfl,rfl,rfl,rfl⟩ (ih later)
      | none =>
          rw [List.filter_cons_of_neg (p := fun note => terms.all (Lowered.of build.lower note).matchesTerm)
            (by rw [← matched]; exact Bool.false_ne_true)]
          exact ih later

theorem collect_returns {build : SearchBuild} {fullQuery : String} {terms : List SearchTerm}
    (scores : ∀ note ∈ entries, ∃ scored, scoreNote build note fullQuery terms = some scored) :
    ∃ results, collectMatches build fullQuery terms entries = some results := by
  induction entries with
  | nil => exact ⟨[],rfl⟩
  | cons note rest ih =>
      obtain ⟨scored,one⟩ := scores note List.mem_cons_self
      obtain ⟨results,later⟩ := ih (fun other inside => scores other (List.mem_cons_of_mem _ inside))
      rw [collectMatches,one,later]
      exact ⟨_,rfl⟩

instance : Std.Total ranked where
  total a b := by
    rcases lt_trichotomy a.score.toNat b.score.toNat with less | same | more
    · exact .inr (.inl (UInt32.lt_iff_toNat_lt.mpr less))
    · have same := UInt32.toNat_inj.mp same
      rcases String.le_total a.updatedAt b.updatedAt with before | after
      · exact .inr (.inr ⟨same.symm,before⟩)
      · exact .inl (.inr ⟨same,after⟩)
    · exact .inl (.inl (UInt32.lt_iff_toNat_lt.mpr more))

instance : IsTrans SearchResult ranked where
  trans a b c := by
    rintro (less | ⟨same,before⟩) (less' | ⟨same',before'⟩)
    · exact .inl (UInt32.lt_trans less' less)
    · exact .inl (same' ▸ less)
    · exact .inl (same ▸ less')
    · exact .inr ⟨same.trans same',String.le_trans before' before⟩

-- Exactly one result for each entry that matches, by score and then by time.
structure Exact (lower : String → String) (entries : List IndexedNote) (query : String) (results : List SearchResult) : Prop where
  once : (results.map (·.id)).Nodup
  found : ∀ note ∈ entries, Matches lower query note → ∃ result ∈ results, Shows note result
  only : ∀ result ∈ results, ∃ note ∈ entries, Matches lower query note ∧ Shows note result
  ordered : results.Pairwise (fun a b => b.score < a.score ∨ a.score = b.score ∧ b.updatedAt ≤ a.updatedAt)

theorem forall₂_ids {notes : List IndexedNote} {results : List SearchResult} (shown : notes.Forall₂ Shows results) :
    results.map (·.id) = notes.map (·.id) := by
  induction shown with
  | nil => rfl
  | cons first _ ih => rw [List.map_cons,List.map_cons,ih,first.1]

theorem forall₂_each {notes : List IndexedNote} {results : List SearchResult} (shown : notes.Forall₂ Shows results) :
    (∀ note ∈ notes, ∃ result ∈ results, Shows note result) ∧ ∀ result ∈ results, ∃ note ∈ notes, Shows note result := by
  induction shown with
  | nil => exact ⟨by simp,by simp⟩
  | cons first _ ih =>
      constructor
      · intro note inside
        rcases List.mem_cons.mp inside with rfl | later
        · exact ⟨_,List.mem_cons_self,first⟩
        · obtain ⟨result,member,same⟩ := ih.1 note later
          exact ⟨result,List.mem_cons_of_mem _ member,same⟩
      · intro result inside
        rcases List.mem_cons.mp inside with rfl | later
        · exact ⟨_,List.mem_cons_self,first⟩
        · obtain ⟨note,member,same⟩ := ih.2 result later
          exact ⟨note,List.mem_cons_of_mem _ member,same⟩

theorem search_words {build : SearchBuild} (some_ : splitWhitespace query.toList ≠ []) :
    search build entries query =
      (collectMatches build (build.lower (trim query)) (searchTerms build.lower (trim query)) entries).map (·.insertionSort ranked) := by
  simp only [search]
  rw [if_neg (fun blank => some_ ((blank_iff query).mp blank)),if_neg]
  rw [searchTerms,words_trim,List.map_eq_nil_iff]
  exact some_

theorem returned_exact {build : SearchBuild} {results : List SearchResult} (unique : (entries.map (·.id)).Nodup)
    (some_ : splitWhitespace query.toList ≠ []) (done : search build entries query = some results) : Exact build.lower entries query results := by
  rw [search_words some_,Option.map_eq_some_iff] at done
  obtain ⟨matches_,collect,rfl⟩ := done
  have shown := collected collect
  have perm := List.perm_insertionSort ranked matches_
  refine ⟨?_,?_,?_,List.pairwise_insertionSort ranked matches_⟩
  · rw [(perm.map _).nodup_iff,forall₂_ids shown]
    exact unique.sublist (List.filter_sublist.map _)
  · intro note inside matched
    obtain ⟨result,member,same⟩ := (forall₂_each shown).1 note (List.mem_filter.mpr ⟨inside,(matches_iff query note).mpr matched⟩)
    exact ⟨result,perm.mem_iff.mpr member,same⟩
  · intro result member
    obtain ⟨note,inside,same⟩ := (forall₂_each shown).2 result (perm.mem_iff.mp member)
    obtain ⟨inside,matched⟩ := List.mem_filter.mp inside
    exact ⟨note,inside,(matches_iff query note).mp matched,same⟩

-- Lower-casing makes at most three characters of one.
def GrowsAtMostThreefold (lower : String → String) : Prop := ∀ text, (lower text).toList.length ≤ 3*text.toList.length

-- An entry filed from a valid note.
def ValidEntry (e : IndexedNote) : Prop := ∃ note : PlaintextNote, note.Valid ∧ e = indexed e.id note

theorem chars_bound (text : String) : text.toList.length ≤ text.utf8ByteSize := by
  have size := ByteOffsets.ofList_size text.toList
  rw [String.ofList_toList] at size
  rw [size]
  exact ByteOffsets.length_le_size text.toList

theorem valid_scored {build : SearchBuild} (grows : GrowsAtMostThreefold build.lower) (valid : ValidEntry note) (fullQuery : String)
    {terms : List SearchTerm} (few : terms.length < 2^16) : ∃ scored, scoreNote build note fullQuery terms = some scored := by
  obtain ⟨plain,valid,is⟩ := valid
  by_cases all : terms.all (Lowered.of build.lower note).matchesTerm = true
  · obtain ⟨score,done⟩ : ∃ score, scoreNote build note fullQuery terms = some (some score) :=
      score_reached note fullQuery terms (fun _ => by rw [is]; exact valid.tagCount)
      (fun _ => by
        have grown := grows note.body
        have chars := chars_bound note.body
        have limit : note.body.utf8ByteSize ≤ 10*1024*1024 := by rw [is]; exact valid.body
        omega) (fun _ => by omega) all
    exact ⟨some score,done⟩
  · refine ⟨none,?_⟩
    simp only [scoreNote]
    rw [if_neg all]

theorem wrapping_scored {build : SearchBuild} (wraps : build.overflowChecks = false) (note : IndexedNote) (fullQuery : String) (terms : List SearchTerm) :
    ∃ scored, scoreNote build note fullQuery terms = some scored := by
  have unchecked : build.overflowChecks ≠ true := by simp [wraps]
  by_cases all : terms.all (Lowered.of build.lower note).matchesTerm = true
  · obtain ⟨score,done⟩ : ∃ score, scoreNote build note fullQuery terms = some (some score) :=
      score_reached note fullQuery terms (fun checks => absurd checks unchecked) (fun checks => absurd checks unchecked)
        (fun checks => absurd checks unchecked) all
    exact ⟨some score,done⟩
  · refine ⟨none,?_⟩
    simp only [scoreNote]
    rw [if_neg all]

theorem search_returns {build : SearchBuild} (some_ : splitWhitespace query.toList ≠ [])
    (scores : ∀ note ∈ entries, ∀ fullQuery, ∃ scored, scoreNote build note fullQuery (searchTerms build.lower (trim query)) = some scored) :
    ∃ results, search build entries query = some results := by
  obtain ⟨results,collect⟩ := collect_returns (fun note inside => scores note inside (build.lower (trim query)))
  rw [search_words some_,collect]
  exact ⟨_,rfl⟩

theorem search_exact (lower : String → String) (isAlphanumeric : Char → Bool) (ops : List IndexOp) :
    (((run ops).map (·.id)).Nodup ∧ ∀ e, e ∈ run ops ↔ LastInserted ops e) ∧
    ∀ query,
      (splitWhitespace query.toList = [] → ∀ checks, search ⟨lower,isAlphanumeric,checks⟩ (run ops) query = some []) ∧
      (splitWhitespace query.toList ≠ [] →
        (∀ checks results, search ⟨lower,isAlphanumeric,checks⟩ (run ops) query = some results → Exact lower (run ops) query results) ∧
        (∃ results, search ⟨lower,isAlphanumeric,false⟩ (run ops) query = some results) ∧
        (GrowsAtMostThreefold lower → (splitWhitespace query.toList).length < 2^16 → (∀ e ∈ run ops, ValidEntry e) →
          ∃ results, search ⟨lower,isAlphanumeric,true⟩ (run ops) query = some results)) := by
  refine ⟨⟨run_unique ops,fun _ => run_last ops⟩,?_⟩
  intro query
  constructor
  · intro none checks
    simp only [search]
    rw [if_pos ((blank_iff query).mpr none)]
  · intro some_
    refine ⟨fun checks results done => returned_exact (run_unique ops) some_ done,?_,?_⟩
    · exact search_returns some_ (fun note _ fullQuery => wrapping_scored rfl note fullQuery _)
    · intro grows few valid
      apply search_returns some_
      intro note inside fullQuery
      apply valid_scored grows (valid note inside) fullQuery
      rw [searchTerms,List.length_map,words_trim]
      exact few

def isAsciiAlphanumeric (c : Char) : Bool := c.isAlphanum

def planEntry : PlaintextNote := ⟨1,"Plan","Buy tea.",["home"],"2026-01-02T03:04:05Z","2026-01-02T03:04:05Z",[]⟩
def listEntry : PlaintextNote := ⟨1,"Shopping List","Milk, TEA.",[],"2026-01-02T03:04:05Z","2026-01-03T03:04:05Z",[]⟩

def teaOps : List IndexOp := [.insert "n1" listEntry,.insert "n2" planEntry,.remove "n3",.insert "n1" listEntry]

theorem tea_found : ∃ results, search ⟨NoteMergeLaws.asciiLower,isAsciiAlphanumeric,true⟩ (run teaOps) "tEa" = some results ∧
    Exact NoteMergeLaws.asciiLower (run teaOps) "tEa" results := by
  have exact_ := (search_exact NoteMergeLaws.asciiLower isAsciiAlphanumeric teaOps).2 "tEa"
  have grows : GrowsAtMostThreefold NoteMergeLaws.asciiLower := by
    intro text
    rw [NoteMergeLaws.asciiLower,String.toList_ofList,List.length_map]
    omega
  have entries : run teaOps = [indexed "n2" planEntry,indexed "n1" listEntry] := by decide
  have valid : ∀ e ∈ run teaOps, ValidEntry e := by
    rw [entries]
    intro e inside
    rcases List.mem_pair.mp inside with rfl | rfl
    · exact ⟨planEntry,valid_iff.mp (by decide),rfl⟩
    · exact ⟨listEntry,valid_iff.mp (by decide),rfl⟩
  obtain ⟨exact_,_,returns⟩ := exact_.2 (by decide)
  obtain ⟨results,done⟩ := returns grows (by decide) valid
  exact ⟨results,done,exact_ true results done⟩

-- Every word of a blank query occurs in every note, and none comes back.
theorem blank_query_finds_none : search ⟨NoteMergeLaws.asciiLower,isAsciiAlphanumeric,true⟩ (run teaOps) "  " = some [] ∧
    ¬Exact NoteMergeLaws.asciiLower (run teaOps) "  " [] := by
  constructor
  · have blank : trim "  " = "" := by decide
    simp only [search]
    rw [if_pos blank]
  · intro exact_
    have matched : Matches NoteMergeLaws.asciiLower "  " (indexed "n2" planEntry) := by
      rw [Matches,show splitWhitespace "  ".toList = [] by decide]
      exact fun word inside => absurd inside List.not_mem_nil
    obtain ⟨result,inside,_⟩ := exact_.found _ (by decide) matched
    exact absurd inside List.not_mem_nil

end ZkNote.SearchExact
