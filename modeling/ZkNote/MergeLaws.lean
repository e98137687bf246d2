import ZkNote.CanonicalText
import ZkNote.SegmentMerge

namespace ZkNote.MergeLaws
open Alignments LineMatching SegmentMerge PlaintextNotes CanonicalText Diff3

variable {base mine theirs text : String}

-- The path of anchors and segments, without the three shortcuts in front of it.
def generalMerge (base mine theirs : String) : Diff3Result :=
  let baseLines := linesOf base
  let localLines := linesOf mine
  let remoteLines := linesOf theirs
  let merged := mergeChunks conflictBlock baseLines localLines remoteLines 0 0 0 (commonAnchors lcsMatchedPairs baseLines localLines remoteLines)
  ⟨String.intercalate "\n" merged.1,merged.2.isEmpty,merged.2⟩

theorem merge_paths (base mine theirs : String) : diff3Merge base mine theirs =
    if mine = theirs then ⟨mine,true,[]⟩ else if theirs = base then ⟨mine,true,[]⟩ else if mine = base then ⟨theirs,true,[]⟩
    else generalMerge base mine theirs := rfl

def splitOf (base mine theirs : List String) : Splitting := splitAt base mine theirs 0 0 0 (anchorsOf base mine theirs)

theorem split_sides (base mine theirs : List String) : (splitOf base mine theirs).whole (·.base) = base ∧
    (splitOf base mine theirs).whole (·.mine) = mine ∧ (splitOf base mine theirs).whole (·.theirs) = theirs := by
  have anchored := anchors_anchored base mine theirs
  exact ⟨(split_base anchored).trans List.drop_zero,(split_mine anchored).trans List.drop_zero,(split_theirs anchored).trans List.drop_zero⟩

theorem general_split (base mine theirs : String) : generalMerge base mine theirs =
    ⟨String.intercalate "\n" ((splitOf (linesOf base) (linesOf mine) (linesOf theirs)).whole Segment.merged),
      ((splitOf (linesOf base) (linesOf mine) (linesOf theirs)).conflicts 0).isEmpty,
      (splitOf (linesOf base) (linesOf mine) (linesOf theirs)).conflicts 0⟩ := by
  have chunks := chunks_split (anchors_anchored (linesOf base) (linesOf mine) (linesOf theirs))
  unfold anchorsOf at chunks
  rw [generalMerge,splitOf,anchorsOf,chunks]

theorem general_clean (base mine theirs : String) :
    (generalMerge base mine theirs).isClean = true ↔ ∀ s ∈ (splitOf (linesOf base) (linesOf mine) (linesOf theirs)).segments, ¬s.Diverges := by
  rw [general_split,← conflicts_iff _ 0]
  dsimp only
  exact List.isEmpty_iff

-- The general path where every segment takes one and the same side.
theorem general_side (side : Segment → List String)
    (takes : ∀ s ∈ (splitOf (linesOf base) (linesOf mine) (linesOf theirs)).segments, s.merged = side s ∧ ¬s.Diverges) :
    generalMerge base mine theirs =
      ⟨String.intercalate "\n" ((splitOf (linesOf base) (linesOf mine) (linesOf theirs)).whole side),true,[]⟩ := by
  have none := (conflicts_iff (splitOf (linesOf base) (linesOf mine) (linesOf theirs)) 0).mpr (fun s member => (takes s member).2)
  rw [general_split,none,whole_congr (fun s member => (takes s member).1)]
  rfl

-- Texts of Unix lines come apart and together again.
theorem join_lines (plain : '\r' ∉ text.toList) : String.intercalate "\n" (linesOf text) = text := by
  unfold linesOf
  dsimp only
  rw [unix_of_plain plain]
  split
  · rename_i empty
    rw [empty]
    rfl
  · apply String.toList_inj.mp
    rw [String.toList_intercalate,List.map_map]
    have back : (String.toList ∘ String.ofList) = id := by
      funext chars
      exact String.toList_ofList
    rw [back,List.map_id]
    exact List.intercalate_splitOn '\n'

theorem mem_intercalate {c : Char} {lines : List (List Char)} (inside : c ∈ ['\n'].intercalate lines) : c = '\n' ∨ ∃ line ∈ lines, c ∈ line := by
  induction lines with
  | nil => simp at inside
  | cons first rest ih =>
      cases rest with
      | nil =>
          rw [List.intercalate_singleton] at inside
          exact .inr ⟨first,List.mem_cons_self,inside⟩
      | cons second rest =>
          rw [List.intercalate_cons_cons,List.append_assoc,List.mem_append,List.mem_append,List.mem_singleton] at inside
          rcases inside with here | newline | later
          · exact .inr ⟨first,List.mem_cons_self,here⟩
          · exact .inl newline
          · rcases ih later with newline | ⟨line,member,there⟩
            · exact .inl newline
            · exact .inr ⟨line,List.mem_cons_of_mem _ member,there⟩

-- Lines that a text can be split into.
def PlainLines (lines : List String) : Prop := ∀ line ∈ lines, '\n' ∉ line.toList ∧ '\r' ∉ line.toList

theorem join_plain {lines : List String} (plain : PlainLines lines) : '\r' ∉ (String.intercalate "\n" lines).toList := by
  intro inside
  rw [String.toList_intercalate] at inside
  rcases mem_intercalate inside with same | ⟨chars,member,there⟩
  · cases same
  · obtain ⟨line,held,rfl⟩ := List.mem_map.mp member
    exact (plain line held).2 there

theorem lines_join {lines : List String} (plain : PlainLines lines) (some_ : String.intercalate "\n" lines ≠ "") :
    linesOf (String.intercalate "\n" lines) = lines := by
  unfold linesOf
  dsimp only
  rw [unix_of_plain (join_plain plain),if_neg some_,String.toList_intercalate]
  have held : lines.map String.toList ≠ [] := by
    intro none
    rw [List.map_eq_nil_iff.mp none] at some_
    exact some_ rfl
  have cut : (['\n'].intercalate (lines.map String.toList)).splitOn '\n' = lines.map String.toList :=
    List.splitOn_intercalate '\n' (fun chars member => by
      obtain ⟨line,inside,rfl⟩ := List.mem_map.mp member
      exact (plain line inside).1) held
  show ((['\n'].intercalate (lines.map String.toList)).splitOn '\n').map String.ofList = lines
  rw [cut,List.map_map]
  refine (List.map_congr_left (fun line _ => ?_)).trans (List.map_id _)
  exact String.ofList_toList

-- Sides that are the base, or each other, are so in every segment.
theorem anchors_rising_pairs (place : Nat × Nat × Nat → Nat × Nat) (base mine theirs : List String)
    (keeps : ∀ a c, Later a c → Before (place a) (place c)) : ((anchorsOf base mine theirs).map place).Pairwise Before :=
  List.pairwise_map.mpr ((anchors_rising base mine theirs).imp (fun later => keeps _ _ later))

section
variable {b l r : List String} {s : Segment}

theorem self_place {i j : Nat} (member : (i,j) ∈ lcsMatchedPairs b b) : i = j := by
  rw [matching_self] at member
  obtain ⟨k,_,is⟩ := List.mem_map.mp member
  obtain ⟨rfl,rfl⟩ := Prod.mk.inj is
  rfl

theorem theirs_kept (member : s ∈ (splitOf b l b).segments) : s.base = s.theirs := by
  have inside := List.mem_map_of_mem (f := fun s : Segment => (s.base,s.theirs)) member
  rw [splitOf,segments_theirs] at inside
  refine stretches_level rfl (anchors_rising_pairs (fun a => (a.1,a.2.2)) b l b (fun _ _ later => ⟨later.1,later.2.2⟩)) ?_ _ inside
  rintro _ there
  obtain ⟨a,held,rfl⟩ := List.mem_map.mp there
  exact ⟨Nat.zero_le _,self_place (mem_anchorsOf.mp held).2⟩

theorem mine_kept (member : s ∈ (splitOf b b r).segments) : s.base = s.mine := by
  have inside := List.mem_map_of_mem (f := fun s : Segment => (s.base,s.mine)) member
  rw [splitOf,segments_mine] at inside
  refine stretches_level rfl (anchors_rising_pairs (fun a => (a.1,a.2.1)) b b r (fun _ _ later => ⟨later.1,later.2.1⟩)) ?_ _ inside
  rintro _ there
  obtain ⟨a,held,rfl⟩ := List.mem_map.mp there
  exact ⟨Nat.zero_le _,self_place (mem_anchorsOf.mp held).1⟩

theorem sides_alike (member : s ∈ (splitOf b l l).segments) : s.mine = s.theirs := by
  have inside := List.mem_map_of_mem (f := fun s : Segment => (s.mine,s.theirs)) member
  rw [splitOf,segments_sides] at inside
  refine stretches_level rfl (anchors_rising_pairs (fun a => a.2) b l l (fun _ _ later => ⟨later.2.1,later.2.2⟩)) ?_ _ inside
  rintro _ there
  obtain ⟨a,held,rfl⟩ := List.mem_map.mp there
  obtain ⟨one,two⟩ := mem_anchorsOf.mp held
  exact ⟨Nat.zero_le _,congrArg Prod.snd (rising_first (matching_aligned b l).rising one two rfl)⟩

end

theorem merged_theirs_kept {s : Segment} (same : s.base = s.theirs) : s.merged = s.mine ∧ ¬s.Diverges :=
  ⟨if_pos same.symm,fun diverges => diverges.1 same.symm⟩

theorem merged_mine_kept {s : Segment} (same : s.base = s.mine) : s.merged = s.theirs ∧ ¬s.Diverges := by
  refine ⟨?_,fun diverges => diverges.2.1 same.symm⟩
  unfold Segment.merged
  split
  · rename_i kept
    rw [kept]
    exact same.symm
  · exact if_pos same.symm

theorem merged_alike {s : Segment} (same : s.mine = s.theirs) : s.merged = s.mine ∧ ¬s.Diverges := by
  refine ⟨?_,fun diverges => diverges.2.2 same⟩
  unfold Segment.merged
  split
  · rfl
  · split
    · exact same.symm
    · rfl

section
variable (plainMine : '\r' ∉ mine.toList) (plainTheirs : '\r' ∉ theirs.toList)
include plainMine plainTheirs

theorem general_shortcut (base : String) : (mine = theirs → generalMerge base mine theirs = ⟨mine,true,[]⟩) ∧
    (theirs = base → generalMerge base mine theirs = ⟨mine,true,[]⟩) ∧ (mine = base → generalMerge base mine theirs = ⟨theirs,true,[]⟩) := by
  obtain ⟨_,mineWhole,theirsWhole⟩ := split_sides (linesOf base) (linesOf mine) (linesOf theirs)
  refine ⟨fun same => ?_,fun same => ?_,fun same => ?_⟩
  · rw [general_side (·.mine) (fun s member => merged_alike (sides_alike (by rwa [← same] at member))),mineWhole,join_lines plainMine]
  · rw [general_side (·.mine) (fun s member => merged_theirs_kept (theirs_kept (by rwa [← same] at member))),mineWhole,join_lines plainMine]
  · rw [general_side (·.theirs) (fun s member => merged_mine_kept (mine_kept (by rwa [← same] at member))),theirsWhole,join_lines plainTheirs]

-- On such texts the shortcuts only save work.
theorem merge_general (base : String) : diff3Merge base mine theirs = generalMerge base mine theirs := by
  obtain ⟨alike,keptTheirs,keptMine⟩ := general_shortcut plainMine plainTheirs base
  rw [merge_paths]
  split
  · rename_i same
    exact (alike same).symm
  · split
    · rename_i same
      exact (keptTheirs same).symm
    · split
      · rename_i same
        exact (keptMine same).symm
      · rfl

end

theorem fast_paths_agree (plainMine : '\r' ∉ mine.toList) (plainTheirs : '\r' ∉ theirs.toList)
    (fast : mine = theirs ∨ theirs = base ∨ mine = base) :
    (generalMerge base mine theirs).mergedText = (diff3Merge base mine theirs).mergedText ∧
    (generalMerge base mine theirs).isClean = true ∧ (diff3Merge base mine theirs).isClean = true ∧
    (generalMerge base mine theirs).conflicts = [] ∧ (diff3Merge base mine theirs).conflicts = [] := by
  obtain ⟨alike,keptTheirs,keptMine⟩ := general_shortcut plainMine plainTheirs base
  rw [merge_general plainMine plainTheirs base]
  rcases fast with same | same | same
  · rw [alike same]
    exact ⟨rfl,rfl,rfl,rfl,rfl⟩
  · rw [keptTheirs same]
    exact ⟨rfl,rfl,rfl,rfl,rfl⟩
  · rw [keptMine same]
    exact ⟨rfl,rfl,rfl,rfl,rfl⟩

theorem shortcuts_on_repeats : (generalMerge "a\na" "a\na\na" "a\na\na").mergedText = (diff3Merge "a\na" "a\na\na" "a\na\na").mergedText ∧
    (generalMerge "a\na" "a\na\na" "a\na\na").isClean = true := by
  obtain ⟨text,clean,_⟩ := @fast_paths_agree "a\na" "a\na\na" "a\na\na" (by decide +kernel) (by decide +kernel) (.inl rfl)
  exact ⟨text,clean⟩

theorem merged_by_segments (plainMine : '\r' ∉ mine.toList) (plainTheirs : '\r' ∉ theirs.toList) :
    ∃ split : Splitting,
      (split.whole (·.base) = linesOf base ∧ split.whole (·.mine) = linesOf mine ∧ split.whole (·.theirs) = linesOf theirs) ∧
      (diff3Merge base mine theirs).mergedText = String.intercalate "\n" (split.whole Segment.merged) ∧
      (diff3Merge base mine theirs).conflicts = split.conflicts 0 ∧
      ((diff3Merge base mine theirs).isClean = true ↔ ∀ s ∈ split.segments, ¬s.Diverges) ∧
      (∀ b l r, (b,l,r) ∈ split.anchors 0 0 0 ↔
        (b,l) ∈ lcsMatchedPairs (linesOf base) (linesOf mine) ∧ (b,r) ∈ lcsMatchedPairs (linesOf base) (linesOf theirs)) ∧
      (∀ k line, (linesOf mine)[k]? = some line → (∀ b, (b,k) ∉ lcsMatchedPairs (linesOf base) (linesOf mine)) →
        line ∈ split.whole Segment.merged) ∧
      (∀ k line, (linesOf theirs)[k]? = some line → (∀ b, (b,k) ∉ lcsMatchedPairs (linesOf base) (linesOf theirs)) →
        line ∈ split.whole Segment.merged) := by
  have anchored := anchors_anchored (linesOf base) (linesOf mine) (linesOf theirs)
  refine ⟨splitOf (linesOf base) (linesOf mine) (linesOf theirs),split_sides _ _ _,?_,?_,?_,?_,?_,?_⟩
  · rw [merge_general plainMine plainTheirs,general_split]
  · rw [merge_general plainMine plainTheirs,general_split]
  · rw [merge_general plainMine plainTheirs]
    exact general_clean base mine theirs
  · intro b l r
    rw [splitOf,split_anchors anchored]
    exact mem_anchorsOf
  · intro k line held unmatched
    exact added_mine held unmatched
  · intro k line held unmatched
    exact added_theirs held unmatched

theorem divergent_head : (diff3Merge "a\nb" "x\nb" "y\nb").isClean = false ∧ ∃ split : Splitting,
    split.whole (·.base) = linesOf "a\nb" ∧ (diff3Merge "a\nb" "x\nb" "y\nb").conflicts = split.conflicts 0 := by
  obtain ⟨split,⟨base,_,_⟩,_,conflicts,_⟩ := @merged_by_segments "a\nb" "x\nb" "y\nb" (by decide +kernel) (by decide +kernel)
  exact ⟨by decide +kernel,split,base,conflicts⟩

-- The same divergence seen from the other side.
def exchangeSides (c : BodyConflict) : BodyConflict := {c with localLines := c.remoteLines,remoteLines := c.localLines}

def exchangePlace (a : Nat × Nat × Nat) : Nat × Nat × Nat := (a.1,a.2.2,a.2.1)

def exchanged : Splitting → Splitting
  | .last s => .last ⟨s.base,s.theirs,s.mine⟩
  | .next s anchor rest => .next ⟨s.base,s.theirs,s.mine⟩ anchor (exchanged rest)

theorem diverges_exchanged (s : Segment) : Segment.Diverges ⟨s.base,s.theirs,s.mine⟩ ↔ s.Diverges :=
  ⟨fun ⟨one,two,apart⟩ => ⟨two,one,Ne.symm apart⟩,fun ⟨one,two,apart⟩ => ⟨two,one,Ne.symm apart⟩⟩

theorem conflict_exchanged (s : Segment) (before : Nat) :
    Segment.conflict before ⟨s.base,s.theirs,s.mine⟩ = (s.conflict before).map exchangeSides := by
  unfold Segment.conflict
  by_cases diverges : s.Diverges
  · rw [if_pos diverges,if_pos ((diverges_exchanged s).mpr diverges)]
    rfl
  · rw [if_neg diverges,if_neg (fun other => diverges ((diverges_exchanged s).mp other))]
    rfl

theorem merged_exchanged {s : Segment} (agrees : ¬s.Diverges) : Segment.merged ⟨s.base,s.theirs,s.mine⟩ = s.merged := by
  unfold Segment.merged
  dsimp only
  by_cases left : s.mine = s.base
  · rw [if_pos left]
    by_cases right : s.theirs = s.base
    · rw [if_pos right]
      exact right.trans left.symm
    · rw [if_neg right,if_pos left]
  · rw [if_neg left]
    by_cases right : s.theirs = s.base
    · rw [if_pos right,if_pos right]
    · have alike : s.mine = s.theirs := not_not.mp (fun apart => agrees ⟨right,left,apart⟩)
      rw [if_neg right,if_pos alike.symm,if_neg right,if_neg left,if_pos alike]
      exact alike.symm

theorem conflicts_exchanged (split : Splitting) (before : Nat) : (exchanged split).conflicts before = (split.conflicts before).map exchangeSides := by
  induction split generalizing before with
  | last s => exact conflict_exchanged s before
  | next s anchor rest ih =>
      rw [exchanged,Splitting.conflicts,Splitting.conflicts,ih,conflict_exchanged,List.map_append]

theorem whole_exchanged {split : Splitting} (agrees : ∀ s ∈ split.segments, ¬s.Diverges) :
    (exchanged split).whole Segment.merged = split.whole Segment.merged := by
  induction split with
  | last s => exact merged_exchanged (agrees s (List.mem_singleton.mpr rfl))
  | next s anchor rest ih =>
      rw [exchanged,Splitting.whole,Splitting.whole,ih (fun t later => agrees t (List.mem_cons_of_mem _ later)),
        merged_exchanged (agrees s List.mem_cons_self)]

theorem splitAt_exchanged (b l r : List String) (prevB prevL prevR : Nat) (anchors : List (Nat × Nat × Nat)) :
    splitAt b r l prevB prevR prevL (anchors.map exchangePlace) = exchanged (splitAt b l r prevB prevL prevR anchors) := by
  induction anchors generalizing prevB prevL prevR with
  | nil => rfl
  | cons anchor rest ih => exact congrArg (Splitting.next _ _) (ih _ _ _)

-- Each side is aligned with the base on its own, so the anchors do not depend on
-- which of the alignments is gone through and which is looked up.
theorem anchors_exchanged (b l r : List String) : anchorsOf b r l = (anchorsOf b l r).map exchangePlace := by
  have other : ((anchorsOf b l r).map exchangePlace).Pairwise Later :=
    List.pairwise_map.mpr ((anchors_rising b l r).imp (fun later => ⟨later.1,later.2.2,later.2.1⟩))
  have distinct : ∀ {list : List (Nat × Nat × Nat)}, list.Pairwise Later → list.Nodup :=
    fun rising => rising.imp (fun {a c} (later : Later a c) (same : a = c) => Nat.lt_irrefl c.1 (same ▸ later.1))
  have same : ∀ a, a ∈ anchorsOf b r l ↔ a ∈ (anchorsOf b l r).map exchangePlace := by
    rintro ⟨i,j,k⟩
    rw [mem_anchorsOf,List.mem_map]
    constructor
    · rintro ⟨one,two⟩
      exact ⟨(i,k,j),mem_anchorsOf.mpr ⟨two,one⟩,rfl⟩
    · rintro ⟨⟨i',k',j'⟩,member,is⟩
      cases is
      exact ⟨(mem_anchorsOf.mp member).2,(mem_anchorsOf.mp member).1⟩
  refine List.Perm.eq_of_pairwise ?_ (anchors_rising b r l) other
    ((List.perm_ext_iff_of_nodup (distinct (anchors_rising b r l)) (distinct other)).mpr same)
  intro a c _ _ one two
  exact absurd one.1 (Nat.not_lt.mpr (Nat.le_of_lt two.1))

theorem general_exchanged (base mine theirs : String) :
    (generalMerge base theirs mine).isClean = (generalMerge base mine theirs).isClean ∧
    ((generalMerge base mine theirs).isClean = true → (generalMerge base theirs mine).mergedText = (generalMerge base mine theirs).mergedText) ∧
    (generalMerge base theirs mine).conflicts = (generalMerge base mine theirs).conflicts.map exchangeSides := by
  have split : splitOf (linesOf base) (linesOf theirs) (linesOf mine) = exchanged (splitOf (linesOf base) (linesOf mine) (linesOf theirs)) := by
    rw [splitOf,splitOf,anchors_exchanged]
    exact splitAt_exchanged _ _ _ 0 0 0 _
  have conflicts := conflicts_exchanged (splitOf (linesOf base) (linesOf mine) (linesOf theirs)) 0
  refine ⟨?_,fun clean => ?_,?_⟩
  · rw [general_split,general_split,split]
    dsimp only
    rw [conflicts,List.isEmpty_map]
  · have agrees := (general_clean base mine theirs).mp clean
    rw [general_split,general_split,split]
    dsimp only
    rw [whole_exchanged agrees]
  · rw [general_split,general_split,split,conflicts]

-- A shortcut is taken on both sides or on neither.
theorem merge_sides (base mine theirs : String) :
    (∃ text, diff3Merge base mine theirs = ⟨text,true,[]⟩ ∧ diff3Merge base theirs mine = ⟨text,true,[]⟩) ∨
    diff3Merge base mine theirs = generalMerge base mine theirs ∧ diff3Merge base theirs mine = generalMerge base theirs mine := by
  by_cases alike : mine = theirs
  · subst alike
    have same : diff3Merge base mine mine = ⟨mine,true,[]⟩ := by rw [merge_paths,if_pos rfl]
    exact .inl ⟨mine,same,same⟩
  have unlike : ¬theirs = mine := Ne.symm alike
  by_cases right : theirs = base
  · have left : ¬mine = base := fun left => alike (left.trans right.symm)
    have one : diff3Merge base mine theirs = ⟨mine,true,[]⟩ := by rw [merge_paths,if_neg alike,if_pos right]
    have two : diff3Merge base theirs mine = ⟨mine,true,[]⟩ := by rw [merge_paths,if_neg unlike,if_neg left,if_pos right]
    exact .inl ⟨mine,one,two⟩
  by_cases left : mine = base
  · have one : diff3Merge base mine theirs = ⟨theirs,true,[]⟩ := by rw [merge_paths,if_neg alike,if_neg right,if_pos left]
    have two : diff3Merge base theirs mine = ⟨theirs,true,[]⟩ := by rw [merge_paths,if_neg unlike,if_pos left]
    exact .inl ⟨theirs,one,two⟩
  · have one : diff3Merge base mine theirs = generalMerge base mine theirs := by rw [merge_paths,if_neg alike,if_neg right,if_neg left]
    have two : diff3Merge base theirs mine = generalMerge base theirs mine := by rw [merge_paths,if_neg unlike,if_neg left,if_neg right]
    exact .inr ⟨one,two⟩

theorem verdict_exchanged (base mine theirs : String) : (diff3Merge base theirs mine).isClean = (diff3Merge base mine theirs).isClean := by
  rcases merge_sides base mine theirs with ⟨text,one,two⟩ | ⟨one,two⟩
  · rw [one,two]
  · rw [one,two]
    exact (general_exchanged base mine theirs).1

theorem text_exchanged (base mine theirs : String) (clean : (diff3Merge base mine theirs).isClean = true) :
    (diff3Merge base theirs mine).mergedText = (diff3Merge base mine theirs).mergedText := by
  rcases merge_sides base mine theirs with ⟨text,one,two⟩ | ⟨one,two⟩
  · rw [one,two]
  · rw [one] at clean
    rw [one,two]
    exact (general_exchanged base mine theirs).2.1 clean

theorem merge_symmetric (base mine theirs : String) :
    (diff3Merge base theirs mine).isClean = (diff3Merge base mine theirs).isClean ∧
    ((diff3Merge base mine theirs).isClean = true → (diff3Merge base theirs mine).mergedText = (diff3Merge base mine theirs).mergedText) ∧
    (diff3Merge base theirs mine).conflicts = (diff3Merge base mine theirs).conflicts.map exchangeSides := by
  refine ⟨verdict_exchanged base mine theirs,text_exchanged base mine theirs,?_⟩
  rcases merge_sides base mine theirs with ⟨text,one,two⟩ | ⟨one,two⟩
  · rw [one,two]
    rfl
  · rw [one,two]
    exact (general_exchanged base mine theirs).2.2

end ZkNote.MergeLaws
