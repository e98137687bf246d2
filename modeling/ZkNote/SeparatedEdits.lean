import ZkNote.MergeLaws

namespace ZkNote.SeparatedEdits
open LcsGrid Alignments LineMatching SegmentMerge PlaintextNotes Diff3 MergeLaws

-- Two splittings with an anchor line between them.
def append : Splitting → String → Splitting → Splitting
  | .last s,line,later => .next s line later
  | .next s anchor rest,line,later => .next s anchor (append rest line later)

theorem whole_append (side : Segment → List String) (one : Splitting) (line : String) (two : Splitting) :
    (append one line two).whole side = one.whole side ++ line :: two.whole side := by
  induction one with
  | last s => rfl
  | next s anchor rest ih => rw [append,Splitting.whole,Splitting.whole,ih,List.append_assoc,List.cons_append]

theorem segments_append (one : Splitting) (line : String) (two : Splitting) : (append one line two).segments = one.segments ++ two.segments := by
  induction one with
  | last s => rfl
  | next s anchor rest ih => rw [append,Splitting.segments,Splitting.segments,ih,List.cons_append]

theorem slice_take {β : Type} (list : List β) {start stop limit : Nat} (fits : stop ≤ limit) : slice (list.take limit) start stop = slice list start stop := by
  rw [slice,slice,List.take_take,Nat.min_eq_left fits]

-- An anchor cuts the splitting into one of what stands before it and one of the rest.
theorem splitAt_append {base mine theirs : List String} {b l r : Nat} (inside : b ≤ base.length ∧ l ≤ mine.length ∧ r ≤ theirs.length)
    (before after : List (Nat × Nat × Nat)) (earlier : ∀ a ∈ before, Later a (b,l,r)) (prevB prevL prevR : Nat) :
    splitAt base mine theirs prevB prevL prevR (before ++ (b,l,r) :: after) =
      append (splitAt (base.take b) (mine.take l) (theirs.take r) prevB prevL prevR before) (base[b]?.getD "")
        (splitAt base mine theirs (b+1) (l+1) (r+1) after) := by
  induction before generalizing prevB prevL prevR with
  | nil =>
      simp only [List.nil_append,splitAt,append,List.length_take,Nat.min_eq_left inside.1,Nat.min_eq_left inside.2.1,Nat.min_eq_left inside.2.2]
      rw [slice_take base (Nat.le_refl b),slice_take mine (Nat.le_refl l),slice_take theirs (Nat.le_refl r)]
  | cons a before ih =>
      obtain ⟨i,j,k⟩ := a
      obtain ⟨lessB,lessL,lessR⟩ := earlier _ List.mem_cons_self
      dsimp only at lessB lessL lessR
      rw [List.cons_append,splitAt,splitAt,append,ih (fun a there => earlier a (List.mem_cons_of_mem _ there)),slice_take base lessB.le,
        slice_take mine lessL.le,slice_take theirs lessR.le,List.getElem?_take_of_lt lessB]

section
variable {before before' after after' : List String} {x : String}

-- A line that neither front holds ends what two texts can share in front of it.
theorem prefix_short (differ : before ≠ before') (left : x ∉ before) (right : x ∉ before') :
    commonPrefix (before ++ x :: after) (before' ++ x :: after) ≤ before.length ∧
    commonPrefix (before ++ x :: after) (before' ++ x :: after) ≤ before'.length := by
  induction before generalizing before' with
  | nil =>
      cases before' with
      | nil => exact absurd rfl differ
      | cons y ys =>
          have apart : x ≠ y := fun same => right (same ▸ List.mem_cons_self)
          rw [List.nil_append,List.cons_append,commonPrefix,if_neg apart]
          exact ⟨Nat.zero_le _,Nat.zero_le _⟩
  | cons y ys ih =>
      cases before' with
      | nil =>
          have apart : y ≠ x := fun same => left (same ▸ List.mem_cons_self)
          rw [List.nil_append,List.cons_append,commonPrefix,if_neg apart]
          exact ⟨Nat.zero_le _,Nat.zero_le _⟩
      | cons z zs =>
          rw [List.cons_append,List.cons_append,commonPrefix]
          split
          · rename_i same
            have later := ih (fun is => differ (by rw [same,is])) (fun inside => left (List.mem_cons_of_mem _ inside))
              (fun inside => right (List.mem_cons_of_mem _ inside))
            simp only [List.length_cons]
            omega
          · exact ⟨Nat.zero_le _,Nat.zero_le _⟩

-- What stands after the line is matched one to one, however the fronts differ.
theorem after_matched (left : x ∉ before) (right : x ∉ before') {t : Nat} (low : t ≤ after.length) :
    (before.length+t,before'.length+t) ∈ lcsMatchedPairs (before ++ x :: after) (before' ++ x :: after) := by
  by_cases differ : before = before'
  · subst differ
    rw [matching_self,List.mem_map]
    refine ⟨before.length+t,List.mem_range.mpr ?_,rfl⟩
    rw [List.length_append,List.length_cons]
    omega
  · obtain ⟨short,short'⟩ := @prefix_short before before' after x differ left right
    generalize start : commonPrefix (before ++ x :: after) (before' ++ x :: after) = p at short short'
    have long : after.length+1 ≤ commonSuffix (before ++ x :: after) (before' ++ x :: after) := by
      unfold commonSuffix
      rw [start,List.drop_append_of_le_length short,List.drop_append_of_le_length short',List.reverse_append,List.reverse_append,prefix_append,
        List.length_reverse,List.length_cons]
      exact Nat.le_add_right _ _
    have fits := trimmed_le (before ++ x :: after) (before' ++ x :: after)
    have matched := matching_suffix (a := before ++ x :: after) (b := before' ++ x :: after)
      (k := commonSuffix (before ++ x :: after) (before' ++ x :: after)-(after.length+1)+t) (by omega)
    simp only [List.length_append,List.length_cons] at matched fits
    rw [show before.length+(after.length+1)-commonSuffix (before ++ x :: after) (before' ++ x :: after)+
        (commonSuffix (before ++ x :: after) (before' ++ x :: after)-(after.length+1)+t) = before.length+t by omega,
      show before'.length+(after.length+1)-commonSuffix (before ++ x :: after) (before' ++ x :: after)+
        (commonSuffix (before ++ x :: after) (before' ++ x :: after)-(after.length+1)+t) = before'.length+t by omega] at matched
    exact matched

theorem before_matched {i : Nat} (low : i ≤ before.length) : (i,i) ∈ lcsMatchedPairs (before ++ x :: after) (before ++ x :: after') := by
  refine matching_prefix ?_
  rw [prefix_append,commonPrefix,if_pos rfl]
  omega

end

section
variable {one one' two two' : List String} {x : String}

theorem front_kept {before : List (Nat × Nat × Nat)} {s : Segment} (rising : before.Pairwise Later)
    (members : ∀ a ∈ before, a ∈ anchorsOf (one ++ x :: two) (one' ++ x :: two) (one ++ x :: two') ∧ a.1 < one.length)
    (member : s ∈ (splitAt one one' one 0 0 0 before).segments) : s.base = s.theirs := by
  have inside := List.mem_map_of_mem (f := fun s : Segment => (s.base,s.theirs)) member
  rw [segments_theirs] at inside
  refine stretches_level rfl (List.pairwise_map.mpr (rising.imp (fun later => ⟨later.1,later.2.2⟩))) ?_ _ inside
  rintro _ there
  obtain ⟨a,held,rfl⟩ := List.mem_map.mp there
  obtain ⟨matched,low⟩ := members a held
  refine ⟨Nat.zero_le _,?_⟩
  exact congrArg Prod.snd (rising_first (matching_aligned _ _).rising (before_matched low.le) (mem_anchorsOf.mp matched).2 rfl)

theorem back_kept {after : List (Nat × Nat × Nat)} {s : Segment} (left : x ∉ one) (right : x ∉ one') (rising : after.Pairwise Later)
    (members : ∀ a ∈ after, a ∈ anchorsOf (one ++ x :: two) (one' ++ x :: two) (one ++ x :: two') ∧ one.length < a.1)
    (member : s ∈ (splitAt (one ++ x :: two) (one' ++ x :: two) (one ++ x :: two') (one.length+1) (one'.length+1) (one.length+1) after).segments) :
    s.base = s.mine := by
  have inside := List.mem_map_of_mem (f := fun s : Segment => (s.base,s.mine)) member
  rw [segments_mine] at inside
  refine stretches_level ?_ (List.pairwise_map.mpr (rising.imp (fun later => ⟨later.1,later.2.1⟩))) ?_ _ inside
  · rw [← List.drop_drop,← List.drop_drop,List.drop_left,List.drop_left]
  · rintro _ there
    obtain ⟨a,held,rfl⟩ := List.mem_map.mp there
    obtain ⟨matched,high⟩ := members a held
    obtain ⟨here,_⟩ := mem_anchorsOf.mp matched
    have bound := ((matching_aligned _ _).inside here).1
    rw [List.length_append,List.length_cons] at bound
    dsimp only at bound high ⊢
    have level := @after_matched one one' two x left right (a.1-one.length) (by omega)
    rw [Nat.add_sub_cancel' high.le] at level
    have same : one'.length+(a.1-one.length) = a.2.1 := congrArg Prod.snd (rising_first (matching_aligned _ _).rising level here rfl)
    show one.length+1 ≤ a.1 ∧ a.1+(one'.length+1) = a.2.1+(one.length+1)
    omega

theorem separated_lines (left : x ∉ one) (right : x ∉ one') :
    (splitOf (one ++ x :: two) (one' ++ x :: two) (one ++ x :: two')).whole Segment.merged = one' ++ x :: two' ∧
    ∀ s ∈ (splitOf (one ++ x :: two) (one' ++ x :: two) (one ++ x :: two')).segments, ¬s.Diverges := by
  have middle : (one.length,one'.length,one.length) ∈ anchorsOf (one ++ x :: two) (one' ++ x :: two) (one ++ x :: two') :=
    mem_anchorsOf.mpr ⟨after_matched left right (Nat.zero_le _),before_matched (Nat.le_refl _)⟩
  have rising := anchors_rising (one ++ x :: two) (one' ++ x :: two) (one ++ x :: two')
  have members : ∀ a ∈ anchorsOf (one ++ x :: two) (one' ++ x :: two) (one ++ x :: two'),
      a ∈ anchorsOf (one ++ x :: two) (one' ++ x :: two) (one ++ x :: two') := fun _ inside => inside
  obtain ⟨before,after,cut⟩ := List.append_of_mem middle
  rw [cut,List.pairwise_append] at rising
  nth_rewrite 1 [cut] at members
  obtain ⟨front,back,apart⟩ := rising
  obtain ⟨least,back⟩ := List.pairwise_cons.mp back
  have earlier : ∀ a ∈ before, Later a (one.length,one'.length,one.length) := fun a inside => apart a inside _ List.mem_cons_self
  have frontMembers := fun a (inside : a ∈ before) => members a (List.mem_append_left _ inside)
  have backMembers := fun a (inside : a ∈ after) => members a (List.mem_append_right _ (List.mem_cons_of_mem _ inside))
  have frontAnchored : Anchored one one' one 0 0 0 before := by
    refine anchored_rising front ⟨Nat.zero_le _,Nat.zero_le _,Nat.zero_le _⟩ (fun _ _ => ⟨Nat.zero_le _,Nat.zero_le _,Nat.zero_le _⟩) ?_
    intro a inside
    obtain ⟨line,heldB,heldL,heldR⟩ := anchor_line (frontMembers a inside)
    obtain ⟨lessB,lessL,lessR⟩ := earlier a inside
    rw [List.getElem?_append_left lessB] at heldB
    rw [List.getElem?_append_left lessL] at heldL
    rw [List.getElem?_append_left lessR] at heldR
    exact ⟨line,heldB,heldL,heldR⟩
  have backAnchored : Anchored (one ++ x :: two) (one' ++ x :: two) (one ++ x :: two') (one.length+1) (one'.length+1) (one.length+1) after := by
    refine anchored_rising back ?_ least (fun a inside => anchor_line (backMembers a inside))
    simp only [List.length_append,List.length_cons]
    omega
  have split : splitOf (one ++ x :: two) (one' ++ x :: two) (one ++ x :: two') = append (splitAt one one' one 0 0 0 before) x
      (splitAt (one ++ x :: two) (one' ++ x :: two) (one ++ x :: two') (one.length+1) (one'.length+1) (one.length+1) after) := by
    rw [splitOf,cut,splitAt_append (by simp) before after earlier,List.take_left,List.take_left,List.take_left,List.getElem?_append_right (Nat.le_refl _),
      Nat.sub_self]
    rfl
  have frontTakes : ∀ s ∈ (splitAt one one' one 0 0 0 before).segments, s.merged = s.mine ∧ ¬s.Diverges := fun s member =>
    merged_theirs_kept (front_kept front (fun a inside => ⟨frontMembers a inside,(earlier a inside).1⟩) member)
  have backTakes : ∀ s ∈ (splitAt (one ++ x :: two) (one' ++ x :: two) (one ++ x :: two') (one.length+1) (one'.length+1) (one.length+1) after).segments,
      s.merged = s.theirs ∧ ¬s.Diverges := fun s member =>
    merged_mine_kept (back_kept left right back (fun a inside => ⟨backMembers a inside,(least a inside).1⟩) member)
  rw [split,whole_append,segments_append]
  constructor
  · rw [whole_congr (fun s member => (frontTakes s member).1),whole_congr (fun s member => (backTakes s member).1),split_mine frontAnchored,
      split_theirs backAnchored,List.drop_zero,← List.drop_drop,List.drop_left]
    rfl
  · intro s member
    rcases List.mem_append.mp member with inside | inside
    · exact (frontTakes s inside).2
    · exact (backTakes s inside).2

theorem separated_edits_merge (plain : PlainLines (one ++ one' ++ x :: (two ++ two'))) (left : x ∉ one) (right : x ∉ one')
    (someBase : String.intercalate "\n" (one ++ x :: two) ≠ "") (someMine : String.intercalate "\n" (one' ++ x :: two) ≠ "")
    (someTheirs : String.intercalate "\n" (one ++ x :: two') ≠ "") :
    (diff3Merge (String.intercalate "\n" (one ++ x :: two)) (String.intercalate "\n" (one' ++ x :: two))
      (String.intercalate "\n" (one ++ x :: two'))).isClean = true ∧
    (diff3Merge (String.intercalate "\n" (one ++ x :: two)) (String.intercalate "\n" (one' ++ x :: two))
      (String.intercalate "\n" (one ++ x :: two'))).mergedText = String.intercalate "\n" (one' ++ x :: two') := by
  have plainBase : PlainLines (one ++ x :: two) := fun line inside => plain line (by simp at inside ⊢; tauto)
  have plainMine : PlainLines (one' ++ x :: two) := fun line inside => plain line (by simp at inside ⊢; tauto)
  have plainTheirs : PlainLines (one ++ x :: two') := fun line inside => plain line (by simp at inside ⊢; tauto)
  obtain ⟨merged,agrees⟩ := @separated_lines one one' two two' x left right
  rw [merge_general (join_plain plainMine) (join_plain plainTheirs)]
  constructor
  · rw [general_clean,lines_join plainBase someBase,lines_join plainMine someMine,lines_join plainTheirs someTheirs]
    exact agrees
  · rw [general_split,lines_join plainBase someBase,lines_join plainMine someMine,lines_join plainTheirs someTheirs,merged]

end

theorem both_edits_kept : (diff3Merge "a\nx\nc" "b\nx\nc" "a\nx\nd").isClean = true ∧
    (diff3Merge "a\nx\nc" "b\nx\nc" "a\nx\nd").mergedText = "b\nx\nd" :=
  @separated_edits_merge ["a"] ["b"] ["c"] ["d"] "x" (by unfold PlainLines; decide +kernel) (by decide +kernel) (by decide +kernel)
    (by decide +kernel) (by decide +kernel) (by decide +kernel)

end ZkNote.SeparatedEdits
