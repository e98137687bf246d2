import Mathlib.Data.List.Sort
import ZkNote.LineMatching

namespace ZkNote.SegmentMerge
open Alignments LineMatching PlaintextNotes Diff3

-- Aligned stretches of the three texts.
structure Segment where
  base : List String
  mine : List String
  theirs : List String
  deriving DecidableEq

-- Both sides changed it, and not alike.
def Segment.Diverges (s : Segment) : Prop := s.theirs ≠ s.base ∧ s.mine ≠ s.base ∧ s.mine ≠ s.theirs

instance (s : Segment) : Decidable s.Diverges := inferInstanceAs (Decidable (_ ∧ _ ∧ _))

def Segment.merged (s : Segment) : List String :=
  if s.theirs = s.base then s.mine else if s.mine = s.base then s.theirs else if s.mine = s.theirs then s.mine
  else conflictBlock s.mine s.base s.theirs

def Segment.conflict (before : Nat) (s : Segment) : List BodyConflict :=
  if s.Diverges then [⟨before+1,s.base,s.mine,s.theirs⟩] else []

-- Segments with one anchor line between each and the next.
inductive Splitting where
  | last (segment : Segment)
  | next (segment : Segment) (anchor : String) (rest : Splitting)

namespace Splitting

def whole (side : Segment → List String) : Splitting → List String
  | .last s => side s
  | .next s anchor rest => side s ++ anchor :: rest.whole side

def segments : Splitting → List Segment
  | .last s => [s]
  | .next s _ rest => s :: rest.segments

-- `before` counts the base lines in front.
def conflicts (before : Nat) : Splitting → List BodyConflict
  | .last s => s.conflict before
  | .next s _ rest => s.conflict before ++ rest.conflicts (before+s.base.length+1)

-- The places of the anchor lines in the three texts.
def anchors : Nat → Nat → Nat → Splitting → List (Nat × Nat × Nat)
  | _,_,_,.last _ => []
  | b,l,r,.next s _ rest =>
    (b+s.base.length,l+s.mine.length,r+s.theirs.length) ::
      rest.anchors (b+s.base.length+1) (l+s.mine.length+1) (r+s.theirs.length+1)

end Splitting

section
variable (base mine theirs : List String)

def splitAt : Nat → Nat → Nat → List (Nat × Nat × Nat) → Splitting
  | prevB,prevL,prevR,[] => .last ⟨slice base prevB base.length,slice mine prevL mine.length,slice theirs prevR theirs.length⟩
  | prevB,prevL,prevR,(b,l,r) :: rest =>
    .next ⟨slice base prevB b,slice mine prevL l,slice theirs prevR r⟩ (base[b]?.getD "") (splitAt (b+1) (l+1) (r+1) rest)

-- Places that rise in all three texts and hold the same line there.
def Anchored : Nat → Nat → Nat → List (Nat × Nat × Nat) → Prop
  | prevB,prevL,prevR,[] => prevB ≤ base.length ∧ prevL ≤ mine.length ∧ prevR ≤ theirs.length
  | prevB,prevL,prevR,(b,l,r) :: rest =>
    (prevB ≤ b ∧ prevL ≤ l ∧ prevR ≤ r) ∧ (∃ line, base[b]? = some line ∧ mine[l]? = some line ∧ theirs[r]? = some line) ∧
      Anchored (b+1) (l+1) (r+1) rest

end

variable {base mine theirs : List String} {anchors : List (Nat × Nat × Nat)} {prevB prevL prevR : Nat}

theorem chunk_segment (before : Nat) (s : Segment) :
    processChunk conflictBlock before s.base s.mine s.theirs = (s.merged,s.conflict before) := by
  unfold processChunk Segment.merged Segment.conflict Segment.Diverges
  by_cases left : s.mine = s.base <;> by_cases right : s.theirs = s.base <;> by_cases same : s.mine = s.theirs <;>
    simp_all

theorem drop_split {list : List String} {start stop : Nat} {line : String} (low : start ≤ stop) (held : list[stop]? = some line) :
    slice list start stop ++ line :: list.drop (stop+1) = list.drop start := by
  obtain ⟨inside,is⟩ := List.getElem?_eq_some_iff.mp held
  rw [slice,← is,← List.drop_eq_getElem_cons inside,List.drop_take]
  conv_rhs => rw [← List.take_append_drop (stop-start) (list.drop start),List.drop_drop,Nat.add_sub_cancel' low]

theorem slice_end (list : List String) (start : Nat) : slice list start list.length = list.drop start := by
  rw [slice,List.take_length]

theorem split_base (anchored : Anchored base mine theirs prevB prevL prevR anchors) :
    (splitAt base mine theirs prevB prevL prevR anchors).whole (·.base) = base.drop prevB := by
  induction anchors generalizing prevB prevL prevR with
  | nil => exact slice_end base prevB
  | cons anchor rest ih =>
      obtain ⟨b,l,r⟩ := anchor
      obtain ⟨⟨low,_,_⟩,⟨line,held,_,_⟩,later⟩ := anchored
      rw [splitAt,Splitting.whole,ih later,held]
      exact drop_split low held

theorem split_mine (anchored : Anchored base mine theirs prevB prevL prevR anchors) :
    (splitAt base mine theirs prevB prevL prevR anchors).whole (·.mine) = mine.drop prevL := by
  induction anchors generalizing prevB prevL prevR with
  | nil => exact slice_end mine prevL
  | cons anchor rest ih =>
      obtain ⟨b,l,r⟩ := anchor
      obtain ⟨⟨_,low,_⟩,⟨line,here,held,_⟩,later⟩ := anchored
      rw [splitAt,Splitting.whole,ih later,here]
      exact drop_split low held

theorem split_theirs (anchored : Anchored base mine theirs prevB prevL prevR anchors) :
    (splitAt base mine theirs prevB prevL prevR anchors).whole (·.theirs) = theirs.drop prevR := by
  induction anchors generalizing prevB prevL prevR with
  | nil => exact slice_end theirs prevR
  | cons anchor rest ih =>
      obtain ⟨b,l,r⟩ := anchor
      obtain ⟨⟨_,_,low⟩,⟨line,here,_,held⟩,later⟩ := anchored
      rw [splitAt,Splitting.whole,ih later,here]
      exact drop_split low held

theorem inside_length {list : List String} {i : Nat} {line : String} (held : list[i]? = some line) : i < list.length :=
  (List.getElem?_eq_some_iff.mp held).1

theorem split_anchors (anchored : Anchored base mine theirs prevB prevL prevR anchors) :
    (splitAt base mine theirs prevB prevL prevR anchors).anchors prevB prevL prevR = anchors := by
  induction anchors generalizing prevB prevL prevR with
  | nil => rfl
  | cons anchor rest ih =>
      obtain ⟨b,l,r⟩ := anchor
      obtain ⟨⟨lowB,lowL,lowR⟩,⟨line,heldB,heldL,heldR⟩,later⟩ := anchored
      rw [splitAt,Splitting.anchors]
      dsimp only
      rw [slice_length base (inside_length heldB).le,slice_length mine (inside_length heldL).le,slice_length theirs (inside_length heldR).le,
        Nat.add_sub_cancel' lowB,Nat.add_sub_cancel' lowL,Nat.add_sub_cancel' lowR,ih later]

-- The loop over the anchors is the merge of the segments.
theorem chunks_split (anchored : Anchored base mine theirs prevB prevL prevR anchors) :
    mergeChunks conflictBlock base mine theirs prevB prevL prevR anchors =
      ((splitAt base mine theirs prevB prevL prevR anchors).whole Segment.merged,
        (splitAt base mine theirs prevB prevL prevR anchors).conflicts prevB) := by
  induction anchors generalizing prevB prevL prevR with
  | nil => exact chunk_segment prevB ⟨slice base prevB base.length,slice mine prevL mine.length,slice theirs prevR theirs.length⟩
  | cons anchor rest ih =>
      obtain ⟨b,l,r⟩ := anchor
      obtain ⟨⟨low,_,_⟩,⟨line,held,_,_⟩,later⟩ := anchored
      have chunk := chunk_segment prevB ⟨slice base prevB b,slice mine prevL l,slice theirs prevR r⟩
      dsimp only at chunk
      rw [mergeChunks,splitAt,Splitting.whole,Splitting.conflicts,ih later,chunk,held]
      dsimp only
      rw [slice_length base (inside_length held).le,Nat.add_sub_cancel' low]
      simp

theorem conflicts_iff (split : Splitting) (before : Nat) : split.conflicts before = [] ↔ ∀ s ∈ split.segments, ¬s.Diverges := by
  have one : ∀ (s : Segment) (before : Nat), s.conflict before = [] ↔ ¬s.Diverges := by
    intro s before
    unfold Segment.conflict
    split
    · rename_i diverges
      simp [diverges]
    · rename_i agrees
      simp [agrees]
  induction split generalizing before with
  | last s => rw [Splitting.conflicts,Splitting.segments,one,List.forall_mem_singleton]
  | next s anchor rest ih =>
      rw [Splitting.conflicts,Splitting.segments,List.append_eq_nil_iff,List.forall_mem_cons]
      exact and_congr (one s before) (ih _)

theorem mem_whole {split : Splitting} {s : Segment} {side : Segment → List String} {line : String} (member : s ∈ split.segments)
    (inside : line ∈ side s) : line ∈ split.whole side := by
  induction split with
  | last t =>
      obtain rfl := List.mem_singleton.mp member
      exact inside
  | next t anchor rest ih =>
      rcases List.mem_cons.mp member with rfl | later
      · exact List.mem_append_left _ inside
      · exact List.mem_append_right _ (List.mem_cons_of_mem _ (ih later))

theorem whole_congr {split : Splitting} {side side' : Segment → List String} (same : ∀ s ∈ split.segments, side s = side' s) :
    split.whole side = split.whole side' := by
  induction split with
  | last s => exact same s (List.mem_singleton.mpr rfl)
  | next s anchor rest ih =>
      rw [Splitting.whole,Splitting.whole,same s List.mem_cons_self,ih (fun t later => same t (List.mem_cons_of_mem _ later))]

-- The anchors of the two alignments.
def anchorsOf (base mine theirs : List String) : List (Nat × Nat × Nat) := commonAnchors lcsMatchedPairs base mine theirs

theorem mem_anchorsOf {b l r : Nat} : (b,l,r) ∈ anchorsOf base mine theirs ↔
    (b,l) ∈ lcsMatchedPairs base mine ∧ (b,r) ∈ lcsMatchedPairs base theirs := by
  have right := matching_aligned base theirs
  have unique : ∀ p ∈ (lcsMatchedPairs base theirs).reverse, ∀ q ∈ (lcsMatchedPairs base theirs).reverse, p.1 = q.1 → p = q :=
    fun p one q two => rising_first right.rising (List.mem_reverse.mp one) (List.mem_reverse.mp two)
  rw [anchorsOf,commonAnchors,List.mem_filterMap]
  constructor
  · rintro ⟨⟨i,j⟩,member,found⟩
    obtain ⟨r',looked,is⟩ := Option.map_eq_some_iff.mp found
    cases is
    exact ⟨member,List.mem_reverse.mp ((lookup_iff unique _ _).mp looked)⟩
  · rintro ⟨member,matched⟩
    refine ⟨(b,l),member,?_⟩
    rw [(lookup_iff unique b r).mpr (List.mem_reverse.mpr matched)]
    rfl

def Later (a c : Nat × Nat × Nat) : Prop := a.1 < c.1 ∧ a.2.1 < c.2.1 ∧ a.2.2 < c.2.2

theorem anchors_rising (base mine theirs : List String) : (anchorsOf base mine theirs).Pairwise Later := by
  have left := matching_aligned base mine
  have right := matching_aligned base theirs
  have pairs : (anchorsOf base mine theirs).Pairwise (fun a c => Before (a.1,a.2.1) (c.1,c.2.1)) := by
    rw [anchorsOf,commonAnchors]
    refine List.pairwise_filterMap.mpr (left.rising.imp ?_)
    intro p q before a one c two
    obtain ⟨_,_,rfl⟩ := Option.map_eq_some_iff.mp one
    obtain ⟨_,_,rfl⟩ := Option.map_eq_some_iff.mp two
    exact before
  refine pairs.imp_of_mem ?_
  rintro ⟨b,l,r⟩ ⟨b',l',r'⟩ one two ⟨less,less'⟩
  refine ⟨less,less',?_⟩
  rcases rising_apart right.rising (mem_anchorsOf.mp one).2 (mem_anchorsOf.mp two).2 with is | before | before
  · obtain ⟨rfl,_⟩ := Prod.mk.inj is
    exact absurd less (Nat.lt_irrefl _)
  · exact before.2
  · exact absurd before.1 (Nat.not_lt.mpr (Nat.le_of_lt less))

theorem anchored_rising (rising : anchors.Pairwise Later) (bounds : prevB ≤ base.length ∧ prevL ≤ mine.length ∧ prevR ≤ theirs.length)
    (low : ∀ a ∈ anchors, prevB ≤ a.1 ∧ prevL ≤ a.2.1 ∧ prevR ≤ a.2.2)
    (equal : ∀ a ∈ anchors, ∃ line, base[a.1]? = some line ∧ mine[a.2.1]? = some line ∧ theirs[a.2.2]? = some line) :
    Anchored base mine theirs prevB prevL prevR anchors := by
  induction anchors generalizing prevB prevL prevR with
  | nil => exact bounds
  | cons anchor rest ih =>
      obtain ⟨b,l,r⟩ := anchor
      obtain ⟨least,later⟩ := List.pairwise_cons.mp rising
      obtain ⟨line,heldB,heldL,heldR⟩ := equal _ List.mem_cons_self
      refine ⟨low _ List.mem_cons_self,⟨line,heldB,heldL,heldR⟩,ih later ⟨inside_length heldB,inside_length heldL,inside_length heldR⟩ least ?_⟩
      exact fun a inside => equal a (List.mem_cons_of_mem _ inside)

theorem anchor_line {a : Nat × Nat × Nat} (member : a ∈ anchorsOf base mine theirs) :
    ∃ line, base[a.1]? = some line ∧ mine[a.2.1]? = some line ∧ theirs[a.2.2]? = some line := by
  obtain ⟨left,right⟩ := mem_anchorsOf.mp member
  obtain ⟨x,one,two⟩ := (matching_aligned base mine).equal _ left
  obtain ⟨y,three,four⟩ := (matching_aligned base theirs).equal _ right
  obtain rfl : x = y := Option.some.inj (one.symm.trans three)
  exact ⟨x,one,two,four⟩

theorem anchors_anchored (base mine theirs : List String) : Anchored base mine theirs 0 0 0 (anchorsOf base mine theirs) :=
  anchored_rising (anchors_rising base mine theirs) ⟨Nat.zero_le _,Nat.zero_le _,Nat.zero_le _⟩
    (fun _ _ => ⟨Nat.zero_le _,Nat.zero_le _,Nat.zero_le _⟩) (fun _ member => anchor_line member)

-- Two columns of the segments, between the matches of two of the texts.
def stretches (xs ys : List String) : Nat → Nat → List (Nat × Nat) → List (List String × List String)
  | i,j,[] => [(slice xs i xs.length,slice ys j ys.length)]
  | i,j,(p,q) :: rest => (slice xs i p,slice ys j q) :: stretches xs ys (p+1) (q+1) rest

theorem segments_mine (base mine theirs : List String) (prevB prevL prevR : Nat) (anchors : List (Nat × Nat × Nat)) :
    (splitAt base mine theirs prevB prevL prevR anchors).segments.map (fun s => (s.base,s.mine)) =
      stretches base mine prevB prevL (anchors.map (fun a => (a.1,a.2.1))) := by
  induction anchors generalizing prevB prevL prevR with
  | nil => rfl
  | cons anchor rest ih => exact congrArg (List.cons _) (ih _ _ _)

theorem segments_theirs (base mine theirs : List String) (prevB prevL prevR : Nat) (anchors : List (Nat × Nat × Nat)) :
    (splitAt base mine theirs prevB prevL prevR anchors).segments.map (fun s => (s.base,s.theirs)) =
      stretches base theirs prevB prevR (anchors.map (fun a => (a.1,a.2.2))) := by
  induction anchors generalizing prevB prevL prevR with
  | nil => rfl
  | cons anchor rest ih => exact congrArg (List.cons _) (ih _ _ _)

theorem segments_sides (base mine theirs : List String) (prevB prevL prevR : Nat) (anchors : List (Nat × Nat × Nat)) :
    (splitAt base mine theirs prevB prevL prevR anchors).segments.map (fun s => (s.mine,s.theirs)) =
      stretches mine theirs prevL prevR (anchors.map (fun a => a.2)) := by
  induction anchors generalizing prevB prevL prevR with
  | nil => rfl
  | cons anchor rest ih => exact congrArg (List.cons _) (ih _ _ _)

section
variable {xs ys : List String} {i j : Nat} {cs : List (Nat × Nat)}

theorem slice_drop {β : Type} (list : List β) (start stop : Nat) : slice list start stop = (list.drop start).take (stop-start) := by
  rw [slice,List.drop_take]

-- Columns that are alike from here on, matched on one diagonal.
theorem stretches_level (even : xs.drop i = ys.drop j) (rising : cs.Pairwise Before) (level : ∀ c ∈ cs, i ≤ c.1 ∧ c.1+j = c.2+i) :
    ∀ s ∈ stretches xs ys i j cs, s.1 = s.2 := by
  induction cs generalizing i j with
  | nil =>
      intro s member
      obtain rfl := List.mem_singleton.mp member
      rw [slice_end,slice_end]
      exact even
  | cons c rest ih =>
      obtain ⟨p,q⟩ := c
      obtain ⟨least,later⟩ := List.pairwise_cons.mp rising
      obtain ⟨low,diagonal⟩ := level _ List.mem_cons_self
      dsimp only at low diagonal
      intro s member
      rcases List.mem_cons.mp member with rfl | inside
      · show slice xs i p = slice ys j q
        rw [slice_drop,slice_drop,even,show p-i = q-j by omega]
      · refine ih ?_ later ?_ s inside
        · have left : xs.drop (p+1) = (xs.drop i).drop (p+1-i) := by rw [List.drop_drop,Nat.add_sub_cancel' (by omega)]
          have right : ys.drop (q+1) = (ys.drop j).drop (q+1-j) := by rw [List.drop_drop,Nat.add_sub_cancel' (by omega)]
          rw [left,right,even,show p+1-i = q+1-j by omega]
        · intro c there
          have before := least c there
          have diagonal' := (level c (List.mem_cons_of_mem _ there)).2
          exact ⟨before.1,by omega⟩

-- A stretch with an unmatched line on the side is not what the base has there.
theorem unmatched_uneven {p q k : Nat} {line : String} (reached : Reached xs ys i j) (closing : Closing xs ys p q) (low : i ≤ p)
    (high : p ≤ xs.length ∧ q ≤ ys.length) (from_ : j ≤ k) (below : k < q) (held : ys[k]? = some line)
    (unmatched : ∀ l, (l,k) ∉ lcsMatchedPairs xs ys) : slice xs i p ≠ slice ys j q ∧ line ∈ slice ys j q := by
  constructor
  · intro same
    have lengths := congrArg List.length same
    rw [slice_length xs high.1,slice_length ys high.2] at lengths
    have place : k = j+(k-j) := by omega
    have matched := stretch_matched reached closing low (by omega) (fun t inside => by
      have here : (slice xs i p)[t]? = (slice ys j q)[t]? := by rw [same]
      rwa [slice_get xs (by omega),slice_get ys (by omega)] at here) (show k-j < p-i by omega)
    rw [← place] at matched
    exact unmatched _ matched
  · have inside : (slice ys j q)[k-j]? = some line := by
      rw [slice_get ys (by omega),Nat.add_sub_cancel' from_]
      exact held
    exact List.mem_of_getElem? inside

theorem unmatched_stretch (cs : List (Nat × Nat)) {k : Nat} {line : String} (held : ys[k]? = some line) (unmatched : ∀ l, (l,k) ∉ lcsMatchedPairs xs ys)
    (reached : Reached xs ys i j) (low : i ≤ xs.length) (from_ : j ≤ k) (rising : cs.Pairwise Before)
    (above : ∀ c ∈ cs, c ∈ lcsMatchedPairs xs ys ∧ i ≤ c.1) : ∃ s ∈ stretches xs ys i j cs, s.1 ≠ s.2 ∧ line ∈ s.2 := by
  induction cs generalizing i j with
  | nil =>
      exact ⟨_,List.mem_singleton.mpr rfl,unmatched_uneven reached (.inr ⟨rfl,rfl⟩) low ⟨Nat.le_refl _,Nat.le_refl _⟩ from_ (inside_length held) held
        unmatched⟩
  | cons c rest ih =>
      obtain ⟨p,q⟩ := c
      obtain ⟨least,later⟩ := List.pairwise_cons.mp rising
      obtain ⟨matched,start⟩ := above _ List.mem_cons_self
      have inner := (matching_aligned xs ys).inside matched
      rcases Nat.lt_trichotomy k q with before | rfl | after
      · exact ⟨_,List.mem_cons_self,unmatched_uneven reached (.inl matched) start ⟨inner.1.le,inner.2.le⟩ from_ before held unmatched⟩
      · exact absurd matched (unmatched p)
      · obtain ⟨s,member,changed⟩ := ih (.inr ⟨_,matched,rfl,rfl⟩) inner.1 after later
          (fun c there => ⟨(above c (List.mem_cons_of_mem _ there)).1,(least c there).1⟩)
        exact ⟨s,List.mem_cons_of_mem _ member,changed⟩

end

-- What a side has changed in a segment is in the merge.
theorem merged_mine {s : Segment} {line : String} (changed : s.base ≠ s.mine) (inside : line ∈ s.mine) : line ∈ s.merged := by
  unfold Segment.merged
  split
  · exact inside
  · split
    · rename_i same
      exact absurd same.symm changed
    · split
      · exact inside
      · simp [conflictBlock,inside]

theorem merged_theirs {s : Segment} {line : String} (changed : s.base ≠ s.theirs) (inside : line ∈ s.theirs) : line ∈ s.merged := by
  unfold Segment.merged
  split
  · rename_i same
    exact absurd same.symm changed
  · split
    · exact inside
    · split
      · rename_i same
        rw [same]
        exact inside
      · simp [conflictBlock,inside]

theorem added_mine {k : Nat} {line : String} (held : mine[k]? = some line) (unmatched : ∀ l, (l,k) ∉ lcsMatchedPairs base mine) :
    line ∈ (splitAt base mine theirs 0 0 0 (anchorsOf base mine theirs)).whole Segment.merged := by
  obtain ⟨_,member,changed,inside⟩ := unmatched_stretch ((anchorsOf base mine theirs).map (fun a => (a.1,a.2.1))) held unmatched
    (.inl ⟨rfl,rfl⟩) (Nat.zero_le _) (Nat.zero_le _)
    (List.pairwise_map.mpr ((anchors_rising base mine theirs).imp (fun later => ⟨later.1,later.2.1⟩)))
    (List.forall_mem_map.mpr (fun a there => ⟨(mem_anchorsOf.mp there).1,Nat.zero_le _⟩))
  rw [← segments_mine base mine theirs 0 0 0,List.mem_map] at member
  obtain ⟨s,there,rfl⟩ := member
  exact mem_whole there (merged_mine changed inside)

theorem added_theirs {k : Nat} {line : String} (held : theirs[k]? = some line) (unmatched : ∀ l, (l,k) ∉ lcsMatchedPairs base theirs) :
    line ∈ (splitAt base mine theirs 0 0 0 (anchorsOf base mine theirs)).whole Segment.merged := by
  obtain ⟨_,member,changed,inside⟩ := unmatched_stretch ((anchorsOf base mine theirs).map (fun a => (a.1,a.2.2))) held unmatched
    (.inl ⟨rfl,rfl⟩) (Nat.zero_le _) (Nat.zero_le _)
    (List.pairwise_map.mpr ((anchors_rising base mine theirs).imp (fun later => ⟨later.1,later.2.2⟩)))
    (List.forall_mem_map.mpr (fun a there => ⟨(mem_anchorsOf.mp there).2,Nat.zero_le _⟩))
  rw [← segments_theirs base mine theirs 0 0 0,List.mem_map] at member
  obtain ⟨s,there,rfl⟩ := member
  exact mem_whole there (merged_theirs changed inside)

end ZkNote.SegmentMerge
