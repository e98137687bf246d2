import ZkNote.Alignments
import ZkNote.Diff3

namespace ZkNote.LineMatching
open LcsGrid Alignments Diff3

variable {α : Type} [DecidableEq α] {a b : List α}

-- What the matching trims at the end, once the common prefix is off, and the
-- pairs that the table finds in between.
def commonSuffix (a b : List α) : Nat := commonPrefix (a.drop (commonPrefix a b)).reverse (b.drop (commonPrefix a b)).reverse

def middle (a b : List α) : List (Nat × Nat) :=
  withinLimit (fun a b => matched a b (rows a.length b.length)) (slice a (commonPrefix a b) (a.length-commonSuffix a b))
    (slice b (commonPrefix a b) (b.length-commonSuffix a b))

theorem trimmed_le (a b : List α) :
    commonPrefix a b+commonSuffix a b ≤ a.length ∧ commonPrefix a b+commonSuffix a b ≤ b.length := by
  obtain ⟨left,right⟩ := prefix_le a b
  obtain ⟨leftEnd,rightEnd⟩ := prefix_le (a.drop (commonPrefix a b)).reverse (b.drop (commonPrefix a b)).reverse
  rw [List.length_reverse,List.length_drop] at leftEnd rightEnd
  unfold commonSuffix
  omega

theorem matching_parts (a b : List α) : lcsMatchedPairs a b =
    (List.range (commonPrefix a b)).map (fun k => (k,k)) ++
      (middle a b).map (fun pair => (commonPrefix a b+pair.1,commonPrefix a b+pair.2)) ++
      (List.range (commonSuffix a b)).map (fun k => (a.length-commonSuffix a b+k,b.length-commonSuffix a b+k)) := by
  unfold lcsMatchedPairs pairsAround
  split
  · rename_i empty
    obtain ⟨left,right⟩ := trimmed_le a b
    have bare : a.length = 0 ∨ b.length = 0 := by
      rcases Bool.or_eq_true_iff.mp empty with none | none
      · exact .inl (List.length_eq_zero_iff.mpr (List.isEmpty_iff.mp none))
      · exact .inr (List.length_eq_zero_iff.mpr (List.isEmpty_iff.mp none))
    have noPrefix : commonPrefix a b = 0 := by omega
    have noSuffix : commonSuffix a b = 0 := by omega
    have noMiddle : middle a b = [] := by
      unfold middle withinLimit
      rw [if_pos]
      rw [noPrefix,noSuffix]
      simpa [slice] using empty
    rw [noPrefix,noSuffix,noMiddle]
    rfl
  · rfl

theorem mem_matching {q : Nat × Nat} : q ∈ lcsMatchedPairs a b ↔
    (q.1 = q.2 ∧ q.1 < commonPrefix a b) ∨
    (∃ c ∈ middle a b, q = (commonPrefix a b+c.1,commonPrefix a b+c.2)) ∨
    (∃ k < commonSuffix a b, q = (a.length-commonSuffix a b+k,b.length-commonSuffix a b+k)) := by
  rw [matching_parts,List.mem_append,List.mem_append,or_assoc]
  refine or_congr ?_ (or_congr ?_ ?_)
  · obtain ⟨i,j⟩ := q
    simp only [List.mem_map,List.mem_range,Prod.mk.injEq]
    constructor
    · rintro ⟨k,low,rfl,rfl⟩
      exact ⟨rfl,low⟩
    · rintro ⟨rfl,low⟩
      exact ⟨i,low,rfl,rfl⟩
  · simp only [List.mem_map,eq_comm]
  · simp only [List.mem_map,List.mem_range,eq_comm]

theorem slice_length {β : Type} (list : List β) {start stop : Nat} (fits : stop ≤ list.length) : (slice list start stop).length = stop-start := by
  rw [slice,List.length_drop,List.length_take,Nat.min_eq_left fits]

theorem slice_get {β : Type} (list : List β) {start stop i : Nat} (inside : start+i < stop) : (slice list start stop)[i]? = list[start+i]? := by
  rw [slice,List.getElem?_drop,List.getElem?_take_of_lt inside]

theorem middle_walk (a b : List α) : middle a b = [] ∨
    ∃ read, middle a b =
      walk (slice a (commonPrefix a b) (a.length-commonSuffix a b)) (slice b (commonPrefix a b) (b.length-commonSuffix a b)) read
        ((slice a (commonPrefix a b) (a.length-commonSuffix a b)).length+(slice b (commonPrefix a b) (b.length-commonSuffix a b)).length) 0 0 := by
  unfold middle withinLimit
  split
  · exact .inl rfl
  · split
    · exact .inr ⟨_,rfl⟩
    · exact .inl rfl

theorem middle_aligned (a b : List α) :
    Aligned (slice a (commonPrefix a b) (a.length-commonSuffix a b)) (slice b (commonPrefix a b) (b.length-commonSuffix a b)) (middle a b) := by
  rcases middle_walk a b with none | ⟨read,is⟩
  · rw [none]
    exact .nil
  · rw [is]
    exact walk_aligned

theorem middle_inside {c : Nat × Nat} (member : c ∈ middle a b) :
    commonPrefix a b+c.1 < a.length-commonSuffix a b ∧ commonPrefix a b+c.2 < b.length-commonSuffix a b := by
  have inside := (middle_aligned a b).inside member
  rw [slice_length a (Nat.sub_le _ _),slice_length b (Nat.sub_le _ _)] at inside
  omega

theorem suffix_equal {k : Nat} (low : k < commonSuffix a b) :
    ∃ x, a[a.length-commonSuffix a b+k]? = some x ∧ b[b.length-commonSuffix a b+k]? = some x := by
  obtain ⟨left,right⟩ := trimmed_le a b
  have turned : commonSuffix a b-1-k < commonPrefix (a.drop (commonPrefix a b)).reverse (b.drop (commonPrefix a b)).reverse := by
    show commonSuffix a b-1-k < commonSuffix a b
    omega
  obtain ⟨x,one,two⟩ := prefix_equal turned
  refine ⟨x,?_,?_⟩
  · rw [List.getElem?_reverse (by rw [List.length_drop]; omega),List.length_drop,List.getElem?_drop] at one
    rw [← one]
    congr 1
    omega
  · rw [List.getElem?_reverse (by rw [List.length_drop]; omega),List.length_drop,List.getElem?_drop] at two
    rw [← two]
    congr 1
    omega

theorem matching_aligned (a b : List α) : Aligned a b (lcsMatchedPairs a b) := by
  obtain ⟨left,right⟩ := trimmed_le a b
  have middles := middle_aligned a b
  rw [matching_parts]
  refine .append (.append ⟨?_,?_⟩ ⟨?_,?_⟩ ?_) ⟨?_,?_⟩ ?_
  · exact List.pairwise_map.mpr (List.pairwise_lt_range.imp (fun less => ⟨less,less⟩))
  · simp only [List.mem_map,List.mem_range]
    rintro p ⟨k,low,rfl⟩
    exact prefix_equal low
  · exact List.pairwise_map.mpr (middles.rising.imp (fun less => ⟨Nat.add_lt_add_left less.1 _,Nat.add_lt_add_left less.2 _⟩))
  · intro p member
    obtain ⟨c,inside,rfl⟩ := List.mem_map.mp member
    obtain ⟨x,one,two⟩ := middles.equal c inside
    obtain ⟨rowEnd,columnEnd⟩ := middle_inside inside
    rw [slice_get a rowEnd] at one
    rw [slice_get b columnEnd] at two
    exact ⟨x,one,two⟩
  · intro p first q second
    obtain ⟨k,low,rfl⟩ := List.mem_map.mp first
    obtain ⟨c,_,rfl⟩ := List.mem_map.mp second
    have small := List.mem_range.mp low
    exact ⟨by dsimp only; omega,by dsimp only; omega⟩
  · exact List.pairwise_map.mpr (List.pairwise_lt_range.imp (fun less => ⟨Nat.add_lt_add_left less _,Nat.add_lt_add_left less _⟩))
  · intro p member
    obtain ⟨k,low,rfl⟩ := List.mem_map.mp member
    exact suffix_equal (List.mem_range.mp low)
  · intro p first q second
    obtain ⟨k,low,rfl⟩ := List.mem_map.mp second
    rcases List.mem_append.mp first with first | first
    · obtain ⟨i,small,rfl⟩ := List.mem_map.mp first
      have small := List.mem_range.mp small
      exact ⟨by dsimp only; omega,by dsimp only; omega⟩
    · obtain ⟨c,inside,rfl⟩ := List.mem_map.mp first
      obtain ⟨rowEnd,columnEnd⟩ := middle_inside inside
      exact ⟨by dsimp only; omega,by dsimp only; omega⟩

-- A list is matched with itself line by line, whatever it repeats.
theorem matching_self (a : List α) : lcsMatchedPairs a a = (List.range a.length).map (fun k => (k,k)) := by
  have whole := prefix_self a
  have fits := (trimmed_le a a).1
  have noSuffix : commonSuffix a a = 0 := by omega
  have noMiddle : middle a a = [] := by
    cases held : middle a a with
    | nil => rfl
    | cons c rest =>
        have inside := (middle_inside (a := a) (b := a) (c := c) (by rw [held]; exact List.mem_cons_self)).1
        omega
  rw [matching_parts,noSuffix,noMiddle,whole]
  simp

theorem matching_prefix {k : Nat} (low : k < commonPrefix a b) : (k,k) ∈ lcsMatchedPairs a b := mem_matching.mpr (.inl ⟨rfl,low⟩)

theorem matching_suffix {k : Nat} (low : k < commonSuffix a b) :
    (a.length-commonSuffix a b+k,b.length-commonSuffix a b+k) ∈ lcsMatchedPairs a b := mem_matching.mpr (.inr (.inr ⟨k,low,rfl⟩))

-- Where a stretch between two matches begins and ends.
def Reached (a b : List α) (i j : Nat) : Prop := i = 0 ∧ j = 0 ∨ ∃ p ∈ lcsMatchedPairs a b, i = p.1+1 ∧ j = p.2+1

def Closing (a b : List α) (i j : Nat) : Prop := (i,j) ∈ lcsMatchedPairs a b ∨ i = a.length ∧ j = b.length

-- At the start of a stretch equal lines are matched, unless one of them belongs
-- to the common suffix and the other does not.
theorem matched_onward {i j : Nat} (reached : Reached a b i j) (left : i < a.length) (right : j < b.length) (same : a[i]? = b[j]?) :
    (i,j) ∈ lcsMatchedPairs a b ∨ a.length-commonSuffix a b ≤ i ∧ j < b.length-commonSuffix a b ∨
      i < a.length-commonSuffix a b ∧ b.length-commonSuffix a b ≤ j := by
  obtain ⟨fitsLeft,fitsRight⟩ := trimmed_le a b
  have diagonal : i = j → i ≤ commonPrefix a b → (i,j) ∈ lcsMatchedPairs a b := by
    intro level low
    subst level
    rcases Nat.lt_or_eq_of_le low with less | is
    · exact matching_prefix less
    · subst is
      exact absurd same (prefix_stops left right)
  rcases reached with ⟨rfl,rfl⟩ | ⟨p,member,rfl,rfl⟩
  · exact .inl (diagonal rfl (Nat.zero_le _))
  · rcases mem_matching.mp member with ⟨level,low⟩ | ⟨c,inside,rfl⟩ | ⟨k,low,rfl⟩
    · exact .inl (diagonal (by rw [level]) low)
    · obtain ⟨rowEnd,columnEnd⟩ := middle_inside inside
      dsimp only at left right same ⊢
      by_cases rowInside : commonPrefix a b+c.1+1 < a.length-commonSuffix a b
      · by_cases columnInside : commonPrefix a b+c.2+1 < b.length-commonSuffix a b
        · refine .inl (mem_matching.mpr (.inr (.inl ⟨(c.1+1,c.2+1),?_,rfl⟩)))
          rcases middle_walk a b with none | ⟨read,is⟩
          · rw [none] at inside
            cases inside
          · rw [is] at inside ⊢
            refine walk_onward (by omega) inside ?_ ?_ ?_
            · rw [slice_length a (Nat.sub_le _ _)]
              omega
            · rw [slice_length b (Nat.sub_le _ _)]
              omega
            · rw [slice_get a (by omega),slice_get b (by omega)]
              exact same
        · exact .inr (.inr ⟨rowInside,by omega⟩)
      · by_cases columnInside : commonPrefix a b+c.2+1 < b.length-commonSuffix a b
        · exact .inr (.inl ⟨by omega,columnInside⟩)
        · refine .inl (mem_matching.mpr (.inr (.inr ⟨0,by omega,?_⟩)))
          exact Prod.mk.injEq .. ▸ ⟨by omega,by omega⟩
    · dsimp only at left right ⊢
      refine .inl (mem_matching.mpr (.inr (.inr ⟨k+1,by omega,rfl⟩)))

-- Equal stretches of equal length are matched line by line.
theorem stretch_matched {i j i' j' : Nat} (reached : Reached a b i j) (closing : Closing a b i' j') (low : i ≤ i') (level : i+j' = i'+j)
    (same : ∀ k < i'-i, a[i+k]? = b[j+k]?) {k : Nat} (inside : k < i'-i) : (i+k,j+k) ∈ lcsMatchedPairs a b := by
  obtain ⟨fitsLeft,fitsRight⟩ := trimmed_le a b
  -- Past the start of the common suffix a stretch can only end on its diagonal.
  have ended : a.length-commonSuffix a b ≤ i' ∨ b.length-commonSuffix a b ≤ j' → i'+b.length = j'+a.length := by
    intro high
    rcases closing with member | ⟨rfl,rfl⟩
    · rcases mem_matching.mp member with ⟨even,less⟩ | ⟨c,inner,is⟩ | ⟨d,_,is⟩
      · dsimp only at even less
        omega
      · have edge := middle_inside inner
        obtain ⟨rfl,rfl⟩ := Prod.mk.inj is
        omega
      · obtain ⟨rfl,rfl⟩ := Prod.mk.inj is
        omega
    · exact Nat.add_comm _ _
  have bound : i' ≤ a.length ∧ j' ≤ b.length := by
    rcases closing with member | ⟨rfl,rfl⟩
    · have inner := (matching_aligned a b).inside member
      exact ⟨Nat.le_of_lt inner.1,Nat.le_of_lt inner.2⟩
    · exact ⟨Nat.le_refl _,Nat.le_refl _⟩
  induction k with
  | zero =>
      rcases matched_onward reached (by omega) (by omega) (same 0 inside) with matched | apart | apart
      · exact matched
      · have even := ended (.inl (by omega))
        omega
      · have even := ended (.inr (by omega))
        omega
  | succ k ih =>
      have onward : Reached a b (i+(k+1)) (j+(k+1)) := .inr ⟨_,ih (Nat.lt_of_succ_lt inside),rfl,rfl⟩
      rcases matched_onward onward (by omega) (by omega) (same (k+1) inside) with matched | apart | apart
      · exact matched
      · have even := ended (.inl (by omega))
        omega
      · have even := ended (.inr (by omega))
        omega

end ZkNote.LineMatching
