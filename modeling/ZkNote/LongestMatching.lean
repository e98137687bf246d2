import ZkNote.CommonSubsequences
import ZkNote.LineMatching

namespace ZkNote.LongestMatching
open LcsGrid Alignments Diff3 LineMatching CommonSubsequences

variable {α : Type} [DecidableEq α] {a b : List α} {i j k : Nat}

theorem lcs_longest (a b : List α) : Longest a b (lcsLength a b) := by
  induction a,b using lcsLength.induct with
  | case1 xs x ys ih =>
      rw [lcsLength,if_pos rfl]
      exact ih.same x
  | case2 x xs y ys differ down across =>
      rw [lcsLength,if_neg differ]
      exact down.apart differ across
  | case3 a b empty =>
      cases a with
      | nil =>
          rw [nil_lcsLength]
          exact .nil_left b
      | cons x xs =>
          cases b with
          | nil =>
              rw [lcsLength_nil]
              exact .nil_right _
          | cons y ys => exact (empty x xs y ys rfl rfl).elim

-- The walk takes a pair at every step at which the length goes down.
theorem walk_length {fuel : Nat} (enough : a.length+b.length ≤ fuel+i+j) :
    (walk a b (fun i j => lcsLength (a.drop i) (b.drop j)) fuel i j).length = lcsLength (a.drop i) (b.drop j) := by
  induction fuel generalizing i j with
  | zero =>
      rw [walk,List.length_nil]
      by_cases row : a.length ≤ i
      · rw [List.drop_eq_nil_of_le row,nil_lcsLength]
      · rw [List.drop_eq_nil_of_le (show b.length ≤ j by omega),lcsLength_nil]
  | succ fuel ih =>
      rw [walk]
      split
      · rename_i inside
        obtain ⟨row,column⟩ := inside
        have tops : a.drop i = a[i] :: a.drop (i+1) := List.drop_eq_getElem_cons row
        have sides : b.drop j = b[j] :: b.drop (j+1) := List.drop_eq_getElem_cons column
        have step : lcsLength (a.drop i) (b.drop j) = if a[i]? = b[j]? then lcsLength (a.drop (i+1)) (b.drop (j+1))+1
            else max (lcsLength (a.drop (i+1)) (b.drop j)) (lcsLength (a.drop i) (b.drop (j+1))) := by
          rw [tops,sides,lcsLength,List.getElem?_eq_getElem row,List.getElem?_eq_getElem column]
          simp only [Option.some.injEq]
        rw [step]
        split
        · rw [List.length_cons,ih (by omega)]
        · split
          · rename_i down
            rw [ih (by omega),Nat.max_eq_left down]
          · rename_i across
            rw [ih (by omega),Nat.max_eq_right (Nat.le_of_not_le across)]
      · rename_i outside
        rw [List.length_nil]
        by_cases row : a.length ≤ i
        · rw [List.drop_eq_nil_of_le row,nil_lcsLength]
        · rw [List.drop_eq_nil_of_le (show b.length ≤ j by omega),lcsLength_nil]

-- `k` lines at the front are the same.
def CommonFront (a b : List α) (k : Nat) : Prop := k ≤ a.length ∧ k ≤ b.length ∧ a.take k = b.take k

theorem prefix_common (a b : List α) : CommonFront a b (commonPrefix a b) := by
  obtain ⟨left,right⟩ := prefix_le a b
  refine ⟨left,right,?_⟩
  apply List.ext_getElem?
  intro k
  by_cases low : k < commonPrefix a b
  · obtain ⟨x,one,two⟩ := prefix_equal low
    rw [List.getElem?_take_of_lt low,List.getElem?_take_of_lt low,one,two]
  · rw [List.getElem?_eq_none (by rw [List.length_take]; omega),List.getElem?_eq_none (by rw [List.length_take]; omega)]

theorem prefix_greatest (a b : List α) : IsGreatest {k | CommonFront a b k} (commonPrefix a b) := by
  refine ⟨prefix_common a b,?_⟩
  rintro k ⟨left,right,same⟩
  by_contra more
  have low : commonPrefix a b < k := Nat.lt_of_not_le more
  have equal := congrArg (fun list => list[commonPrefix a b]?) same
  simp only [List.getElem?_take_of_lt low] at equal
  exact prefix_stops (lt_of_lt_of_le low left) (lt_of_lt_of_le low right) equal

-- The lines between the common prefix and the common suffix.
def core (a b : List α) : List α := slice a (commonPrefix a b) (a.length-commonSuffix a b)
def core' (a b : List α) : List α := slice b (commonPrefix a b) (b.length-commonSuffix a b)

theorem core_length (a b : List α) : (core a b).length = a.length-(commonPrefix a b+commonSuffix a b) ∧
    (core' a b).length = b.length-(commonPrefix a b+commonSuffix a b) := by
  rw [core,core',slice_length a (Nat.sub_le _ _),slice_length b (Nat.sub_le _ _)]
  omega

theorem whole_parts {β : Type} (list : List β) {p s : Nat} (fits : p+s ≤ list.length) :
    list = list.take p ++ slice list p (list.length-s) ++ list.drop (list.length-s) := by
  have inner : list.take (list.length-s) = list.take p ++ slice list p (list.length-s) := by
    rw [slice]
    conv_lhs => rw [← List.take_append_drop p (list.take (list.length-s))]
    rw [List.take_take,Nat.min_eq_left (by omega)]
  rw [← inner,List.take_append_drop]

theorem suffix_same (a b : List α) : a.drop (a.length-commonSuffix a b) = b.drop (b.length-commonSuffix a b) := by
  obtain ⟨left,right⟩ := trimmed_le a b
  apply List.ext_getElem?
  intro k
  rw [List.getElem?_drop,List.getElem?_drop]
  by_cases low : k < commonSuffix a b
  · obtain ⟨x,one,two⟩ := suffix_equal low
    rw [one,two]
  · rw [List.getElem?_eq_none (by omega),List.getElem?_eq_none (by omega)]

-- Trimming keeps every line of the two ends in some longest subsequence.
theorem lcs_trimmed (a b : List α) : lcsLength a b = commonPrefix a b+lcsLength (core a b) (core' a b)+commonSuffix a b := by
  obtain ⟨left,right⟩ := trimmed_le a b
  have inner := ((lcs_longest (core a b) (core' a b)).front (a.take (commonPrefix a b))).back (a.drop (a.length-commonSuffix a b))
  have first : a.take (commonPrefix a b) ++ core a b ++ a.drop (a.length-commonSuffix a b) = a := (whole_parts a left).symm
  have second : a.take (commonPrefix a b) ++ core' a b ++ a.drop (a.length-commonSuffix a b) = b := by
    rw [(prefix_common a b).2.2,suffix_same]
    exact (whole_parts b right).symm
  rw [first,second,List.length_take,List.length_drop] at inner
  have same := (lcs_longest a b).unique inner
  omega

def WithinLimit (a b : List α) : Prop :=
  (a.length-(commonPrefix a b+commonSuffix a b))*(b.length-(commonPrefix a b+commonSuffix a b)) ≤ 4000000

theorem middle_length (within : WithinLimit a b) : (middle a b).length = lcsLength (core a b) (core' a b) := by
  obtain ⟨rows_,columns⟩ := core_length a b
  show (withinLimit _ (core a b) (core' a b)).length = _
  rw [withinLimit]
  split
  · rename_i empty
    rw [List.length_nil]
    rcases Bool.or_eq_true_iff.mp empty with none | none
    · rw [List.isEmpty_iff.mp none,nil_lcsLength]
    · rw [List.isEmpty_iff.mp none,lcsLength_nil]
  · rw [if_pos (by rw [rows_,columns]; exact within),matched_eq,walk_length (Nat.le_refl _),List.drop_zero,List.drop_zero]

theorem matching_length (within : WithinLimit a b) : (lcsMatchedPairs a b).length = lcsLength a b := by
  rw [matching_parts,List.length_append,List.length_append,List.length_map,List.length_map,List.length_map,List.length_range,List.length_range,
    middle_length within,lcs_trimmed a b]

-- An entry of the filled table over the two cores.
def tableEntry (a b : List α) (i j : Nat) : Nat :=
  (rows (core a b).length (core' a b).length).read
    (fill (rows (core a b).length (core' a b).length) (core a b) (core' a b)) i j

theorem entry_bound (row : i ≤ (core a b).length) (column : j ≤ (core' a b).length) :
    tableEntry a b i j ≤ (core a b).length-i ∧ tableEntry a b i j ≤ (core' a b).length-j := by
  have is : tableEntry a b i j = lcsLength ((core a b).drop i) ((core' a b).drop j) := fill_read _ row column
  have bounds := (lcs_longest ((core a b).drop i) ((core' a b).drop j)).le
  rw [← is,List.length_drop,List.length_drop] at bounds
  exact bounds

theorem entry_fits (within : WithinLimit a b) (row : i ≤ (core a b).length) (column : j ≤ (core' a b).length) : tableEntry a b i j < 2^32 := by
  obtain ⟨rows_,columns⟩ := core_length a b
  obtain ⟨left,right⟩ := entry_bound row column
  rw [WithinLimit,← rows_,← columns] at within
  by_cases empty : (core' a b).length = 0
  · omega
  · have wide := Nat.le_mul_of_pos_right (core a b).length (Nat.pos_of_ne_zero empty)
    omega

theorem suffix_matched (low : k < commonSuffix a b) : (a.length-1-k,b.length-1-k) ∈ lcsMatchedPairs a b := by
  obtain ⟨left,right⟩ := trimmed_le a b
  have turned := matching_suffix (a := a) (b := b) (k := commonSuffix a b-1-k) (by omega)
  rwa [show a.length-commonSuffix a b+(commonSuffix a b-1-k) = a.length-1-k by omega,
    show b.length-commonSuffix a b+(commonSuffix a b-1-k) = b.length-1-k by omega] at turned

theorem matched_pairs_longest (a b : List α) :
    (lcsMatchedPairs a b).Pairwise (fun p q => p.1 < q.1 ∧ p.2 < q.2) ∧
    (∀ p ∈ lcsMatchedPairs a b, p.1 < a.length ∧ p.2 < b.length ∧ a[p.1]? = b[p.2]?) ∧
    IsGreatest {k | CommonFront a b k} (commonPrefix a b) ∧
    (∀ k < commonPrefix a b, (k,k) ∈ lcsMatchedPairs a b) ∧
    IsGreatest {k | CommonFront (a.drop (commonPrefix a b)).reverse (b.drop (commonPrefix a b)).reverse k} (commonSuffix a b) ∧
    (∀ k < commonSuffix a b, (a.length-1-k,b.length-1-k) ∈ lcsMatchedPairs a b) ∧
    (WithinLimit a b → Longest a b (lcsMatchedPairs a b).length ∧
      ∀ i ≤ (core a b).length, ∀ j ≤ (core' a b).length,
        tableEntry a b i j ≤ (core a b).length-i ∧ tableEntry a b i j ≤ (core' a b).length-j ∧ tableEntry a b i j < 2^32) := by
  have aligned := matching_aligned a b
  refine ⟨aligned.rising,?_,prefix_greatest a b,fun k low => matching_prefix low,prefix_greatest _ _,fun k low => suffix_matched low,?_⟩
  · intro p inside
    obtain ⟨row,column⟩ := aligned.inside inside
    obtain ⟨x,one,two⟩ := aligned.equal p inside
    exact ⟨row,column,one.trans two.symm⟩
  · intro within
    constructor
    · rw [matching_length within]
      exact lcs_longest a b
    · intro i row j column
      obtain ⟨left,right⟩ := entry_bound row column
      exact ⟨left,right,entry_fits within row column⟩

theorem repeated_lines_matched : lcsMatchedPairs ["a","b","a","c","b"] ["a","a","b","a","b"] = [(0,0),(1,2),(2,3),(4,4)] ∧
    Longest ["a","b","a","c","b"] ["a","a","b","a","b"] (lcsMatchedPairs ["a","b","a","c","b"] ["a","a","b","a","b"]).length := by
  refine ⟨by decide +kernel,?_⟩
  have whole := matched_pairs_longest ["a","b","a","c","b"] ["a","a","b","a","b"]
  exact (whole.2.2.2.2.2.2 (by rw [WithinLimit]; decide)).1

end ZkNote.LongestMatching
