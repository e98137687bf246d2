import Mathlib.Data.Finset.Card
import Mathlib.Data.Finset.Dedup
import ZkNote.CanonicalText
import ZkNote.NoteMerge
namespace ZkNote.NoteSets
open PlaintextNotes CanonicalText Diff3 NoteMerge

variable {list base mine theirs : List String} {tag : String}

theorem mem_dedup : tag ∈ dedup list ↔ tag ∈ list := by
  induction list with
  | nil => simp [dedup]
  | cons first rest ih =>
      rw [dedup]
      split
      · rename_i same
        rw [ih,List.mem_cons]
        exact ⟨.inr,fun inside => inside.elim (fun is => is ▸ List.mem_of_mem_head? same) id⟩
      · rw [List.mem_cons,List.mem_cons,ih]

-- Neighbours in order and never equal: every later member is strictly greater.
theorem dedup_strict (sorted : list.Pairwise (· ≤ ·)) : (dedup list).Pairwise (· < ·) := by
  induction list with
  | nil => simp [dedup]
  | cons first rest ih =>
      obtain ⟨least,rest_sorted⟩ := List.pairwise_cons.mp sorted
      rw [dedup]
      split
      · exact ih rest_sorted
      · rename_i other
        refine List.pairwise_cons.mpr ⟨fun tag inside => ?_,ih rest_sorted⟩
        have inside := mem_dedup.mp inside
        refine lt_of_le_of_ne (least tag inside) (fun same => other ?_)
        subst same
        cases rest with
        | nil => cases inside
        | cons second rest =>
            have low := least second List.mem_cons_self
            have high : second ≤ first := by
              rcases List.mem_cons.mp inside with rfl | later
              · exact le_rfl
              · exact (List.pairwise_cons.mp rest_sorted).1 _ later
            rw [List.head?_cons,le_antisymm high low]

theorem mem_ordered : tag ∈ ordered list ↔ tag ∈ list := by
  rw [ordered,mem_dedup]
  exact (List.perm_insertionSort _ _).mem_iff

theorem ordered_strict (list : List String) : (ordered list).Pairwise (· < ·) :=
  dedup_strict (List.pairwise_insertionSort _ _)

-- Two ordered lists with the same members are the same list.
theorem strict_ext {xs ys : List String} (left : xs.Pairwise (· < ·)) (right : ys.Pairwise (· < ·)) (same : ∀ tag, tag ∈ xs ↔ tag ∈ ys) : xs = ys :=
  List.Perm.eq_of_pairwise' (left.imp le_of_lt) (right.imp le_of_lt)
    ((List.perm_ext_iff_of_nodup (left.imp (fun less => ne_of_lt less)) (right.imp (fun less => ne_of_lt less))).mpr same)

-- What a three-way merge of sets keeps.
def survivors (base mine theirs : Finset String) : Finset String := (base ∩ mine ∩ theirs) ∪ ((mine ∪ theirs) \ base)

theorem kept_iff : (tag ∈ base ++ mine ++ theirs ∧ kept base mine theirs tag = true) ↔
    tag ∈ survivors base.toFinset mine.toFinset theirs.toFinset := by
  by_cases inBase : tag ∈ base <;> by_cases inMine : tag ∈ mine <;> by_cases inTheirs : tag ∈ theirs <;>
    simp [kept,survivors,inBase,inMine,inTheirs]

theorem mem_mergeAttachments : tag ∈ mergeAttachments base mine theirs ↔ tag ∈ survivors base.toFinset mine.toFinset theirs.toFinset := by
  rw [mergeAttachments,List.mem_filter,mem_ordered,kept_iff]

theorem mergeAttachments_strict : (mergeAttachments base mine theirs).Pairwise (· < ·) :=
  (ordered_strict _).filter _

def foldedTags (lower : String → String) (tags : List String) : Finset String := (tags.map (foldTag lower)).toFinset

theorem mem_mergeTags {lower : String → String} : tag ∈ mergeTags lower base mine theirs ↔
    tag ≠ "" ∧ tag ∈ survivors (foldedTags lower base) (foldedTags lower mine) (foldedTags lower theirs) := by
  simp only [mergeTags,List.mem_filter,mem_ordered,Bool.and_eq_true,decide_eq_true_eq]
  rw [and_left_comm,kept_iff]
  rfl

theorem mergeTags_strict {lower : String → String} : (mergeTags lower base mine theirs).Pairwise (· < ·) :=
  (ordered_strict _).filter _

theorem mem_canonicalTags {lower : String → String} : tag ∈ canonicalTags lower list ↔ tag ≠ "" ∧ tag ∈ foldedTags lower list := by
  rw [canonicalTags,mem_dedup,(List.perm_insertionSort _ _).mem_iff]
  simp only [List.mem_filter,decide_eq_true_eq,foldedTags,List.mem_toFinset]
  exact and_comm

-- Tags in canonical form, as a set.
def refolded (lower : String → String) (tags : Finset String) : Finset String := (tags.image (foldTag lower)).erase ""

theorem mem_refolded {lower : String → String} {set : Finset String} (same : ∀ tag, tag ∈ list ↔ tag ∈ set) (tag : String) :
    tag ∈ canonicalTags lower list ↔ tag ∈ refolded lower set := by
  rw [mem_canonicalTags,refolded,Finset.mem_erase,foldedTags,List.mem_toFinset,List.mem_map,Finset.mem_image]
  simp only [same]

theorem canonicalTags_strict {lower : String → String} : (canonicalTags lower list).Pairwise (· < ·) :=
  dedup_strict (List.pairwise_insertionSort _ _)

-- Tags that are folded, filled and in order are canonical already.
theorem tags_again {lower : String → String} (strict : list.Pairwise (· < ·)) (folded : ∀ tag ∈ list, tag ≠ "" ∧ foldTag lower tag = tag) :
    canonicalTags lower list = list := by
  refine strict_ext canonicalTags_strict strict (fun tag => ?_)
  rw [mem_canonicalTags,foldedTags,List.mem_toFinset,List.mem_map]
  constructor
  · rintro ⟨_,tag',inside,rfl⟩
    rw [(folded tag' inside).2]
    exact inside
  · exact fun inside => ⟨(folded tag inside).1,tag,inside,(folded tag inside).2⟩

section
variable {lower : String → String} (stable : ∀ tag, foldTag lower (foldTag lower tag) = foldTag lower tag)
include stable

theorem canonical_folded (inside : tag ∈ canonicalTags lower list) : tag ≠ "" ∧ foldTag lower tag = tag := by
  obtain ⟨some_,there⟩ := mem_canonicalTags.mp inside
  obtain ⟨tag',_,rfl⟩ := List.mem_map.mp (List.mem_toFinset.mp there)
  exact ⟨some_,stable tag'⟩

theorem canonicalize_again (note : PlaintextNote) : (note.canonicalize lower).canonicalize lower = note.canonicalize lower := by
  have title := stripBom_of_head (stripBom_head note.title)
  have tags := tags_again (@canonicalTags_strict note.tags lower) (fun _ inside => canonical_folded stable inside)
  unfold PlaintextNote.canonicalize
  dsimp only
  rw [title,canonical_body,tags]

end

theorem strict_length {xs : List String} (strict : xs.Pairwise (· < ·)) : xs.length = xs.toFinset.card :=
  (List.toFinset_card_of_nodup (strict.imp (fun less => ne_of_lt less))).symm

end ZkNote.NoteSets
