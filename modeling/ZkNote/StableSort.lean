import Mathlib.Data.List.Sort

namespace StableSort

-- Insertion sort keeps tied elements in the order they came in. Sorting by `r`
-- what is already sorted by `s` sorts by `r` with ties broken by `s`.
variable {α : Type} {r s : α → α → Prop} {l sorted target : List α}

def Then (r s : α → α → Prop) (a b : α) : Prop := r a b ∧ (r b a → s a b)

theorem pair_of_mem (first : a ∈ l) (second : b ∈ l) (apart : a ≠ b) : [a,b].Sublist l ∨ [b,a].Sublist l := by
  induction l with
  | nil => cases first
  | cons x rest ih =>
      rcases List.mem_cons.mp first with rfl | inside
      · rcases List.mem_cons.mp second with rfl | later
        · exact absurd rfl apart
        · exact .inl ((List.singleton_sublist.mpr later).cons_cons a)
      · rcases List.mem_cons.mp second with rfl | later
        · exact .inr ((List.singleton_sublist.mpr inside).cons_cons b)
        · exact (ih inside later).imp (fun pair => pair.cons x) (fun pair => pair.cons x)

theorem one_way (nodup : l.Nodup) (forth : [a,b].Sublist l) (back : [b,a].Sublist l) : False := by
  induction l with
  | nil => cases forth
  | cons x rest ih =>
      obtain ⟨absent,distinct⟩ := List.nodup_cons.mp nodup
      cases forth with
      | cons _ forth =>
          cases back with
          | cons _ back => exact ih distinct forth back
          | cons_cons _ back => exact absent (forth.subset (by simp))
      | cons_cons _ forth =>
          cases back with
          | cons _ back => exact absent (back.subset (by simp))
          | cons_cons _ back => exact absent (forth.subset (by simp))

variable [DecidableRel r] [Std.Total r] [IsTrans α r]

theorem sorted_iff : l.insertionSort r = l ↔ l.Pairwise r := by
  constructor
  · intro same
    exact same ▸ List.pairwise_insertionSort r l
  · exact fun pairwise => pairwise.insertionSort_eq

variable [Std.Total s]

theorem resorted (ordered : sorted.Pairwise s) (nodup : sorted.Nodup) : (sorted.insertionSort r).Pairwise (Then r s) := by
  rw [List.pairwise_iff_forall_sublist]
  intro a b pair
  refine ⟨List.pairwise_iff_forall_sublist.mp (List.pairwise_insertionSort r sorted) pair,?_⟩
  intro tied
  have unique : (sorted.insertionSort r).Nodup := (List.perm_insertionSort r sorted).nodup_iff.mpr nodup
  have members : a ∈ sorted ∧ b ∈ sorted := by
    constructor
    · exact (List.mem_insertionSort r).mp (pair.subset (by simp))
    · exact (List.mem_insertionSort r).mp (pair.subset (by simp))
  by_cases same : a = b
  · subst same
    exact (Std.Total.total (r := s) a a).elim id id
  · rcases pair_of_mem members.1 members.2 same with before | behind
    · exact List.pairwise_iff_forall_sublist.mp ordered before
    · exact (one_way unique pair (List.pair_sublist_insertionSort tied behind)).elim

theorem resorted_iff (ordered : sorted.Pairwise s) (nodup : sorted.Nodup) (perm : target.Perm sorted)
    (antisymm : ∀ a ∈ sorted, ∀ b ∈ sorted, s a b → s b a → a = b) :
    sorted.insertionSort r = target ↔ target.Pairwise (Then r s) := by
  constructor
  · intro same
    exact same ▸ resorted ordered nodup
  · intro pairwise
    refine List.Perm.eq_of_pairwise ?_ (resorted ordered nodup) pairwise ((List.perm_insertionSort r sorted).trans perm.symm)
    intro a b first second forth back
    exact antisymm a ((List.mem_insertionSort r).mp first) b (perm.subset second) (forth.2 back.1) (back.2 forth.1)

end StableSort
