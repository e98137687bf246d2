import ZkNote.LcsGrid

namespace ZkNote.Alignments
open LcsGrid

variable {α : Type} {a b : List α} {pairs : List (Nat × Nat)} {p q : Nat × Nat}

-- Both positions of a pair lie before those of a later one.
def Before (p q : Nat × Nat) : Prop := p.1 < q.1 ∧ p.2 < q.2

-- Positions of two lists that hold equal elements, rising on both sides.
structure Aligned (a b : List α) (pairs : List (Nat × Nat)) : Prop where
  rising : pairs.Pairwise Before
  equal : ∀ p ∈ pairs, ∃ x, a[p.1]? = some x ∧ b[p.2]? = some x

theorem Aligned.nil : Aligned a b [] := ⟨.nil,by simp⟩

theorem Aligned.cons (later : ∀ q ∈ pairs, Before p q) (same : ∃ x, a[p.1]? = some x ∧ b[p.2]? = some x) (rest : Aligned a b pairs) :
    Aligned a b (p :: pairs) :=
  ⟨List.pairwise_cons.mpr ⟨later,rest.rising⟩,List.forall_mem_cons.mpr ⟨same,rest.equal⟩⟩

theorem Aligned.append {left right : List (Nat × Nat)} (one : Aligned a b left) (two : Aligned a b right)
    (apart : ∀ p ∈ left, ∀ q ∈ right, Before p q) : Aligned a b (left ++ right) := by
  refine ⟨List.pairwise_append.mpr ⟨one.rising,two.rising,apart⟩,?_⟩
  intro p inside
  rcases List.mem_append.mp inside with first | second
  · exact one.equal p first
  · exact two.equal p second

theorem Aligned.inside (aligned : Aligned a b pairs) (member : p ∈ pairs) : p.1 < a.length ∧ p.2 < b.length := by
  obtain ⟨x,left,right⟩ := aligned.equal p member
  exact ⟨(List.getElem?_eq_some_iff.mp left).1,(List.getElem?_eq_some_iff.mp right).1⟩

theorem rising_apart (rising : pairs.Pairwise Before) (one : p ∈ pairs) (two : q ∈ pairs) : p = q ∨ Before p q ∨ Before q p := by
  induction pairs with
  | nil => cases one
  | cons first rest ih =>
      obtain ⟨least,later⟩ := List.pairwise_cons.mp rising
      rcases List.mem_cons.mp one with rfl | early
      · rcases List.mem_cons.mp two with rfl | late
        · exact .inl rfl
        · exact .inr (.inl (least q late))
      · rcases List.mem_cons.mp two with rfl | late
        · exact .inr (.inr (least p early))
        · exact ih later early late

-- A position is matched at most once, on either side.
theorem rising_first (rising : pairs.Pairwise Before) (one : p ∈ pairs) (two : q ∈ pairs) (same : p.1 = q.1) : p = q := by
  rcases rising_apart rising one two with is | less | less
  · exact is
  · exact absurd same (Nat.ne_of_lt less.1)
  · exact absurd same.symm (Nat.ne_of_lt less.1)

theorem lookup_iff {table : List (Nat × Nat)} (unique : ∀ p ∈ table, ∀ q ∈ table, p.1 = q.1 → p = q) (k v : Nat) :
    table.lookup k = some v ↔ (k,v) ∈ table := by
  constructor
  · intro found
    obtain ⟨front,back,rfl,_⟩ := List.lookup_eq_some_iff.mp found
    simp
  · intro inside
    cases found : table.lookup k with
    | none => simpa using List.lookup_eq_none_iff.mp found (k,v) inside
    | some w =>
        obtain ⟨front,back,is,_⟩ := List.lookup_eq_some_iff.mp found
        have other : (k,w) ∈ table := by rw [is]; simp
        exact congrArg (fun p => some p.2) (unique (k,w) other (k,v) inside rfl)

section
variable [DecidableEq α]

theorem prefix_le (a b : List α) : commonPrefix a b ≤ a.length ∧ commonPrefix a b ≤ b.length := by
  induction a generalizing b with
  | nil => simp [commonPrefix]
  | cons x xs ih =>
      cases b with
      | nil => simp [commonPrefix]
      | cons y ys =>
          unfold commonPrefix
          split
          · have rest := ih ys
            simp only [List.length_cons]
            omega
          · simp

theorem prefix_equal {a b : List α} {k : Nat} (low : k < commonPrefix a b) : ∃ x, a[k]? = some x ∧ b[k]? = some x := by
  induction a generalizing b k with
  | nil => simp [commonPrefix] at low
  | cons x xs ih =>
      cases b with
      | nil => simp [commonPrefix] at low
      | cons y ys =>
          unfold commonPrefix at low
          split at low
          · rename_i same
            cases k with
            | zero => exact ⟨x,rfl,by rw [same]; rfl⟩
            | succ k => exact ih (Nat.lt_of_succ_lt_succ low)
          · cases low

-- The prefix ends where a list does, or where they differ.
theorem prefix_stops {a b : List α} (left : commonPrefix a b < a.length) (right : commonPrefix a b < b.length) :
    a[commonPrefix a b]? ≠ b[commonPrefix a b]? := by
  induction a generalizing b with
  | nil => cases left
  | cons x xs ih =>
      cases b with
      | nil => cases right
      | cons y ys =>
          unfold commonPrefix at left right ⊢
          split
          · rename_i same
            rw [if_pos same] at left right
            simpa using ih (by simpa using left) (by simpa using right)
          · rename_i differ
            simpa using differ

theorem prefix_append (front xs ys : List α) : commonPrefix (front ++ xs) (front ++ ys) = front.length+commonPrefix xs ys := by
  induction front with
  | nil => simp
  | cons x front ih =>
      rw [List.cons_append,List.cons_append,commonPrefix,if_pos rfl,ih,List.length_cons]
      omega

theorem prefix_self (a : List α) : commonPrefix a a = a.length := by
  have whole := prefix_append a [] []
  rwa [List.append_nil] at whole

section
variable {read : Nat → Nat → Nat} {fuel i j : Nat}

theorem walk_from (inside : p ∈ walk a b read fuel i j) : i ≤ p.1 ∧ j ≤ p.2 := by
  induction fuel generalizing i j with
  | zero => cases inside
  | succ fuel ih =>
      unfold walk at inside
      split at inside
      · split at inside
        · rcases List.mem_cons.mp inside with rfl | later
          · exact ⟨Nat.le_refl i,Nat.le_refl j⟩
          · have bound := ih later
            omega
        · split at inside
          · have bound := ih inside
            omega
          · have bound := ih inside
            omega
      · cases inside

theorem walk_aligned : Aligned a b (walk a b read fuel i j) := by
  induction fuel generalizing i j with
  | zero => exact .nil
  | succ fuel ih =>
      unfold walk
      split
      · rename_i range
        split
        · rename_i same
          refine .cons (fun q later => ?_) ⟨a[i],List.getElem?_eq_getElem range.1,?_⟩ ih
          · have bound := walk_from later
            exact ⟨by omega,by omega⟩
          · rw [← same]
            exact List.getElem?_eq_getElem range.1
        · split
          · exact ih
          · exact ih
      · exact .nil

theorem walk_head (left : i < a.length) (right : j < b.length) (same : a[i]? = b[j]?) (enough : 0 < fuel) :
    (i,j) ∈ walk a b read fuel i j := by
  cases fuel with
  | zero => cases enough
  | succ fuel =>
      rw [walk,if_pos ⟨left,right⟩,if_pos same]
      exact List.mem_cons_self

-- After a match, neighbours that are equal again are matched too.
theorem walk_onward {u v : Nat} (enough : a.length+b.length ≤ fuel+i+j) (inside : (u,v) ∈ walk a b read fuel i j)
    (left : u+1 < a.length) (right : v+1 < b.length) (same : a[u+1]? = b[v+1]?) : (u+1,v+1) ∈ walk a b read fuel i j := by
  induction fuel generalizing i j with
  | zero => cases inside
  | succ fuel ih =>
      unfold walk at inside ⊢
      split
      · rename_i range
        rw [if_pos range] at inside
        split
        · rename_i here
          rw [if_pos here] at inside
          rcases List.mem_cons.mp inside with is | later
          · obtain ⟨rfl,rfl⟩ := Prod.mk.inj is
            exact List.mem_cons_of_mem _ (walk_head left right same (by omega))
          · exact List.mem_cons_of_mem _ (ih (by omega) later)
        · rename_i differ
          rw [if_neg differ] at inside
          split
          · rename_i down
            rw [if_pos down] at inside
            exact ih (by omega) inside
          · rename_i across
            rw [if_neg across] at inside
            exact ih (by omega) inside
      · rename_i outside
        rw [if_neg outside] at inside
        cases inside

end

end

end ZkNote.Alignments
