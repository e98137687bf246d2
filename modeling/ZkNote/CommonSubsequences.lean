import Mathlib.Data.List.Basic
import Mathlib.Order.Bounds.Basic

namespace CommonSubsequences

-- The longest common subsequences of two lists, by the length they have.
variable {α : Type} {x y : α} {a b xs ys : List α} {n m : Nat}

def Common (a b : List α) (n : Nat) : Prop := ∃ l : List α, l.Sublist a ∧ l.Sublist b ∧ l.length = n

def Longest (a b : List α) (n : Nat) : Prop := IsGreatest {k | Common a b k} n

theorem Longest.unique (one : Longest a b n) (two : Longest a b m) : n = m := IsGreatest.unique one two

theorem Longest.le (longest : Longest a b n) : n ≤ a.length ∧ n ≤ b.length := by
  obtain ⟨l,left,right,rfl⟩ := longest.1
  exact ⟨left.length_le,right.length_le⟩

theorem Longest.nil_left (b : List α) : Longest [] b 0 := by
  refine ⟨⟨[],List.nil_sublist _,List.nil_sublist _,rfl⟩,?_⟩
  rintro k ⟨l,left,_,rfl⟩
  exact left.length_le

theorem Longest.nil_right (a : List α) : Longest a [] 0 := by
  refine ⟨⟨[],List.nil_sublist _,List.nil_sublist _,rfl⟩,?_⟩
  rintro k ⟨l,_,right,rfl⟩
  exact right.length_le

theorem Longest.same (x : α) (rest : Longest xs ys n) : Longest (x :: xs) (x :: ys) (n+1) := by
  constructor
  · obtain ⟨l,left,right,length⟩ := rest.1
    exact ⟨x :: l,left.cons_cons x,right.cons_cons x,congrArg (· + 1) length⟩
  · rintro k ⟨l,left,right,rfl⟩
    have within : l.tail.length ≤ n := rest.2 ⟨l.tail,left.tail,right.tail,rfl⟩
    rw [List.length_tail] at within
    omega

-- A common subsequence starts with at most one of two different heads.
theorem Longest.apart (differ : x ≠ y) (down : Longest xs (y :: ys) n) (across : Longest (x :: xs) ys m) :
    Longest (x :: xs) (y :: ys) (max n m) := by
  constructor
  · rcases Nat.le_total m n with less | more
    · obtain ⟨l,left,right,length⟩ := down.1
      exact ⟨l,left.cons x,right,length.trans (Nat.max_eq_left less).symm⟩
    · obtain ⟨l,left,right,length⟩ := across.1
      exact ⟨l,left,right.cons y,length.trans (Nat.max_eq_right more).symm⟩
  · rintro k ⟨l,left,right,rfl⟩
    rcases List.sublist_cons_iff.mp left with inside | ⟨rest,rfl,inside⟩
    · exact (down.2 ⟨l,inside,right,rfl⟩).trans (Nat.le_max_left n m)
    · rcases List.sublist_cons_iff.mp right with beside | ⟨rest',is,beside⟩
      · exact (across.2 ⟨_,left,beside,rfl⟩).trans (Nat.le_max_right n m)
      · exact absurd (List.cons.inj is).1 differ

theorem Common.reverse (common : Common a b n) : Common a.reverse b.reverse n := by
  obtain ⟨l,left,right,rfl⟩ := common
  exact ⟨l.reverse,left.reverse,right.reverse,List.length_reverse⟩

theorem Longest.reverse (longest : Longest a b n) : Longest a.reverse b.reverse n := by
  refine ⟨longest.1.reverse,?_⟩
  intro k common
  have turned := Common.reverse common
  rw [List.reverse_reverse,List.reverse_reverse] at turned
  exact longest.2 turned

theorem Longest.front (front : List α) (rest : Longest a b n) : Longest (front ++ a) (front ++ b) (front.length+n) := by
  induction front with
  | nil =>
      rw [List.length_nil,Nat.zero_add]
      exact rest
  | cons x front ih =>
      have one := ih.same x
      rw [List.length_cons,Nat.add_right_comm]
      exact one

theorem Longest.back (back : List α) (rest : Longest a b n) : Longest (a ++ back) (b ++ back) (n+back.length) := by
  have turned := (rest.reverse.front back.reverse).reverse
  rw [List.reverse_append,List.reverse_append,List.reverse_reverse,List.reverse_reverse,List.reverse_reverse,List.length_reverse,Nat.add_comm] at turned
  exact turned

end CommonSubsequences
