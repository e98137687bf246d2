import Mathlib.Data.List.Basic
import Mathlib.Order.Basic
import Mathlib.Order.Nat

namespace ZkNote.LcsGrid

variable {α S : Type} [DecidableEq α] {n m : Nat} {a b : List α}

-- A table of numbers with rows `0..n` and columns `0..m`, all zero at first.
structure Grid (S : Type) (n m : Nat) where
  blank : S
  read : S → Nat → Nat → Nat
  write : S → Nat → Nat → Nat → S
  read_blank : ∀ i j, i ≤ n → j ≤ m → read blank i j = 0
  read_write : ∀ s i j v i' j', i ≤ n → j ≤ m → i' ≤ n → j' ≤ m →
    read (write s i j v) i' j' = if i' = i ∧ j' = j then v else read s i' j'

def commonPrefix : List α → List α → Nat
  | x :: xs,y :: ys => if x = y then commonPrefix xs ys+1 else 0
  | _,_ => 0

def lcsLength : List α → List α → Nat
  | x :: xs,y :: ys => if x = y then lcsLength xs ys+1 else max (lcsLength xs (y :: ys)) (lcsLength (x :: xs) ys)
  | _,_ => 0
termination_by xs ys => xs.length+ys.length

section
variable (grid : Grid S n m) (a b : List α)

def cell (s : S) (i j : Nat) : Nat :=
  if a[i]? = b[j]? then 1+grid.read s (i+1) (j+1) else max (grid.read s (i+1) j) (grid.read s i (j+1))

-- Columns from the last to the first, then rows from the last to the first.
def fillRow (s : S) (i : Nat) : Nat → S
  | 0 => s
  | j+1 => fillRow (grid.write s i j (cell grid a b s i j)) i j

def fillRows (s : S) : Nat → S
  | 0 => s
  | i+1 => fillRows (fillRow grid a b s i m) i

def fill : S := fillRows grid a b grid.blank n

-- The walk along the table, with steps for as long as both lists last.
def walk (read : Nat → Nat → Nat) : Nat → Nat → Nat → List (Nat × Nat)
  | 0,_,_ => []
  | fuel+1,i,j =>
    if i < a.length ∧ j < b.length then
      if a[i]? = b[j]? then (i,j) :: walk read fuel (i+1) (j+1)
      else if read i (j+1) ≤ read (i+1) j then walk read fuel (i+1) j
      else walk read fuel i (j+1)
    else []

def matched (grid : Grid S a.length b.length) : List (Nat × Nat) :=
  walk a b (grid.read (fill grid a b)) (a.length+b.length) 0 0

end

-- The cells that the loops have reached when the next one is row `i`, column `j`:
-- the last row and the last column stay zero.
def Filled (grid : Grid S n m) (a b : List α) (s : S) (i j : Nat) : Prop :=
  ∀ i' j', i' ≤ n → j' ≤ m → (i < i' ∨ i' = i ∧ j ≤ j' ∨ j' = m ∨ i' = n) →
    grid.read s i' j' = lcsLength (a.drop i') (b.drop j')

theorem lcsLength_nil (xs : List α) : lcsLength xs [] = 0 := by
  cases xs <;> simp [lcsLength]

theorem nil_lcsLength (ys : List α) : lcsLength [] ys = 0 := by
  simp [lcsLength]

theorem cell_filled {grid : Grid S a.length b.length} {s : S} {i j : Nat} (row : i < a.length) (column : j < b.length)
    (filled : Filled grid a b s i (j+1)) : cell grid a b s i j = lcsLength (a.drop i) (b.drop j) := by
  have across := filled (i+1) (j+1) row column (.inl (Nat.lt_succ_self i))
  have down := filled (i+1) j row column.le (.inl (Nat.lt_succ_self i))
  have right := filled i (j+1) row.le column (.inr (.inl ⟨rfl,le_rfl⟩))
  have tops : a.drop i = a[i] :: a.drop (i+1) := List.drop_eq_getElem_cons row
  have sides : b.drop j = b[j] :: b.drop (j+1) := List.drop_eq_getElem_cons column
  unfold cell
  rw [across,down,right,tops,sides,List.getElem?_eq_getElem row,List.getElem?_eq_getElem column]
  conv_rhs => rw [lcsLength]
  simp only [Option.some.injEq]
  split
  · exact Nat.add_comm _ _
  · rfl

theorem row_filled {grid : Grid S a.length b.length} {s : S} {i : Nat} (row : i < a.length) (j : Nat) (column : j ≤ b.length)
    (filled : Filled grid a b s i j) : Filled grid a b (fillRow grid a b s i j) i 0 := by
  induction j generalizing s with
  | zero => exact filled
  | succ j ih =>
      refine ih (Nat.le_of_succ_le column) (fun i' j' rows columns reached => ?_)
      rw [grid.read_write _ _ _ _ _ _ row.le (Nat.le_of_succ_le column) rows columns]
      split
      · rename_i here
        rw [cell_filled row column filled,here.1,here.2]
      · rename_i elsewhere
        refine filled i' j' rows columns ?_
        rcases reached with below | ⟨same,after⟩ | edge
        · exact .inl below
        · exact .inr (.inl ⟨same,Nat.lt_of_le_of_ne after (fun is => elsewhere ⟨same,is.symm⟩)⟩)
        · exact .inr (.inr edge)

theorem rows_filled {grid : Grid S a.length b.length} {s : S} (i : Nat) (rows : i ≤ a.length)
    (filled : ∀ i' j', i' ≤ a.length → j' ≤ b.length → (i ≤ i' ∨ j' = b.length) → grid.read s i' j' = lcsLength (a.drop i') (b.drop j')) :
    ∀ i' j', i' ≤ a.length → j' ≤ b.length → grid.read (fillRows grid a b s i) i' j' = lcsLength (a.drop i') (b.drop j') := by
  induction i generalizing s with
  | zero => exact fun i' j' row column => filled i' j' row column (.inl (Nat.zero_le i'))
  | succ i ih =>
      have reached : Filled grid a b s i b.length := by
        intro i' j' row column known
        refine filled i' j' row column ?_
        omega
      have done := row_filled rows b.length le_rfl reached
      exact ih (Nat.le_of_succ_le rows) (fun i' j' row column known => done i' j' row column (by omega))

-- Whatever the table is kept in, it holds the lengths for all pairs of suffixes.
theorem fill_read (grid : Grid S a.length b.length) {i j : Nat} (row : i ≤ a.length) (column : j ≤ b.length) :
    grid.read (fill grid a b) i j = lcsLength (a.drop i) (b.drop j) := by
  refine rows_filled a.length le_rfl (fun i' j' rows columns edge => ?_) i j row column
  rw [grid.read_blank i' j' rows columns]
  rcases edge with last | last
  · rw [List.drop_eq_nil_of_le last,nil_lcsLength]
  · rw [last,List.drop_length,lcsLength_nil]

theorem walk_reads {read read' : Nat → Nat → Nat} (same : ∀ i j, i ≤ a.length → j ≤ b.length → read i j = read' i j) (fuel i j : Nat) :
    walk a b read fuel i j = walk a b read' fuel i j := by
  induction fuel generalizing i j with
  | zero => rfl
  | succ fuel ih =>
      unfold walk
      split
      · rename_i inside
        rw [same i (j+1) inside.1.le inside.2,same (i+1) j inside.1 inside.2.le,ih,ih,ih]
      · rfl

theorem matched_eq (grid : Grid S a.length b.length) :
    matched a b grid = walk a b (fun i j => lcsLength (a.drop i) (b.drop j)) (a.length+b.length) 0 0 :=
  walk_reads (fun _ _ row column => fill_read grid row column) _ _ _

end ZkNote.LcsGrid
