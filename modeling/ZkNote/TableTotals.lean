import Mathlib.Algebra.BigOperators.Group.List.Basic
import Mathlib.Algebra.Ring.Int.Defs
import ZkNote.KeyedTable

namespace KeyedTable

-- What a quantity of the rows comes to over a table.
variable {κ ρ : Type} {key : ρ → κ} {f : ρ → Int}

def Table.total (f : ρ → Int) (t : Table κ ρ key) : Int := (t.rows.map f).sum

@[simp] theorem total_empty : (Table.empty : Table κ ρ key).total f = 0 := rfl

theorem sum_nonneg (rows : List ρ) (nonneg : ∀ r ∈ rows, 0 ≤ f r) : 0 ≤ (rows.map f).sum := by
  induction rows with
  | nil => exact Int.le_refl 0
  | cons r rest ih =>
      have first := nonneg r List.mem_cons_self
      have more := ih (fun x inside => nonneg x (List.mem_cons_of_mem _ inside))
      rw [List.map_cons,List.sum_cons]
      omega

theorem total_nonneg (t : Table κ ρ key) (nonneg : ∀ r ∈ t.rows, 0 ≤ f r) : 0 ≤ t.total f := sum_nonneg t.rows nonneg

-- A row with its neighbours, none of which has its key.
theorem rows_around {t : Table κ ρ key} (inside : r ∈ t.rows) : ∃ before after, t.rows = before ++ r :: after ∧
    (∀ x ∈ before, key x ≠ key r) ∧ ∀ x ∈ after, key x ≠ key r := by
  obtain ⟨before,after,is⟩ := List.append_of_mem inside
  have unique := t.unique
  rw [is,List.map_append,List.map_cons] at unique
  obtain ⟨_,tail,apart⟩ := List.nodup_append.mp unique
  refine ⟨before,after,is,?_,?_⟩
  · intro x member same
    exact apart (key x) (List.mem_map_of_mem member) (key r) List.mem_cons_self same
  · intro x member same
    exact (List.nodup_cons.mp tail).1 (same ▸ List.mem_map_of_mem member)

variable [DecidableEq κ]

theorem total_fresh {t : Table κ ρ key} (fresh : t.find (key r) = none) : (t.upsert r).total f = t.total f + f r := by
  rw [Table.total,upsert_fresh_rows fresh,List.map_append,List.sum_append]
  simp [Table.total]

theorem total_held {t : Table κ ρ key} (held : t.find (key r) = some old) : (t.upsert r).total f = t.total f - f old + f r := by
  obtain ⟨before,after,is,left,right⟩ := rows_around (find_mem held)
  have own : key old = key r := find_key held
  have present : key r ∈ t.rows.map key := List.mem_map.mpr ⟨old,find_mem held,own⟩
  have kept : ∀ rows : List ρ, (∀ x ∈ rows, key x ≠ key old) → rows.map (fun x => if key x = key r then r else x) = rows := by
    intro rows apart
    rw [← own]
    calc rows.map (fun x => if key x = key old then r else x)
        _ = rows.map id := List.map_congr_left (fun x member => if_neg (apart x member))
        _ = rows := List.map_id rows
  have replaced : (t.upsert r).rows = before ++ r :: after := by
    show place key t.rows r = _
    rw [place,if_pos present,is,List.map_append,List.map_cons,kept before left,kept after right,if_pos own]
  rw [Table.total,replaced,Table.total,is]
  simp only [List.map_append,List.map_cons,List.sum_append,List.sum_cons]
  omega

theorem total_delete {t : Table κ ρ key} (held : t.find k = some r) :
    (t.delete (fun x => decide (key x = k))).total f = t.total f - f r := by
  obtain ⟨before,after,is,left,right⟩ := rows_around (find_mem held)
  have own : key r = k := find_key held
  have kept : ∀ rows : List ρ, (∀ x ∈ rows, key x ≠ key r) → rows.filter (fun x => !decide (key x = k)) = rows := by
    intro rows apart
    apply List.filter_eq_self.mpr
    intro x member
    simpa [own] using apart x member
  have remaining : (t.delete (fun x => decide (key x = k))).rows = before ++ after := by
    show t.rows.filter _ = _
    rw [is,List.filter_append,List.filter_cons,kept before left,kept after right]
    simp [own]
  rw [Table.total,remaining,Table.total,is]
  simp only [List.map_append,List.map_cons,List.sum_append,List.sum_cons]
  omega

end KeyedTable
