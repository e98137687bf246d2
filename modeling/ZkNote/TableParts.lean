import ZkNote.KeyedTable

namespace KeyedTable

-- The rows of one owner in a shared table, and how the statements act on them.
variable {κ ρ γ : Type} [DecidableEq γ] {key : ρ → κ} {t u : Table κ ρ key} {owner : ρ → γ} {g : γ}

def Table.of (owner : ρ → γ) (g : γ) (t : Table κ ρ key) : Table κ ρ key :=
  ⟨t.rows.filter (fun r => decide (owner r = g)),t.unique.sublist (List.filter_sublist.map key)⟩

theorem mem_of : r ∈ (t.of owner g).rows ↔ r ∈ t.rows ∧ owner r = g := by
  simp [Table.of]

theorem of_filter {hit : ρ → Bool} (own : ∀ r ∈ t.rows, hit r = true → owner r = g) :
    (t.of owner g).rows.filter hit = t.rows.filter hit := by
  rw [Table.of,List.filter_filter]
  apply List.filter_congr
  intro r inside
  cases here : hit r with
  | false => rfl
  | true => simp [own r inside here]

theorem of_any {hit : ρ → Bool} (own : ∀ r ∈ t.rows, hit r = true → owner r = g) : (t.of owner g).rows.any hit = t.rows.any hit := by
  rw [Bool.eq_iff_iff,List.any_eq_true,List.any_eq_true]
  constructor
  · rintro ⟨r,inside,here⟩
    exact ⟨r,(mem_of.mp inside).1,here⟩
  · rintro ⟨r,inside,here⟩
    exact ⟨r,mem_of.mpr ⟨inside,own r inside here⟩,here⟩

theorem of_first {hit : ρ → Bool} (own : ∀ r ∈ t.rows, hit r = true → owner r = g) :
    (t.of owner g).rows.find? hit = t.rows.find? hit := by
  rw [← List.head?_filter,← List.head?_filter,of_filter own]

theorem of_delete (doomed : ρ → Bool) : (t.delete doomed).of owner g = (t.of owner g).delete doomed := by
  apply table_ext
  show (t.rows.filter _).filter _ = (t.rows.filter _).filter _
  rw [List.filter_filter,List.filter_filter]
  simp only [Bool.and_comm]

theorem of_delete_other {doomed : ρ → Bool} (theirs : ∀ r, doomed r = true → owner r ≠ g) :
    (t.delete doomed).of owner g = t.of owner g := by
  apply table_ext
  show (t.rows.filter _).filter _ = _
  rw [List.filter_filter]
  apply List.filter_congr
  intro r _
  cases gone : doomed r with
  | false => simp
  | true => simp [theirs r gone]

theorem of_update {hit : ρ → Bool} {change : ρ → ρ} (kept : ∀ r, key (change r) = key r) (same : ∀ r, owner (change r) = owner r) :
    (t.update hit change kept).of owner g = (t.of owner g).update hit change kept := by
  apply table_ext
  show (t.rows.map _).filter _ = (t.rows.filter _).map _
  rw [List.filter_map]
  congr 1
  apply List.filter_congr
  intro r _
  by_cases here : hit r = true <;> simp [here,same]

theorem of_update_other {hit : ρ → Bool} {change : ρ → ρ} (kept : ∀ r, key (change r) = key r) (same : ∀ r, owner (change r) = owner r)
    (theirs : ∀ r, hit r = true → owner r ≠ g) : (t.update hit change kept).of owner g = t.of owner g := by
  rw [of_update kept same]
  apply table_ext
  show (t.of owner g).rows.map _ = (t.of owner g).rows
  conv_rhs => rw [← List.map_id (t.of owner g).rows]
  apply List.map_congr_left
  intro r inside
  exact if_neg (fun here => theirs r here (mem_of.mp inside).2)

variable [DecidableEq κ]

theorem of_find (own : ∀ r ∈ t.rows, key r = k → owner r = g) : (t.of owner g).find k = t.find k :=
  of_first (fun r inside here => own r inside (of_decide_eq_true here))

-- Where rows of one key have one owner, a write is its owner's alone.
theorem of_upsert_own (alike : ∀ x ∈ t.rows, key x = key r → owner x = owner r) (own : owner r = g) :
    (t.upsert r).of owner g = (t.of owner g).upsert r := by
  have known : key r ∈ (t.of owner g).rows.map key ↔ key r ∈ t.rows.map key := by
    simp only [List.mem_map,mem_of]
    constructor
    · rintro ⟨x,⟨inside,_⟩,same⟩
      exact ⟨x,inside,same⟩
    · rintro ⟨x,inside,same⟩
      exact ⟨x,⟨inside,(alike x inside same).trans own⟩,same⟩
  apply table_ext
  show (place key t.rows r).filter _ = place key (t.of owner g).rows r
  by_cases held : key r ∈ t.rows.map key
  · rw [place,place,if_pos held,if_pos (known.mpr held),List.filter_map]
    congr 1
    apply List.filter_congr
    intro x inside
    by_cases same : key x = key r
    · simp [same,own,alike x inside same]
    · simp [same]
  · rw [place,place,if_neg held,if_neg (fun inside => held (known.mp inside)),List.filter_append]
    simp [Table.of,own]

theorem of_upsert_other (alike : ∀ x ∈ t.rows, key x = key r → owner x = owner r) (theirs : owner r ≠ g) :
    (t.upsert r).of owner g = t.of owner g := by
  apply table_ext
  show (place key t.rows r).filter _ = (t.of owner g).rows
  by_cases held : key r ∈ t.rows.map key
  · have kept : t.rows.filter ((fun r => decide (owner r = g)) ∘ fun x => if key x = key r then r else x) = (t.of owner g).rows := by
      apply List.filter_congr
      intro x inside
      by_cases same : key x = key r
      · simp [same,alike x inside same]
      · simp [same]
    rw [place,if_pos held,List.filter_map,kept]
    conv_rhs => rw [← List.map_id (t.of owner g).rows]
    apply List.map_congr_left
    intro x inside
    obtain ⟨inside,own⟩ := mem_of.mp inside
    exact if_neg (fun same => theirs ((alike x inside same).symm.trans own))
  · rw [place,if_neg held,List.filter_append]
    simp [Table.of,theirs]

theorem of_insert_own (alike : ∀ x ∈ t.rows, key x = key r → owner x = owner r) (own : owner r = g) :
    (t.of owner g).insert r = (t.insert r).map (·.of owner g) := by
  have known : (t.of owner g).find (key r) = t.find (key r) := of_find (fun x inside same => (alike x inside same).trans own)
  cases found : t.find (key r) with
  | none => rw [insert_fresh found,insert_fresh (known.trans found),Option.map_some,of_upsert_own alike own]
  | some old =>
      have held : key r ∈ t.rows.map key := find_key found ▸ List.mem_map_of_mem (find_mem found)
      have seen : key r ∈ (t.of owner g).rows.map key := find_key found ▸ List.mem_map_of_mem (find_mem (known.trans found))
      rw [Table.insert,Table.insert,if_pos held,if_pos seen,Option.map_none]

theorem of_insert_other (theirs : owner r ≠ g) (done : t.insert r = some u) : u.of owner g = t.of owner g := by
  obtain ⟨fresh,rfl⟩ := insert_cases done
  apply of_upsert_other _ theirs
  intro x inside same
  exact absurd (same ▸ List.mem_map_of_mem inside) (find_none_iff.mp fresh)

end KeyedTable
