import Mathlib.Data.List.Nodup

namespace KeyedTable

-- A table with a primary key. Rows stay in insertion order; uniqueness of the
-- key is a field, so no operation can build a table that holds a key twice.
structure Table (κ ρ : Type) (key : ρ → κ) where
  rows : List ρ
  unique : (rows.map key).Nodup

variable {κ ρ : Type} {key : ρ → κ}

def Table.empty : Table κ ρ key := ⟨[],by simp⟩

def Table.delete (t : Table κ ρ key) (doomed : ρ → Bool) : Table κ ρ key :=
  ⟨t.rows.filter (fun r => !doomed r),t.unique.sublist (List.filter_sublist.map key)⟩

theorem mem_delete {t : Table κ ρ key} : x ∈ (t.delete doomed).rows ↔ x ∈ t.rows ∧ doomed x = false := by
  simp [Table.delete]

-- UPDATE .. WHERE; the key is none of the columns it sets.
def Table.update (t : Table κ ρ key) (hit : ρ → Bool) (change : ρ → ρ) (kept : ∀ r, key (change r) = key r) : Table κ ρ key where
  rows := t.rows.map (fun r => if hit r then change r else r)
  unique := by
    have same : key ∘ (fun r => if hit r then change r else r) = key := by
      funext r
      by_cases here : hit r = true <;> simp [here,kept]
    rw [List.map_map,same]
    exact t.unique

theorem mem_update {t : Table κ ρ key} {kept : ∀ r, key (change r) = key r} :
    x ∈ (t.update hit change kept).rows ↔ ∃ r ∈ t.rows, x = if hit r then change r else r := by
  simp only [Table.update,List.mem_map]
  exact ⟨fun ⟨r,inside,is⟩ => ⟨r,inside,is.symm⟩,fun ⟨r,inside,is⟩ => ⟨r,inside,is.symm⟩⟩

variable [DecidableEq κ]

def Table.find (t : Table κ ρ key) (k : κ) : Option ρ :=
  t.rows.find? (fun r => decide (key r = k))

-- The rows after an upsert: replaced where the key is held, else appended.
def place (key : ρ → κ) (rows : List ρ) (r : ρ) : List ρ :=
  if key r ∈ rows.map key then rows.map (fun x => if key x = key r then r else x)
  else rows ++ [r]

theorem place_keys (rows : List ρ) (r : ρ) :
    (rows.map (fun x => if key x = key r then r else x)).map key = rows.map key := by
  rw [List.map_map]
  apply List.map_congr_left
  intro x _
  by_cases same : key x = key r <;> simp [same]

theorem place_unique {rows : List ρ} (unique : (rows.map key).Nodup) (r : ρ) :
    ((place key rows r).map key).Nodup := by
  unfold place
  split
  · rw [place_keys rows r]; exact unique
  · rename_i fresh
    simp only [List.map_append,List.map_cons,List.map_nil]
    exact List.nodup_append.mpr ⟨unique,by simp,by
      intro a inside b single equal
      rw [List.mem_singleton.mp single] at equal
      exact fresh (equal ▸ inside)⟩

def Table.upsert (t : Table κ ρ key) (r : ρ) : Table κ ρ key :=
  ⟨place key t.rows r,place_unique t.unique r⟩

-- INSERT without a conflict clause: refused when the key is already held.
def Table.insert (t : Table κ ρ key) (r : ρ) : Option (Table κ ρ key) :=
  if key r ∈ t.rows.map key then none else some (t.upsert r)

@[simp] theorem find_empty (k : κ) : (Table.empty : Table κ ρ key).find k = none := rfl

theorem find_key {t : Table κ ρ key} (found : t.find k = some r) : key r = k := by
  simpa using List.find?_some found

theorem find_mem {t : Table κ ρ key} (found : t.find k = some r) : r ∈ t.rows :=
  List.mem_of_find?_eq_some found

theorem find_none_iff {t : Table κ ρ key} : t.find k = none ↔ k ∉ t.rows.map key := by
  simp [Table.find,List.find?_eq_none]

theorem rows_find {rows : List ρ} (unique : (rows.map key).Nodup) (member : r ∈ rows) :
    rows.find? (fun x => decide (key x = key r)) = some r := by
  induction rows with
  | nil => cases member
  | cons x rest ih =>
      simp only [List.map_cons,List.nodup_cons] at unique
      rcases List.mem_cons.mp member with rfl | later
      · simp
      · have different : key x ≠ key r := fun equal =>
          unique.1 (equal ▸ List.mem_map_of_mem later)
        simpa [different] using ih unique.2 later

theorem mem_iff_find {t : Table κ ρ key} : r ∈ t.rows ↔ t.find (key r) = some r :=
  ⟨rows_find t.unique,find_mem⟩

theorem mem_find {t : Table κ ρ key} (member : r ∈ t.rows) (same : key r = k) : t.find k = some r :=
  same ▸ mem_iff_find.mp member

theorem mem_place (rows : List ρ) (r x : ρ) :
    x ∈ place key rows r ↔ x = r ∨ (x ∈ rows ∧ key x ≠ key r) := by
  unfold place
  split
  · rename_i held
    constructor
    · intro member
      obtain ⟨y,inside,rfl⟩ := List.mem_map.mp member
      by_cases same : key y = key r
      · simp [same]
      · exact .inr ⟨by simpa [same] using inside,by simp [same]⟩
    · rintro (rfl | ⟨inside,other⟩)
      · obtain ⟨y,inside,same⟩ := List.mem_map.mp held
        exact List.mem_map.mpr ⟨y,inside,by simp [same]⟩
      · exact List.mem_map.mpr ⟨x,inside,by simp [other]⟩
  · rename_i fresh
    constructor
    · intro member
      rcases List.mem_append.mp member with inside | last
      · exact .inr ⟨inside,fun same => fresh (same ▸ List.mem_map_of_mem inside)⟩
      · exact .inl (List.mem_singleton.mp last)
    · rintro (rfl | ⟨inside,_⟩)
      · simp
      · exact List.mem_append_left _ inside

theorem mem_upsert {t : Table κ ρ key} : x ∈ (t.upsert r).rows ↔ x = r ∨ (x ∈ t.rows ∧ key x ≠ key r) :=
  mem_place _ _ _

@[simp] theorem find_upsert_same (t : Table κ ρ key) (r : ρ) : (t.upsert r).find (key r) = some r :=
  mem_iff_find.mp (mem_upsert.mpr (.inl rfl))

def Table.upserts (t : Table κ ρ key) (rows : List ρ) : Table κ ρ key := rows.foldl Table.upsert t

theorem mem_upserts {t : Table κ ρ key} (member : x ∈ (t.upserts rows).rows) : x ∈ rows ∨ x ∈ t.rows := by
  induction rows generalizing t with
  | nil => exact .inr member
  | cons r rows ih =>
      rcases ih member with later | held
      · exact .inl (List.mem_cons_of_mem _ later)
      · rcases mem_upsert.mp held with rfl | ⟨old,_⟩
        · exact .inl List.mem_cons_self
        · exact .inr old

theorem upserts_mem {t : Table κ ρ key} (unique : (rows.map key).Nodup) (member : x ∈ rows ∨ x ∈ t.rows ∧ key x ∉ rows.map key) :
    x ∈ (t.upserts rows).rows := by
  induction rows generalizing t with
  | nil => exact (member.resolve_left List.not_mem_nil).1
  | cons r rows ih =>
      obtain ⟨apart,distinct⟩ := List.nodup_cons.mp unique
      apply ih distinct
      rcases member with inside | ⟨old,absent⟩
      · rcases List.mem_cons.mp inside with rfl | later
        · exact .inr ⟨mem_upsert.mpr (.inl rfl),apart⟩
        · exact .inl later
      · rw [List.map_cons,List.mem_cons,not_or] at absent
        exact .inr ⟨mem_upsert.mpr (.inr ⟨old,absent.1⟩),absent.2⟩

theorem find_ext {t u : Table κ ρ key} (same : ∀ r, key r = k → (r ∈ t.rows ↔ r ∈ u.rows)) :
    t.find k = u.find k := by
  cases found : u.find k with
  | some r =>
      have is := find_key found
      exact mem_find ((same r is).mpr (find_mem found)) is
  | none =>
      rw [find_none_iff] at found ⊢
      intro member
      obtain ⟨r,inside,is⟩ := List.mem_map.mp member
      exact found (List.mem_map.mpr ⟨r,(same r is).mp inside,is⟩)

theorem find_upsert_other (t : Table κ ρ key) (r : ρ) (other : key r ≠ k) :
    (t.upsert r).find k = t.find k := by
  apply find_ext
  intro x is
  rw [mem_upsert]
  constructor
  · rintro (rfl | ⟨inside,_⟩)
    · exact absurd is other
    · exact inside
  · exact fun inside => .inr ⟨inside,fun same => other (same.symm.trans is)⟩

theorem find_upsert (t : Table κ ρ key) (r : ρ) (k : κ) :
    (t.upsert r).find k = if key r = k then some r else t.find k := by
  by_cases same : key r = k
  · rw [if_pos same,← same]; exact find_upsert_same t r
  · rw [if_neg same]; exact find_upsert_other t r same

theorem find_delete (t : Table κ ρ key) (doomed : ρ → Bool) (k : κ) :
    (t.delete doomed).find k = (t.find k).filter (fun r => !doomed r) := by
  cases found : t.find k with
  | none =>
      rw [find_none_iff] at found
      apply find_none_iff.mpr
      intro member
      obtain ⟨r,inside,is⟩ := List.mem_map.mp member
      exact found (List.mem_map.mpr ⟨r,(mem_delete.mp inside).1,is⟩)
  | some r =>
      have is := find_key found
      cases out : doomed r with
      | false => simpa [Option.filter,out] using mem_find (mem_delete.mpr ⟨find_mem found,out⟩) is
      | true =>
          simp only [Option.filter,out,Bool.not_true,Bool.false_eq_true,if_false]
          apply find_none_iff.mpr
          intro member
          obtain ⟨x,inside,isx⟩ := List.mem_map.mp member
          have kept := mem_delete.mp inside
          have equal : x = r := Option.some.inj ((mem_find kept.1 isx).symm.trans found)
          rw [equal,out] at kept
          cases kept.2

theorem find_update (t : Table κ ρ key) (hit : ρ → Bool) (change : ρ → ρ) (kept : ∀ r, key (change r) = key r) (k : κ) :
    (t.update hit change kept).find k = (t.find k).map (fun r => if hit r then change r else r) := by
  have same : ∀ r, key (if hit r then change r else r) = key r := by
    intro r
    by_cases here : hit r = true <;> simp [here,kept]
  simp only [Table.find,Table.update,List.find?_map]
  congr 2
  funext r
  simp only [Function.comp_apply,same]

theorem insert_fresh {t : Table κ ρ key} (fresh : t.find (key r) = none) :
    t.insert r = some (t.upsert r) := by
  rw [Table.insert,if_neg (find_none_iff.mp fresh)]

theorem insert_cases {t u : Table κ ρ key} (done : t.insert r = some u) :
    t.find (key r) = none ∧ u = t.upsert r := by
  unfold Table.insert at done
  split at done
  · cases done
  · rename_i fresh
    exact ⟨find_none_iff.mpr fresh,(Option.some.inj done).symm⟩

-- A fresh row lands at the end, so a per-group listing only grows at its end.
theorem upsert_fresh_rows {t : Table κ ρ key} (fresh : t.find (key r) = none) :
    (t.upsert r).rows = t.rows ++ [r] := by
  simp only [Table.upsert,place,if_neg (find_none_iff.mp fresh)]

-- Replacing a row changes nothing that does not tell the new row from the old.
theorem upsert_held_map {α : Type} {t : Table κ ρ key} (held : t.find (key r) = some old) (f : ρ → α) (same : f r = f old) :
    (t.upsert r).rows.map f = t.rows.map f := by
  have present : key r ∈ t.rows.map key := find_key held ▸ List.mem_map_of_mem (find_mem held)
  simp only [Table.upsert,place,if_pos present,List.map_map]
  apply List.map_congr_left
  intro x inside
  by_cases equal : key x = key r
  · have is := Option.some.inj ((mem_find inside equal).symm.trans held)
    rw [Function.comp_apply,if_pos equal,same,is]
  · simp [equal]

theorem upsert_same {t : Table κ ρ key} (held : t.find (key r) = some r) : t.upsert r = t := by
  have present : key r ∈ t.rows.map key := List.mem_map_of_mem (find_mem held)
  obtain ⟨rows,unique⟩ := t
  simp only [Table.upsert,place,if_pos present,Table.mk.injEq]
  conv_rhs => rw [← List.map_id rows]
  apply List.map_congr_left
  intro x inside
  by_cases equal : key x = key r
  · have is : x = r := Option.some.inj ((mem_find (t := ⟨rows,unique⟩) inside equal).symm.trans held)
    rw [if_pos equal,is,id]
  · rw [if_neg equal,id]

theorem delete_absent {t : Table κ ρ key} (absent : t.find k = none) : t.delete (fun r => decide (key r = k)) = t := by
  rw [find_none_iff] at absent
  obtain ⟨rows,unique⟩ := t
  simp only [Table.delete,Table.mk.injEq,List.filter_eq_self]
  intro x inside
  have other : key x ≠ k := fun same => absent (same ▸ List.mem_map_of_mem inside)
  simp [other]

theorem delete_length {t : Table κ ρ key} (found : t.find k = some r) :
    (t.delete (fun r => decide (key r = k))).rows.length + 1 = t.rows.length := by
  have present : k ∈ t.rows.map key := find_key found ▸ List.mem_map_of_mem (find_mem found)
  have keys : (t.delete (fun r => decide (key r = k))).rows.map key = (t.rows.map key).erase k := by
    rw [t.unique.erase_eq_filter,List.filter_map,Table.delete]
    congr 1
  have shorter := congrArg List.length keys
  rw [List.length_map,List.length_erase_of_mem present,List.length_map] at shorter
  have some := List.length_pos_of_mem (find_mem found)
  omega

theorem upsert_twice {t : Table κ ρ key} (held : t.find (key r) = some old) (same : key q = key r) :
    (t.upsert r).upsert q = t.upsert q := by
  have present : key r ∈ t.rows.map key := find_key held ▸ List.mem_map_of_mem (find_mem held)
  simp only [Table.upsert,Table.mk.injEq]
  simp only [place,same,if_pos present,place_keys]
  rw [List.map_map]
  apply List.map_congr_left
  intro x _
  by_cases equal : key x = key r <;> simp [equal]

theorem delete_upsert {t : Table κ ρ key} (held : t.find (key r) = some old) (doomed : ρ → Bool)
    (gone : ∀ x, key x = key r → doomed x = true) : (t.upsert r).delete doomed = t.delete doomed := by
  have present : key r ∈ t.rows.map key := find_key held ▸ List.mem_map_of_mem (find_mem held)
  have rows : ∀ rows : List ρ, (rows.map (fun x => if key x = key r then r else x)).filter (fun x => !doomed x) =
      rows.filter (fun x => !doomed x) := by
    intro rows
    induction rows with
    | nil => rfl
    | cons x rest ih =>
        by_cases equal : key x = key r
        · simp [equal,gone x equal,gone r rfl,ih]
        · simp [equal,ih,List.filter_cons]
  simp only [Table.delete,Table.mk.injEq]
  simp only [Table.upsert,place,if_pos present]
  exact rows t.rows

-- A table that holds the rows of another under the same keys.
theorem find_mapped {σ : Type} {key' : σ → κ} {t : Table κ ρ key} {u : Table κ σ key'} (f : ρ → σ) (same : ∀ r, key' (f r) = key r)
    (mapped : u.rows = t.rows.map f) (k : κ) : u.find k = (t.find k).map f := by
  rw [Table.find,mapped,List.find?_map]
  congr 2
  funext r
  simp only [Function.comp_apply,same]

theorem upsert_mapped {σ : Type} {key' : σ → κ} {t : Table κ ρ key} {u : Table κ σ key'} (f : ρ → σ) (same : ∀ r, key' (f r) = key r)
    (mapped : u.rows = t.rows.map f) (r : ρ) : (u.upsert (f r)).rows = (t.upsert r).rows.map f := by
  have keys : u.rows.map key' = t.rows.map key := by
    rw [mapped,List.map_map]
    exact List.map_congr_left (fun x _ => same x)
  have known : key' (f r) ∈ u.rows.map key' ↔ key r ∈ t.rows.map key := by rw [keys,same]
  by_cases held : key r ∈ t.rows.map key
  · simp only [Table.upsert,place,if_pos held,if_pos (known.mpr held)]
    rw [mapped,List.map_map,List.map_map]
    apply List.map_congr_left
    intro x _
    by_cases equal : key x = key r <;> simp [same,equal]
  · simp only [Table.upsert,place,if_neg held,if_neg (fun inside => held (known.mp inside))]
    rw [mapped,List.map_append,List.map_singleton]

omit [DecidableEq κ] in
theorem table_ext {t u : Table κ ρ key} (same : t.rows = u.rows) : t = u := by
  obtain ⟨_,_⟩ := t
  obtain ⟨_,_⟩ := u
  cases same
  rfl

end KeyedTable
