import Mathlib.Data.List.Basic

namespace ZkNote.RisingRecords

-- Numbered records arriving in any order, read by someone who takes only what
-- is above a floor and above everything before it.
variable {α : Type} (key : α → Nat)

def rising (floor : Nat) : List α → List α
  | [] => []
  | x :: rest => if floor < key x then x :: rising (key x) rest else rising floor rest

-- The same up to the first record that falls below what came before.
def calm (floor : Nat) : List α → List α
  | [] => []
  | x :: rest =>
    if floor < key x then x :: calm (key x) rest
    else if key x < floor then []
    else calm floor rest

def Rises (floor : Nat) (xs : List α) (y : α) : Prop :=
  ∃ before after, xs = before ++ y :: after ∧ floor < key y ∧ ∀ x ∈ before, key x < key y

def Falls (floor : Nat) (before : List α) (x : α) : Prop := key x < floor ∨ ∃ y ∈ before, key x < key y

-- Once a record falls, nothing rises any more.
def Settles (floor : Nat) (xs : List α) : Prop :=
  ∀ before x after, xs = before ++ x :: after → Falls key floor before x → ∀ y, Rises key floor xs y → y ∈ before

variable {key}

theorem rises_cons (floor : Nat) (x : α) (rest : List α) (y : α) :
    Rises key floor (x :: rest) y ↔ floor < key y ∧ (x = y ∨ key x < key y ∧ Rises key floor rest y) := by
  constructor
  · rintro ⟨before,after,same,above,tops⟩
    cases before with
    | nil => exact ⟨above,.inl (List.cons.inj same).1⟩
    | cons z before =>
        obtain ⟨rfl,rfl⟩ := List.cons.inj same
        exact ⟨above,.inr ⟨tops x List.mem_cons_self,before,after,rfl,above,
          fun z inside => tops z (List.mem_cons_of_mem _ inside)⟩⟩
  · rintro ⟨above,rfl | ⟨tops,before,after,rfl,_,all⟩⟩
    · exact ⟨[],rest,rfl,above,by simp⟩
    · refine ⟨x :: before,after,rfl,above,?_⟩
      intro z inside
      rcases List.mem_cons.mp inside with rfl | inside
      · exact tops
      · exact all z inside

theorem rises_above (rises : Rises key floor xs y) : floor < key y := by
  obtain ⟨_,_,_,above,_⟩ := rises
  exact above

theorem rises_lift (low : floor ≤ high) (rises : Rises key high xs y) : Rises key floor xs y := by
  obtain ⟨before,after,same,above,tops⟩ := rises
  exact ⟨before,after,same,Nat.lt_of_le_of_lt low above,tops⟩

theorem mem_rising (floor : Nat) (xs : List α) (y : α) : y ∈ rising key floor xs ↔ Rises key floor xs y := by
  induction xs generalizing floor with
  | nil => simp [rising,Rises]
  | cons x rest ih =>
      rw [rises_cons,rising]
      split
      · rename_i above
        rw [List.mem_cons,ih]
        constructor
        · rintro (rfl | later)
          · exact ⟨above,.inl rfl⟩
          · have tops := rises_above later
            exact ⟨Nat.lt_trans above tops,.inr ⟨tops,rises_lift (Nat.le_of_lt above) later⟩⟩
        · rintro ⟨_,rfl | ⟨tops,before,after,same,_,all⟩⟩
          · exact .inl rfl
          · exact .inr ⟨before,after,same,tops,all⟩
      · rename_i below
        rw [ih]
        constructor
        · intro later
          have tops := rises_above later
          exact ⟨tops,.inr ⟨by omega,later⟩⟩
        · rintro ⟨above,rfl | ⟨_,later⟩⟩
          · exact absurd above below
          · exact later

theorem rising_sorted (floor : Nat) (xs : List α) :
    (rising key floor xs).Pairwise (fun x y => key x < key y) ∧ ∀ y ∈ rising key floor xs, floor < key y := by
  induction xs generalizing floor with
  | nil => exact ⟨.nil,by simp [rising]⟩
  | cons x rest ih =>
      rw [rising]
      split
      · rename_i above
        obtain ⟨sorted,tops⟩ := ih (key x)
        refine ⟨List.pairwise_cons.mpr ⟨tops,sorted⟩,?_⟩
        intro y inside
        rcases List.mem_cons.mp inside with rfl | inside
        · exact above
        · exact Nat.lt_trans above (tops y inside)
      · exact ih floor

theorem calm_rises (floor : Nat) (xs : List α) : calm key floor xs <+: rising key floor xs := by
  induction xs generalizing floor with
  | nil => exact List.prefix_refl _
  | cons x rest ih =>
      rw [calm,rising]
      split
      · exact (List.prefix_cons_inj x).mpr (ih (key x))
      · split
        · exact List.nil_prefix
        · exact ih floor

theorem calm_before (fall : Falls key floor before x) (inside : y ∈ calm key floor (before ++ x :: after)) : y ∈ before := by
  induction before generalizing floor with
  | nil =>
      have low : key x < floor := by simpa [Falls] using fall
      rw [List.nil_append,calm,if_neg (by omega),if_pos low] at inside
      cases inside
  | cons b before ih =>
      rw [List.cons_append,calm] at inside
      split at inside
      · rename_i above
        rcases List.mem_cons.mp inside with rfl | inside
        · exact List.mem_cons_self
        · refine List.mem_cons_of_mem _ (ih ?_ inside)
          rcases fall with low | ⟨z,member,low⟩
          · exact .inl (Nat.lt_trans low above)
          · rcases List.mem_cons.mp member with rfl | member
            · exact .inl low
            · exact .inr ⟨z,member,low⟩
      · split at inside
        · cases inside
        · refine List.mem_cons_of_mem _ (ih ?_ inside)
          rcases fall with low | ⟨z,member,low⟩
          · exact .inl low
          · rcases List.mem_cons.mp member with rfl | member
            · exact .inl (by omega)
            · exact .inr ⟨z,member,low⟩

theorem settles_tail (settles : Settles key floor (x :: rest))
    (fresh : ∀ y, Rises key high rest y → y ≠ x ∧ Rises key floor (x :: rest) y)
    (falls : ∀ before y, Falls key high before y → Falls key floor (x :: before) y) : Settles key high rest := by
  intro before y after same fall z rises
  obtain ⟨other,whole⟩ := fresh z rises
  have inside := settles (x :: before) y after (by rw [same]; rfl) (falls before y fall) z whole
  exact (List.mem_cons.mp inside).resolve_left other

theorem calm_all_iff (floor : Nat) (xs : List α) : calm key floor xs = rising key floor xs ↔ Settles key floor xs := by
  constructor
  · intro same before x after split fall y rises
    rw [← mem_rising,← same,split] at rises
    exact calm_before fall rises
  · intro settles
    induction xs generalizing floor with
    | nil => rfl
    | cons x rest ih =>
        rw [calm,rising]
        split
        · rename_i above
          rw [ih (key x)]
          refine settles_tail settles ?_ ?_
          · intro y rises
            have tops := rises_above rises
            refine ⟨fun same => by rw [same] at tops; omega,?_⟩
            exact (rises_cons ..).mpr ⟨Nat.lt_trans above tops,.inr ⟨tops,rises_lift (Nat.le_of_lt above) rises⟩⟩
          · rintro before y (low | ⟨z,member,low⟩)
            · exact .inr ⟨x,List.mem_cons_self,low⟩
            · exact .inr ⟨z,List.mem_cons_of_mem _ member,low⟩
        · rename_i below
          split
          · rename_i low
            -- The first record already falls, so nothing may rise at all.
            refine (List.eq_nil_iff_forall_not_mem.mpr ?_).symm
            intro y inside
            have above := rises_above ((mem_rising ..).mp inside)
            have whole : Rises key floor (x :: rest) y :=
              (rises_cons ..).mpr ⟨above,.inr ⟨by omega,(mem_rising ..).mp inside⟩⟩
            exact List.not_mem_nil (settles [] x rest rfl (.inl low) y whole)
          · rename_i level
            rw [ih floor]
            refine settles_tail settles ?_ ?_
            · intro y rises
              have tops := rises_above rises
              refine ⟨fun same => by rw [same] at tops; omega,?_⟩
              exact (rises_cons ..).mpr ⟨tops,.inr ⟨by omega,rises⟩⟩
            · rintro before y (low | ⟨z,member,low⟩)
              · exact .inl low
              · exact .inr ⟨z,List.mem_cons_of_mem _ member,low⟩

end ZkNote.RisingRecords
