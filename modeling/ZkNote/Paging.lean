import Mathlib.Data.Finset.Card
import Mathlib.Data.Finset.Image
import Mathlib.Data.List.Range

namespace ZkNote.Paging

-- A client reads numbered rows from a stream of pages. Each request asks for the
-- rows above the highest number seen so far.
variable {Page : Type} (rows : Page → List Nat) (goesOn : Page → Bool) (pages : Nat → Page)

def highest (seen : Nat) (page : Page) : Nat := (rows page).foldl max seen

-- The numbers asked above, when the line drops at request `drops`; `none` when
-- `fuel` requests are not enough.
def ask (drops : Option Nat) : Nat → List Nat → Nat → Option (List Nat)
  | 0,_,_ => none
  | fuel+1,asked,seen =>
    if drops = some asked.length then some (asked ++ [seen])
    else if goesOn (pages asked.length) then ask drops fuel (asked ++ [seen]) (highest rows seen (pages asked.length))
    else some (asked ++ [seen])

-- What a puller owes: it asks ever higher, and once more at most than there are
-- rows above the start.
structure Progresses (start : Nat) (asks : Option Nat → Nat → Option (List Nat)) : Prop where
  rises : ∀ n fuel asked, asks (some n) fuel = some asked → asked.Pairwise (· < ·)
  ends : ∀ D : Finset Nat, (∀ k, ∀ row ∈ rows (pages k), start < row → row ∈ D) →
    ∃ asked, asks none (D.card+1) = some asked ∧ asked.length ≤ D.card+1

def Continues (k : Nat) : Prop := ∀ i < k, goesOn (pages i) = true

-- Every page that lets the pull go on brings a row above all before it.
def Fresh (start : Nat) : Prop :=
  ∀ k, Continues goesOn pages (k+1) →
    ∃ row ∈ rows (pages k), start < row ∧ ∀ i < k, ∀ other ∈ rows (pages i), other < row

def reached (start : Nat) : Nat → Nat
  | 0 => start
  | k+1 => highest rows (reached start k) (pages k)

variable {rows goesOn pages} {start : Nat}

theorem foldl_max (xs : List Nat) (seen : Nat) :
    seen ≤ xs.foldl max seen ∧ (∀ x ∈ xs, x ≤ xs.foldl max seen) ∧ (xs.foldl max seen = seen ∨ xs.foldl max seen ∈ xs) := by
  induction xs generalizing seen with
  | nil => exact ⟨Nat.le_refl _,by simp,.inl rfl⟩
  | cons x rest ih =>
      obtain ⟨low,all,source⟩ := ih (max seen x)
      refine ⟨by simp only [List.foldl_cons]; omega,?_,?_⟩
      · intro y inside
        simp only [List.foldl_cons]
        rcases List.mem_cons.mp inside with rfl | later
        · omega
        · exact all y later
      · simp only [List.foldl_cons]
        rcases source with same | inside
        · rw [same]
          rcases Nat.le_total x seen with small | large
          · exact .inl (Nat.max_eq_left small)
          · exact .inr (by simp [Nat.max_eq_right large])
        · exact .inr (List.mem_cons_of_mem _ inside)

theorem reached_start (k : Nat) : start ≤ reached rows pages start k := by
  induction k with
  | zero => exact Nat.le_refl _
  | succ k ih => exact Nat.le_trans ih (foldl_max _ _).1

theorem reached_bound (before : i < k) (inside : row ∈ rows (pages i)) : row ≤ reached rows pages start k := by
  induction k with
  | zero => cases before
  | succ k ih =>
      rcases Nat.lt_succ_iff_lt_or_eq.mp before with earlier | rfl
      · exact Nat.le_trans (ih earlier) (foldl_max _ _).1
      · exact (foldl_max _ _).2.1 row inside

theorem reached_attained (k : Nat) :
    reached rows pages start k = start ∨ ∃ i < k, reached rows pages start k ∈ rows (pages i) := by
  induction k with
  | zero => exact .inl rfl
  | succ k ih =>
      rcases (foldl_max (rows (pages k)) (reached rows pages start k)).2.2 with same | inside
      · rw [show reached rows pages start (k+1) = reached rows pages start k from same]
        rcases ih with first | ⟨i,before,found⟩
        · exact .inl first
        · exact .inr ⟨i,Nat.lt_succ_of_lt before,found⟩
      · exact .inr ⟨k,Nat.lt_succ_self k,inside⟩

theorem reached_lt_iff (k : Nat) :
    reached rows pages start k < reached rows pages start (k+1) ↔
      ∃ row ∈ rows (pages k), start < row ∧ ∀ i < k, ∀ other ∈ rows (pages i), other < row := by
  constructor
  · intro rise
    rcases (foldl_max (rows (pages k)) (reached rows pages start k)).2.2 with same | inside
    · exact absurd same (Nat.ne_of_gt rise)
    · refine ⟨_,inside,Nat.lt_of_le_of_lt (reached_start k) rise,?_⟩
      intro i before other present
      exact Nat.lt_of_le_of_lt (reached_bound before present) rise
  · rintro ⟨row,inside,above,tops⟩
    have bound : row ≤ reached rows pages start (k+1) := (foldl_max _ _).2.1 row inside
    rcases @reached_attained _ rows pages start k with same | ⟨i,before,found⟩
    · omega
    · have := tops i before _ found
      omega

theorem fresh_reached (fresh : Fresh rows goesOn pages start) (going : Continues goesOn pages k) (before : i < j) (within : j ≤ k) :
    reached rows pages start i < reached rows pages start j := by
  induction j with
  | zero => cases before
  | succ j ih =>
      have rise := (reached_lt_iff j).mpr (fresh j (fun l below => going l (Nat.lt_of_lt_of_le below within)))
      rcases Nat.lt_succ_iff_lt_or_eq.mp before with earlier | rfl
      · exact Nat.lt_trans (ih earlier (Nat.le_of_succ_le within)) rise
      · exact rise

-- The numbers a pull that has made `k` requests asked above.
def trail (rows : Page → List Nat) (pages : Nat → Page) (start k : Nat) : List Nat :=
  (List.range k).map (reached rows pages start)

@[simp] theorem trail_length (k : Nat) : (trail rows pages start k).length = k := by simp [trail]

theorem trail_succ (k : Nat) : trail rows pages start k ++ [reached rows pages start k] = trail rows pages start (k+1) := by
  simp [trail,List.range_succ]

theorem fresh_trail (fresh : Fresh rows goesOn pages start) (going : Continues goesOn pages k) :
    (trail rows pages start (k+1)).Pairwise (· < ·) := by
  refine List.pairwise_map.mpr ((List.pairwise_lt_range).imp_of_mem ?_)
  intro i j _ within before
  exact fresh_reached fresh going before (Nat.lt_succ_iff.mp (List.mem_range.mp within))

-- Whatever a pull asked is a trail over pages that all let it go on.
theorem ask_trail (fuel : Nat) (going : Continues goesOn pages k)
    (ran : ask rows goesOn pages drops fuel (trail rows pages start k) (reached rows pages start k) = some asked) :
    ∃ j, Continues goesOn pages j ∧ asked = trail rows pages start (j+1) := by
  induction fuel generalizing k with
  | zero => cases ran
  | succ fuel ih =>
      simp only [ask,trail_length,trail_succ] at ran
      split at ran
      · exact ⟨k,going,(Option.some.inj ran).symm⟩
      · split at ran
        · rename_i more
          refine ih (k := k+1) ?_ ran
          intro i below
          rcases Nat.lt_succ_iff_lt_or_eq.mp below with earlier | rfl
          · exact going i earlier
          · exact more
        · exact ⟨k,going,(Option.some.inj ran).symm⟩

-- Where it stops: at the first page that ends it or where the line drops.
theorem ask_stops (going : Continues goesOn pages j) (last : goesOn (pages j) = false ∨ drops = some j)
    (whole : ∀ i < j, drops ≠ some i) (low : k ≤ j) (enough : j < k+fuel) :
    ask rows goesOn pages drops fuel (trail rows pages start k) (reached rows pages start k) =
      some (trail rows pages start (j+1)) := by
  induction fuel generalizing k with
  | zero => omega
  | succ fuel ih =>
      simp only [ask,trail_length,trail_succ]
      rcases Nat.lt_or_eq_of_le low with below | rfl
      · rw [if_neg (whole k below),if_pos (going k below)]
        exact ih (k := k+1) below (by omega)
      · split
        · rfl
        · rename_i running
          rw [if_neg (by simp [last.resolve_right running])]

-- With fresh pages only, those that let the pull go on are no more than the rows.
theorem fresh_stops (fresh : Fresh rows goesOn pages start) {D : Finset Nat}
    (covered : ∀ k, ∀ row ∈ rows (pages k), start < row → row ∈ D) :
    ∃ k ≤ D.card, Continues goesOn pages k ∧ goesOn (pages k) = false := by
  by_contra never
  have going : ∀ k ≤ D.card+1, Continues goesOn pages k := by
    intro k
    induction k with
    | zero => intro _ i below; cases below
    | succ k ih =>
        intro within i below
        have before := ih (by omega)
        rcases Nat.lt_succ_iff_lt_or_eq.mp below with earlier | rfl
        · exact before i earlier
        · by_contra stopped
          exact never ⟨i,by omega,before,by simpa using stopped⟩
  have all := going (D.card+1) (Nat.le_refl _)
  -- More rises than rows to rise to.
  have into : (Finset.range (D.card+1)).image (fun i => reached rows pages start (i+1)) ⊆ D := by
    intro row inside
    obtain ⟨i,within,rfl⟩ := Finset.mem_image.mp inside
    have rise : start < reached rows pages start (i+1) :=
      fresh_reached (i := 0) fresh all (Nat.succ_pos i) (Nat.succ_le_of_lt (Finset.mem_range.mp within))
    rcases @reached_attained _ rows pages start (i+1) with same | ⟨k,_,found⟩
    · omega
    · exact covered k _ found rise
  have distinct : ((Finset.range (D.card+1)).image (fun i => reached rows pages start (i+1))).card = D.card+1 := by
    rw [Finset.card_image_of_injOn,Finset.card_range]
    intro i left j right same
    simp only [Finset.coe_range,Set.mem_Iio] at left right same
    rcases Nat.lt_trichotomy i j with less | equal | greater
    · have := fresh_reached fresh all (i := i+1) (j := j+1) (by omega) (by omega)
      omega
    · exact equal
    · have := fresh_reached fresh all (i := j+1) (j := i+1) (by omega) (by omega)
      omega
  have := Finset.card_le_card into
  omega

-- Progress is a matter of the pages served, exactly.
theorem progresses_iff :
    Progresses rows pages start (fun drops fuel => ask rows goesOn pages drops fuel [] start) ↔
      Fresh rows goesOn pages start := by
  constructor
  · intro progress k going
    rw [← reached_lt_iff]
    have ran : ask rows goesOn pages (some (k+1)) (k+2) (trail rows pages start 0) (reached rows pages start 0) =
        some (trail rows pages start (k+1+1)) :=
      ask_stops going (.inr rfl) (fun i below same => by cases same; omega) (Nat.zero_le _) (by omega)
    have sorted := progress.rises (k+1) (k+2) _ ran
    rw [← trail_succ,← trail_succ,List.append_assoc] at sorted
    have last := (List.pairwise_append.mp sorted).2.1
    simpa using last
  · intro fresh
    refine ⟨?_,?_⟩
    · intro n fuel asked ran
      obtain ⟨j,going,rfl⟩ := ask_trail (k := 0) fuel (fun i below => by cases below) ran
      exact fresh_trail fresh going
    · intro D covered
      obtain ⟨k,within,going,last⟩ := fresh_stops fresh covered
      refine ⟨_,ask_stops (k := 0) going (.inl last) (fun i below => by simp) (Nat.zero_le _) (by omega),?_⟩
      rw [trail_length]
      omega

end ZkNote.Paging
