import Mathlib.Data.List.Nodup
import Mathlib.Logic.Function.Basic

namespace CasCounters

variable {ι κ : Type} (key : ι → κ) (expected : ι → Nat)

-- No item is taken after an item of its key was refused.
def Clean (out : List (ι × Bool)) : Prop :=
  out.Pairwise (fun a b => key a.1 = key b.1 → a.2 = false → b.2 = false)

-- Every value from the counter up to what the item expects is tried.
def Reaches (heads : κ → Nat) (items : List ι) (y : ι) : Prop :=
  heads (key y) ≤ expected y ∧ ∀ n, heads (key y) ≤ n → n ≤ expected y → ∃ x ∈ items, key x = key y ∧ expected x = n

def Ascending (heads : κ → Nat) (items : List ι) : Prop :=
  items.Pairwise (fun x y => key x = key y → Reaches key expected heads items y →
    heads (key y) ≤ expected x ∧ expected x < expected y)

section
variable {key : ι → κ} {expected : ι → Nat} {heads : κ → Nat} {x y : ι} {rest : List ι}

theorem reaches_other (other : key x ≠ key y) :
    Reaches key expected heads (x :: rest) y ↔ Reaches key expected heads rest y := by
  unfold Reaches
  refine and_congr_right ?_
  intro _
  refine forall_congr' fun n => forall_congr' fun _ => forall_congr' fun _ => ?_
  simp [other]

theorem reaches_behind (reach : Reaches key expected heads rest y) : Reaches key expected heads (x :: rest) y := by
  refine ⟨reach.1,?_⟩
  intro n start stop
  obtain ⟨z,inside,own,is⟩ := reach.2 n start stop
  exact ⟨z,List.mem_cons_of_mem _ inside,own,is⟩

theorem ascending_tail (ascending : Ascending key expected heads (x :: rest)) : Ascending key expected heads rest :=
  (List.pairwise_cons.mp ascending).2.imp fun kept equal reach => kept equal (reaches_behind reach)

end

variable [DecidableEq κ]

-- Items tried in order against one counter for each key. An item that expects
-- its counter's value raises it by one, any other leaves it alone.
def replies (heads : κ → Nat) : List ι → List (ι × Bool)
  | [] => []
  | x :: rest =>
    if expected x = heads (key x) then (x,true) :: replies (Function.update heads (key x) (heads (key x)+1)) rest
    else (x,false) :: replies heads rest

variable {key : ι → κ} {expected : ι → Nat} {heads : κ → Nat} {x y : ι} {rest items : List ι}

theorem replies_items (heads : κ → Nat) (items : List ι) : (replies key expected heads items).map (·.1) = items := by
  induction items generalizing heads with
  | nil => rfl
  | cons x rest ih =>
      rw [replies]
      split <;> simp [ih]

-- A taken item follows taken items for every value its counter passed before.
theorem taken_chain {pre post : List (ι × Bool)} (split : replies key expected heads items = pre ++ (y,true) :: post) :
    heads (key y) ≤ expected y ∧
      ∀ n, heads (key y) ≤ n → n < expected y → ∃ x, (x,true) ∈ pre ∧ key x = key y ∧ expected x = n := by
  induction items generalizing heads pre with
  | nil => simp [replies] at split
  | cons x rest ih =>
      rw [replies] at split
      by_cases current : expected x = heads (key x)
      · rw [if_pos current] at split
        cases pre with
        | nil =>
            simp only [List.nil_append,List.cons.injEq,Prod.mk.injEq] at split
            obtain ⟨⟨rfl,_⟩,_⟩ := split
            exact ⟨by omega,fun n low high => by omega⟩
        | cons first pre =>
            simp only [List.cons_append,List.cons.injEq] at split
            obtain ⟨rfl,split⟩ := split
            obtain ⟨low,chain⟩ := ih split
            by_cases same : key y = key x
            · rw [same,Function.update_self] at low chain
              rw [same]
              refine ⟨by omega,?_⟩
              intro n start stop
              by_cases bottom : n = heads (key x)
              · exact ⟨x,List.mem_cons_self,rfl,current.trans bottom.symm⟩
              · obtain ⟨z,inside,own,is⟩ := chain n (by omega) stop
                exact ⟨z,List.mem_cons_of_mem _ inside,own,is⟩
            · rw [Function.update_of_ne same] at low chain
              refine ⟨low,?_⟩
              intro n start stop
              obtain ⟨z,inside,own,is⟩ := chain n start stop
              exact ⟨z,List.mem_cons_of_mem _ inside,own,is⟩
      · rw [if_neg current] at split
        cases pre with
        | nil => simp at split
        | cons first pre =>
            simp only [List.cons_append,List.cons.injEq] at split
            obtain ⟨rfl,split⟩ := split
            obtain ⟨low,chain⟩ := ih split
            refine ⟨low,?_⟩
            intro n start stop
            obtain ⟨z,inside,own,is⟩ := chain n start stop
            exact ⟨z,List.mem_cons_of_mem _ inside,own,is⟩

theorem taken_reaches (taken : (y,true) ∈ replies key expected heads items) : Reaches key expected heads items y := by
  obtain ⟨pre,post,split⟩ := List.mem_iff_append.mp taken
  obtain ⟨low,chain⟩ := taken_chain split
  have tried : ∀ z b, (z,b) ∈ replies key expected heads items → z ∈ items := by
    intro z b inside
    have mapped := List.mem_map_of_mem (f := Prod.fst) inside
    rwa [replies_items] at mapped
  refine ⟨low,?_⟩
  intro n start stop
  by_cases last : n = expected y
  · exact ⟨y,tried y true taken,rfl,last.symm⟩
  · obtain ⟨z,inside,own,is⟩ := chain n start (by omega)
    refine ⟨z,tried z true ?_,own,is⟩
    rw [split]
    exact List.mem_append_left _ inside

-- The first item that expects its counter's value is taken.
theorem current_taken (key : ι → κ) (expected : ι → Nat) (heads : κ → Nat) (inside : x ∈ items) (current : expected x = heads (key x)) :
    ∃ z, (z,true) ∈ replies key expected heads items ∧ key z = key x ∧ expected z = expected x := by
  induction items generalizing heads with
  | nil => cases inside
  | cons first rest ih =>
      rw [replies]
      by_cases now : expected first = heads (key first)
      · rw [if_pos now]
        by_cases same : key first = key x
        · exact ⟨first,List.mem_cons_self,same,by rw [now,same,current]⟩
        · rcases List.mem_cons.mp inside with rfl | later
          · exact absurd rfl same
          · obtain ⟨z,taken,own,is⟩ := ih (Function.update heads (key first) (heads (key first)+1)) later
              (by rw [Function.update_of_ne (Ne.symm same)]; exact current)
            exact ⟨z,List.mem_cons_of_mem _ taken,own,is⟩
      · rw [if_neg now]
        rcases List.mem_cons.mp inside with rfl | later
        · exact absurd current now
        · obtain ⟨z,taken,own,is⟩ := ih heads later current
          exact ⟨z,List.mem_cons_of_mem _ taken,own,is⟩

-- A taken item moves its counter past itself.
theorem reaches_taken (current : expected x = heads (key x)) (distinct : key x = key y → expected x ≠ expected y) :
    Reaches key expected heads (x :: rest) y ↔
      Reaches key expected (Function.update heads (key x) (heads (key x)+1)) rest y := by
  by_cases same : key x = key y
  · have differs := distinct same
    unfold Reaches
    rw [← same,Function.update_self]
    constructor
    · rintro ⟨low,tried⟩
      refine ⟨by omega,?_⟩
      intro n start stop
      obtain ⟨z,inside,own,is⟩ := tried n (by omega) stop
      rcases List.mem_cons.mp inside with rfl | later
      · omega
      · exact ⟨z,later,own,is⟩
    · rintro ⟨low,tried⟩
      refine ⟨by omega,?_⟩
      intro n start stop
      by_cases bottom : n = heads (key x)
      · exact ⟨x,List.mem_cons_self,rfl,current.trans bottom.symm⟩
      · obtain ⟨z,inside,own,is⟩ := tried n (by omega) stop
        exact ⟨z,List.mem_cons_of_mem _ inside,own,is⟩
  · rw [reaches_other same]
    unfold Reaches
    rw [Function.update_of_ne (Ne.symm same)]

-- The rest of a list behind a taken item, against the counters of before and of after.
theorem ascending_behind (current : expected x = heads (key x)) (first : ∀ y ∈ rest, key x = key y → expected x ≠ expected y) :
    rest.Pairwise (fun a b => key a = key b → Reaches key expected heads (x :: rest) b →
        heads (key b) ≤ expected a ∧ expected a < expected b) ↔
      Ascending key expected (Function.update heads (key x) (heads (key x)+1)) rest := by
  unfold Ascending
  apply List.Pairwise.iff_of_mem
  intro a b left right
  rw [reaches_taken current (first b right)]
  by_cases own : key x = key b
  · rw [← own,Function.update_self]
    refine forall_congr' fun equal => forall_congr' fun _ => ?_
    have differs := first a left equal.symm
    omega
  · rw [Function.update_of_ne (Ne.symm own)]

-- Refusals come last for every key exactly when the items that can be taken are
-- tried in ascending order with nothing else of their key before them.
theorem clean_iff (distinct : items.Pairwise (fun x y => key x = key y → expected x ≠ expected y)) :
    Clean key (replies key expected heads items) ↔ Ascending key expected heads items := by
  induction items generalizing heads with
  | nil => simp [replies,Clean,Ascending]
  | cons x rest ih =>
      obtain ⟨first,later⟩ := List.pairwise_cons.mp distinct
      unfold Clean Ascending
      rw [replies]
      by_cases current : expected x = heads (key x)
      · rw [if_pos current,List.pairwise_cons,List.pairwise_cons,ascending_behind current first,← ih later]
        constructor
        · rintro ⟨_,clean⟩
          refine ⟨?_,clean⟩
          intro y inside equal reach
          have differs := first y inside equal
          have low := reach.1
          rw [← equal] at low ⊢
          omega
        · rintro ⟨_,clean⟩
          exact ⟨by simp,clean⟩
      · rw [if_neg current,List.pairwise_cons,List.pairwise_cons]
        have step := @ih heads later
        unfold Clean Ascending at step
        constructor
        · rintro ⟨refused,clean⟩
          -- nothing of this key expects the counter's value any more
          have gone : ∀ y ∈ rest, key x = key y → expected y ≠ heads (key x) := by
            intro y inside equal now
            obtain ⟨z,taken,own,_⟩ := current_taken key expected heads inside (by rw [now,equal])
            have bad := refused (z,true) taken (by rw [own,equal]) rfl
            cases bad
          have stuck : ∀ y, key x = key y → ¬Reaches key expected heads (x :: rest) y := by
            intro y equal reach
            obtain ⟨z,inside,own,is⟩ := reach.2 (heads (key y)) (Nat.le_refl _) reach.1
            rcases List.mem_cons.mp inside with rfl | behind
            · exact current (by rw [is,← own])
            · exact gone z behind (equal.trans own.symm) (by rw [is,equal])
          refine ⟨fun y _ equal reach => absurd reach (stuck y equal),?_⟩
          refine List.Pairwise.imp_of_mem ?_ (step.mp clean)
          intro a b _ _ ordered equal reach
          by_cases own : key x = key b
          · exact absurd reach (stuck b own)
          · exact ordered equal ((reaches_other own).mp reach)
        · rintro ⟨before,ordered⟩
          have gone : ∀ y ∈ rest, key x = key y → expected y ≠ heads (key x) := by
            intro y inside equal now
            have reach : Reaches key expected heads (x :: rest) y := by
              refine ⟨Nat.le_of_eq (by rw [now,equal]),?_⟩
              intro n start stop
              refine ⟨y,List.mem_cons_of_mem _ inside,rfl,?_⟩
              rw [now,equal] at stop
              rw [now,equal]
              omega
            have bounds := before y inside equal reach
            rw [now,equal] at bounds
            omega
          refine ⟨?_,step.mpr (ordered.imp fun kept equal reach => kept equal (reaches_behind reach))⟩
          rintro ⟨b,flag⟩ inside equal _
          cases flag with
          | false => rfl
          | true =>
              obtain ⟨z,behind,own,is⟩ := (taken_reaches inside).2 _ (Nat.le_refl _) (taken_reaches inside).1
              exact absurd (by rw [is,equal]) (gone z behind (equal.trans own.symm))

-- In that order whatever can be taken is.
theorem ascending_taken (distinct : items.Pairwise (fun x y => key x = key y → expected x ≠ expected y))
    (ascending : Ascending key expected heads items) (inside : y ∈ items) (reach : Reaches key expected heads items y) :
    (y,true) ∈ replies key expected heads items := by
  induction items generalizing heads with
  | nil => cases inside
  | cons x rest ih =>
      obtain ⟨first,later⟩ := List.pairwise_cons.mp distinct
      obtain ⟨ahead,ordered⟩ := List.pairwise_cons.mp ascending
      rw [replies]
      by_cases current : expected x = heads (key x)
      · rw [if_pos current]
        rcases List.mem_cons.mp inside with rfl | behind
        · exact List.mem_cons_self
        · exact List.mem_cons_of_mem _ (ih later ((ascending_behind current first).mp ordered) behind
            ((reaches_taken current (first y behind)).mp reach))
      · rw [if_neg current]
        have other : key x ≠ key y := by
          intro same
          -- the item that expects the counter's value would come behind a lower one
          obtain ⟨z,tried,own,is⟩ := reach.2 _ (Nat.le_refl _) reach.1
          rcases List.mem_cons.mp tried with rfl | behind
          · exact current (by rw [is,own])
          · have bottom : Reaches key expected heads (x :: rest) z := by
              refine ⟨Nat.le_of_eq (by rw [is,own]),?_⟩
              intro n start stop
              exact ⟨z,tried,rfl,by rw [own] at start; omega⟩
            have bounds := ahead z behind (same.trans own.symm) bottom
            rw [is,own] at bounds
            omega
        rcases List.mem_cons.mp inside with rfl | behind
        · exact absurd rfl other
        · exact List.mem_cons_of_mem _ (ih later (ascending_tail ascending) behind ((reaches_other other).mp reach))

section
variable (recorded : ι → Bool)

-- The same with items that were counted before: they are taken as they come, and
-- raise nothing.
def outcomes (key : ι → κ) (expected : ι → Nat) (heads : κ → Nat) : List ι → List (ι × Bool)
  | [] => []
  | x :: rest =>
    if recorded x = true then (x,true) :: outcomes key expected heads rest
    else if expected x = heads (key x) then (x,true) :: outcomes key expected (Function.update heads (key x) (heads (key x)+1)) rest
    else (x,false) :: outcomes key expected heads rest

def uncounted (items : List ι) : List ι := items.filter (fun x => !recorded x)

def Takes (key : ι → κ) (expected : ι → Nat) (heads : κ → Nat) (items : List ι) (y : ι) : Prop :=
  recorded y = true ∨ Reaches key expected heads (uncounted recorded items) y

-- Nothing of its key is tried before an item that can be taken but what can be
-- taken too, and every waiting item of its key that expects less is.
structure Settling (key : ι → κ) (expected : ι → Nat) (heads : κ → Nat) (items waiting : List ι) : Prop where
  kept : ∀ x y, [x,y].Sublist items → key x = key y → Takes recorded key expected heads items y → Takes recorded key expected heads items x
  lowest : ∀ y ∈ items, Takes recorded key expected heads items y → ∀ p ∈ waiting, key p = key y → expected p < expected y → [p,y].Sublist items

variable {recorded : ι → Bool}

theorem outcomes_items (heads : κ → Nat) (items : List ι) : (outcomes recorded key expected heads items).map (·.1) = items := by
  induction items generalizing heads with
  | nil => rfl
  | cons x rest ih =>
      rw [outcomes]
      split
      · simp [ih]
      · split <;> simp [ih]

theorem outcomes_recorded {b : Bool} (inside : (x,b) ∈ outcomes recorded key expected heads items) (known : recorded x = true) : b = true := by
  induction items generalizing heads with
  | nil => cases inside
  | cons first rest ih =>
      rw [outcomes] at inside
      split at inside
      · rcases List.mem_cons.mp inside with same | later
        · exact (Prod.mk.inj same).2
        · exact ih later
      · rename_i unknown
        have other : ∀ flag, (x,b) = (first,flag) → b = true := by
          intro flag same
          exact absurd ((Prod.mk.inj same).1 ▸ known) unknown
        split at inside <;> rcases List.mem_cons.mp inside with same | later
        · exact other _ same
        · exact ih later
        · exact other _ same
        · exact ih later

-- Without the counted items the others go on as if alone.
theorem outcomes_uncounted (heads : κ → Nat) (items : List ι) :
    (outcomes recorded key expected heads items).filter (fun p => !recorded p.1) = replies key expected heads (uncounted recorded items) := by
  induction items generalizing heads with
  | nil => rfl
  | cons x rest ih =>
      rw [outcomes]
      split
      · rename_i known
        simpa [uncounted,known] using ih heads
      · rename_i unknown
        have unknown : recorded x = false := by simpa using unknown
        have rest' : uncounted recorded (x :: rest) = x :: uncounted recorded rest := by simp [uncounted,unknown]
        rw [rest',replies]
        split
        · rw [List.filter_cons_of_pos (by simp [unknown]),ih]
        · rw [List.filter_cons_of_pos (by simp [unknown]),ih]

theorem before_split {a c : List ι} {p : ι} (nodup : (a ++ y :: c).Nodup) (before : [p,y].Sublist (a ++ y :: c)) : p ∈ a := by
  have apart : (a ++ y :: c).Pairwise (fun u v => u ∈ a ∨ v ≠ y) := by
    obtain ⟨_,_,disjoint⟩ := List.nodup_append.mp nodup
    obtain ⟨absent,_⟩ := List.nodup_cons.mp (List.nodup_append.mp nodup).2.1
    have behind : ∀ v ∈ c, v ≠ y := fun v inside same => absent (same ▸ inside)
    refine List.pairwise_append.mpr ⟨?_,?_,fun u inside v _ => .inl inside⟩
    · exact List.Pairwise.imp_of_mem (R := fun _ _ => True) (fun left _ _ => .inl left) (List.pairwise_of_forall fun _ _ => True.intro)
    · refine List.pairwise_cons.mpr ⟨fun v inside => .inr (behind v inside),?_⟩
      exact List.Pairwise.imp_of_mem (R := fun _ _ => True) (fun _ right _ => .inr (behind _ right)) (List.pairwise_of_forall fun _ _ => True.intro)
  rcases List.pairwise_pair.mp (apart.sublist before) with inside | other
  · exact inside
  · exact absurd rfl other

theorem before_twice {p : ι} (nodup : items.Nodup) (one : [p,y].Sublist items) (two : [y,p].Sublist items) : False := by
  obtain ⟨a,c,rfl⟩ := List.mem_iff_append.mp (one.subset (by simp : y ∈ [p,y]))
  have first := before_split nodup one
  obtain ⟨b,d,rfl⟩ := List.mem_iff_append.mp first
  rw [List.append_assoc,List.cons_append] at nodup two
  have second := before_split nodup two
  rw [List.nodup_append] at nodup
  exact nodup.2.2 y second y (by simp) rfl

omit [DecidableEq κ] in
theorem settled_ascending {waiting : List ι} (nodup : items.Nodup) (sub : ∀ x ∈ items, x ∈ waiting)
    (distinct : items.Pairwise (fun x y => key x = key y → expected x ≠ expected y))
    (settling : Settling recorded key expected heads items waiting) : Ascending key expected heads (uncounted recorded items) := by
  refine List.pairwise_iff_forall_sublist.mpr ?_
  intro x y before same reach
  have order : [x,y].Sublist items := before.trans List.filter_sublist
  have first : x ∈ uncounted recorded items := before.subset (by simp)
  have unknown : recorded x = false := by simpa [uncounted] using (List.mem_filter.mp first).2
  have takes := settling.kept x y order same (.inr reach)
  rcases takes with known | reachX
  · rw [unknown] at known
    cases known
  · have low : ¬expected y < expected x := by
      intro lower
      exact before_twice nodup order (settling.lowest x (order.subset (by simp)) (.inr reachX) y (sub y (order.subset (by simp))) same.symm lower)
    have differs := (List.pairwise_iff_forall_sublist.mp distinct) order same
    have bottom := reachX.1
    rw [same] at bottom
    omega

theorem takes_iff (distinct : items.Pairwise (fun x y => key x = key y → expected x ≠ expected y))
    (ascending : Ascending key expected heads (uncounted recorded items)) (inside : y ∈ items) :
    Takes recorded key expected heads items y ↔ (y,true) ∈ outcomes recorded key expected heads items := by
  have listed : ∃ b, (y,b) ∈ outcomes recorded key expected heads items := by
    have items_ : (outcomes recorded key expected heads items).map (·.1) = items := outcomes_items heads items
    rw [← items_] at inside
    obtain ⟨⟨_,b⟩,member,rfl⟩ := List.mem_map.mp inside
    exact ⟨b,member⟩
  constructor
  · rintro (known | reach)
    · obtain ⟨b,member⟩ := listed
      exact outcomes_recorded member known ▸ member
    · by_cases known : recorded y = true
      · obtain ⟨b,member⟩ := listed
        exact outcomes_recorded member known ▸ member
      · have among : y ∈ uncounted recorded items := List.mem_filter.mpr ⟨inside,by simpa using known⟩
        have taken : (y,true) ∈ replies key expected heads (uncounted recorded items) :=
          ascending_taken (distinct.sublist List.filter_sublist) ascending among reach
        rw [← outcomes_uncounted] at taken
        exact (List.mem_filter.mp taken).1
  · intro taken
    by_cases known : recorded y = true
    · exact .inl known
    · refine .inr (taken_reaches ?_)
      rw [← outcomes_uncounted]
      exact List.mem_filter.mpr ⟨taken,by simpa using known⟩

theorem outcomes_listed {b : Bool} (inside : (x,b) ∈ outcomes recorded key expected heads items) : x ∈ items := by
  have mapped := List.mem_map_of_mem (f := Prod.fst) inside
  rwa [outcomes_items] at mapped

theorem outcomes_once {b c : Bool} (nodup : items.Nodup) (one : (x,b) ∈ outcomes recorded key expected heads items)
    (two : (x,c) ∈ outcomes recorded key expected heads items) : b = c := by
  have unique : ((outcomes recorded key expected heads items).map (·.1)).Nodup := by rwa [outcomes_items]
  exact (Prod.mk.inj (List.inj_on_of_nodup_map unique one two rfl)).2

theorem outcomes_order {b c : Bool} (order : [(x,b),(y,c)].Sublist (outcomes recorded key expected heads items)) :
    [x,y].Sublist items ∧ (x,b) ∈ outcomes recorded key expected heads items ∧ (y,c) ∈ outcomes recorded key expected heads items := by
  refine ⟨?_,order.subset (by simp),order.subset (by simp)⟩
  have mapped := order.map (·.1)
  rwa [outcomes_items] at mapped

theorem order_outcomes (recorded : ι → Bool) (key : ι → κ) (expected : ι → Nat) (heads : κ → Nat) (order : [x,y].Sublist items) :
    ∃ b c, [(x,b),(y,c)].Sublist (outcomes recorded key expected heads items) := by
  have items_ : (outcomes recorded key expected heads items).map (·.1) = items := outcomes_items heads items
  rw [← items_] at order
  obtain ⟨pairs,order,is⟩ := List.sublist_map_iff.mp order
  obtain ⟨⟨x,b⟩,tail,rfl,rfl,second⟩ := List.map_eq_cons_iff.mp is.symm
  obtain ⟨⟨y,c⟩,last,rfl,rfl,none⟩ := List.map_eq_cons_iff.mp second
  obtain rfl := List.map_eq_nil_iff.mp none
  exact ⟨b,c,order⟩

-- What builds on other items is taken behind all of them.
def Behind (key : ι → κ) (expected : ι → Nat) (out : List (ι × Bool)) (waiting : List ι) : Prop :=
  ∀ pre y post, out = pre ++ (y,true) :: post → ∀ p ∈ waiting, key p = key y → expected p < expected y → (p,true) ∈ pre

theorem clean_settling {waiting : List ι} (nodup : items.Nodup)
    (distinct : items.Pairwise (fun x y => key x = key y → expected x ≠ expected y))
    (clean : Clean key (outcomes recorded key expected heads items))
    (behind : Behind key expected (outcomes recorded key expected heads items) waiting) :
    Settling recorded key expected heads items waiting := by
  have alone : Clean key (replies key expected heads (uncounted recorded items)) := by
    rw [← outcomes_uncounted]
    exact clean.sublist List.filter_sublist
  have ascending := (clean_iff (distinct.sublist List.filter_sublist)).mp alone
  refine ⟨?_,?_⟩
  · intro x y before same takes
    obtain ⟨b,c,order⟩ := order_outcomes recorded key expected heads before
    obtain ⟨_,left,right⟩ := outcomes_order order
    have taken := (takes_iff distinct ascending (outcomes_listed right)).mp takes
    refine (takes_iff distinct ascending (outcomes_listed left)).mpr ?_
    have held := List.pairwise_iff_forall_sublist.mp clean order same
    have yes := outcomes_once nodup right taken
    cases b with
    | true => exact left
    | false => exact absurd (held rfl) (by simp [yes])
  · intro y inside takes p member same lower
    obtain ⟨pre,post,split⟩ := List.mem_iff_append.mp ((takes_iff distinct ascending inside).mp takes)
    have before := behind pre y post split p member same lower
    have order : [(p,true),(y,true)].Sublist (outcomes recorded key expected heads items) := by
      rw [split]
      exact (List.singleton_sublist.mpr before).append ((List.nil_sublist post).cons_cons (y,true))
    exact (outcomes_order order).1

theorem settling_clean {waiting : List ι} (nodup : items.Nodup) (sub : ∀ x ∈ items, x ∈ waiting)
    (distinct : items.Pairwise (fun x y => key x = key y → expected x ≠ expected y))
    (settling : Settling recorded key expected heads items waiting) :
    Clean key (outcomes recorded key expected heads items) ∧ Behind key expected (outcomes recorded key expected heads items) waiting := by
  have ascending := settled_ascending nodup sub distinct settling
  refine ⟨List.pairwise_iff_forall_sublist.mpr ?_,?_⟩
  · rintro ⟨x,b⟩ ⟨y,c⟩ order same refused
    obtain ⟨before,left,right⟩ := outcomes_order order
    cases c with
    | false => rfl
    | true =>
        have takes := settling.kept x y before same ((takes_iff distinct ascending (outcomes_listed right)).mpr right)
        have taken := (takes_iff distinct ascending (outcomes_listed left)).mp takes
        exact absurd (outcomes_once nodup left taken) (by simp [show b = false from refused])
  · intro pre y post split p member same lower
    have taken : (y,true) ∈ outcomes recorded key expected heads items := by rw [split]; simp
    have takes := (takes_iff distinct ascending (outcomes_listed taken)).mpr taken
    have before := settling.lowest y (outcomes_listed taken) takes p member same lower
    have parts : items = pre.map (·.1) ++ y :: post.map (·.1) := by rw [← outcomes_items heads items,split]; simp
    have early := before_split (parts ▸ nodup) (parts ▸ before)
    obtain ⟨⟨p,b⟩,inside,rfl⟩ := List.mem_map.mp early
    have held : (p,b) ∈ outcomes recorded key expected heads items := by rw [split]; exact List.mem_append_left _ inside
    have takesP := settling.kept p y before same takes
    have takenP := (takes_iff distinct ascending (outcomes_listed held)).mp takesP
    exact outcomes_once nodup held takenP ▸ inside

-- Nothing of a key is taken behind a refusal, nor before what it builds on.
theorem settling_iff {waiting : List ι} (nodup : items.Nodup) (sub : ∀ x ∈ items, x ∈ waiting)
    (distinct : items.Pairwise (fun x y => key x = key y → expected x ≠ expected y)) :
    (Clean key (outcomes recorded key expected heads items) ∧ Behind key expected (outcomes recorded key expected heads items) waiting) ↔
    Settling recorded key expected heads items waiting :=
  ⟨fun both => clean_settling nodup distinct both.1 both.2,settling_clean nodup sub distinct⟩

end

end CasCounters
