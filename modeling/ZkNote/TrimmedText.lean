import Mathlib.Data.List.DropRight

namespace TrimmedText

-- A list without the marked elements at its two ends.
variable {α : Type} {p q : α → Bool} {text front back : List α} {c : α}

def trim (p : α → Bool) (text : List α) : List α := (text.dropWhile p).rdropWhile p

-- Nothing to trim.
def Bare (p : α → Bool) (text : List α) : Prop := ∀ c, text.head? = some c ∨ text.getLast? = some c → p c = false

theorem bare_ends : (∀ c ∈ text.head?, p c = false) ∧ (∀ c ∈ text.getLast?, p c = false) ↔ Bare p text :=
  ⟨fun ends c either => either.elim (ends.1 c) (ends.2 c),fun bare => ⟨fun c first => bare c (.inl first),fun c last => bare c (.inr last)⟩⟩

instance : Decidable (Bare p text) := decidable_of_iff _ bare_ends

theorem trim_infix (p : α → Bool) (text : List α) : ∃ front back, text = front ++ trim p text ++ back ∧ (∀ c ∈ front, p c) ∧ ∀ c ∈ back, p c := by
  refine ⟨text.takeWhile p,(text.dropWhile p).rtakeWhile p,?_,fun c => List.mem_takeWhile_imp,fun c => List.mem_rtakeWhile_imp⟩
  rw [trim,List.append_assoc,List.rdropWhile_append_rtakeWhile,List.takeWhile_append_dropWhile]

theorem trim_length (p : α → Bool) (text : List α) : (trim p text).length ≤ text.length := by
  obtain ⟨front,back,whole,_⟩ := trim_infix p text
  have lengths := congrArg List.length whole
  rw [List.length_append,List.length_append] at lengths
  omega

theorem trim_full (same : (trim p text).length = text.length) : trim p text = text := by
  obtain ⟨front,back,whole,_⟩ := trim_infix p text
  have sizes := congrArg List.length whole
  rw [List.length_append,List.length_append] at sizes
  have noFront : front = [] := List.length_eq_zero_iff.mp (by omega)
  have noBack : back = [] := List.length_eq_zero_iff.mp (by omega)
  rw [noFront,noBack,List.nil_append,List.append_nil] at whole
  exact whole.symm

theorem trim_bare (bare : Bare p text) : trim p text = text := by
  have front : text.dropWhile p = text := by
    rw [List.dropWhile_eq_self_iff]
    intro positive
    rw [bare text[0] (.inl (by rw [List.head?_eq_getElem?,List.getElem?_eq_getElem positive]))]
    exact Bool.false_ne_true
  rw [trim,front,List.rdropWhile_eq_self_iff]
  intro some
  rw [bare _ (.inr (List.getLast?_eq_some_getLast some))]
  exact Bool.false_ne_true

theorem bare_trim (p : α → Bool) (text : List α) : Bare p (trim p text) := by
  rintro c (first | last)
  · cases rest : text.dropWhile p with
    | nil =>
        rw [trim,rest,List.rdropWhile_nil] at first
        cases first
    | cons d rest' =>
        have inside := List.rdropWhile_prefix (p := p) (l := text.dropWhile p)
        have stays : d = c := by
          obtain ⟨tail,whole⟩ := inside
          rw [← trim,rest] at whole
          cases trimmed : trim p text with
          | nil =>
              rw [trimmed] at first
              cases first
          | cons e trimmed' =>
              rw [trimmed] at whole first
              cases first
              exact (List.cons.inj whole).1.symm
        have stopped := List.head_dropWhile_not p (l := text) (by rw [rest]; exact List.cons_ne_nil _ _)
        simp only [rest,List.head_cons] at stopped
        rw [← stays]
        exact stopped
  · have some : trim p text ≠ [] := by
      intro empty
      rw [empty] at last
      cases last
    have stopped := List.rdropWhile_last_not p (text.dropWhile p) some
    rw [List.getLast?_eq_some_getLast some] at last
    cases last
    exact Bool.eq_false_iff.mpr stopped

theorem trim_same_iff : trim p text = text ↔ Bare p text :=
  ⟨fun same => same ▸ bare_trim p text,trim_bare⟩

theorem trim_again (p : α → Bool) (text : List α) : trim p (trim p text) = trim p text := trim_bare (bare_trim p text)

theorem trim_front (front : List α) (marked : ∀ c ∈ front, p c) : trim p (front ++ text) = trim p text := by
  rw [trim,List.dropWhile_append_of_pos marked,trim]

theorem rdrop_back (marked : ∀ c ∈ back, p c) : (text ++ back).rdropWhile p = text.rdropWhile p := by
  rw [List.rdropWhile,List.reverse_append,List.dropWhile_append_of_pos (fun c inside => marked c (List.mem_reverse.mp inside)),List.rdropWhile]

theorem trim_back (back : List α) (marked : ∀ c ∈ back, p c) : trim p (text ++ back) = trim p text := by
  rw [trim,List.dropWhile_append]
  split
  · rename_i empty
    rw [List.isEmpty_iff] at empty
    rw [trim,empty,List.dropWhile_eq_nil_iff.mpr marked]
  · exact rdrop_back marked

-- What is not marked is all still there.
theorem trim_count (p : α → Bool) (text : List α) : (trim p text).countP (fun c => !p c) = text.countP (fun c => !p c) := by
  obtain ⟨front,back,whole,before,behind⟩ := trim_infix p text
  have none : ∀ part : List α, (∀ c ∈ part, p c) → part.countP (fun c => !p c) = 0 := by
    intro part marked
    rw [List.countP_eq_zero]
    intro c inside
    simp [marked c inside]
  have counts := congrArg (List.countP (fun c => !p c)) whole
  rw [List.countP_append,List.countP_append,none front before,none back behind,Nat.zero_add,Nat.add_zero] at counts
  exact counts.symm

end TrimmedText
