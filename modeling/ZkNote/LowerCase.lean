import Mathlib.Data.List.Infix
import ZkNote.TrimmedText

namespace LowerCase

-- Lower-casing by a table for each character and the one rule that looks around:
-- a capital sigma is final after a cased character and not before one, where the
-- ignorable ones in between do not count.
structure CaseTables where
  lower : Char → List Char
  cased : Char → Bool
  caseIgnorable : Char → Bool

variable (tables : CaseTables)

-- `case_ignorable_then_cased`.
def CaseTables.thenCased : List Char → Bool
  | [] => false
  | c :: rest => if tables.caseIgnorable c then thenCased rest else tables.cased c

-- The text before comes last character first.
def CaseTables.lowerAt (before : List Char) (c : Char) (after : List Char) : List Char :=
  if c = 'Σ' then [if tables.thenCased before && !tables.thenCased after then 'ς' else 'σ'] else tables.lower c

def CaseTables.lowerFrom (before : List Char) : List Char → List Char
  | [] => []
  | c :: rest => tables.lowerAt before c rest ++ lowerFrom (c :: before) rest

def CaseTables.toLowercase (text : String) : String := String.ofList (tables.lowerFrom [] text.toList)

-- A stretch of a longer text.
def CaseTables.lowerIn (before after : List Char) : List Char → List Char
  | [] => []
  | c :: rest => tables.lowerAt before c (rest ++ after) ++ lowerIn (c :: before) after rest

-- Characters that lower-casing neither changes nor looks at.
def CaseTables.Plain (c : Char) : Prop := tables.lower c = [c] ∧ tables.cased c = false ∧ c ≠ 'Σ'

variable {tables} {before before' after after' front back text part : List Char}

theorem lower_whole (before text : List Char) : tables.lowerFrom before text = tables.lowerIn before [] text := by
  induction text generalizing before with
  | nil => rfl
  | cons c rest ih => rw [CaseTables.lowerFrom,CaseTables.lowerIn,List.append_nil,ih]

theorem lower_append (before after front back : List Char) : tables.lowerIn before after (front ++ back) =
    tables.lowerIn before (back ++ after) front ++ tables.lowerIn (front.reverse ++ before) after back := by
  induction front generalizing before with
  | nil => rfl
  | cons c rest ih =>
      rw [List.cons_append,CaseTables.lowerIn,CaseTables.lowerIn,ih,List.append_assoc,List.append_assoc,List.reverse_cons,List.append_assoc]
      rfl

theorem cased_append (text : List Char) (same : tables.thenCased before = tables.thenCased before') :
    tables.thenCased (text ++ before) = tables.thenCased (text ++ before') := by
  induction text with
  | nil => exact same
  | cons c rest ih => rw [List.cons_append,List.cons_append,CaseTables.thenCased,CaseTables.thenCased,ih]

-- What is around counts only through the next character that is not ignorable.
theorem lower_around (text : List Char) (sameBefore : tables.thenCased before = tables.thenCased before')
    (sameAfter : tables.thenCased after = tables.thenCased after') : tables.lowerIn before after text = tables.lowerIn before' after' text := by
  induction text generalizing before before' with
  | nil => rfl
  | cons c rest ih =>
      have next : tables.thenCased (c :: before) = tables.thenCased (c :: before') := cased_append [c] sameBefore
      rw [CaseTables.lowerIn,CaseTables.lowerIn,ih next,CaseTables.lowerAt,CaseTables.lowerAt,sameBefore,cased_append rest sameAfter]

theorem plain_uncased (plain : ∀ c ∈ text, tables.Plain c) : tables.thenCased text = false := by
  induction text with
  | nil => rfl
  | cons c rest ih =>
      rw [CaseTables.thenCased,ih (fun d inside => plain d (List.mem_cons_of_mem _ inside)),(plain c List.mem_cons_self).2.1]
      exact ite_self _

-- Without capital sigmas each character is lower-cased for itself.
theorem lower_map {f : Char → Char} (before after : List Char) (each : ∀ c ∈ text, c ≠ 'Σ' ∧ tables.lower c = [f c]) :
    tables.lowerIn before after text = text.map f := by
  induction text generalizing before with
  | nil => rfl
  | cons c rest ih =>
      obtain ⟨other,is⟩ := each c List.mem_cons_self
      rw [CaseTables.lowerIn,CaseTables.lowerAt,if_neg other,is,ih _ (fun d inside => each d (List.mem_cons_of_mem _ inside))]
      rfl

theorem plain_lower (before after : List Char) (plain : ∀ c ∈ text, tables.Plain c) : tables.lowerIn before after text = text := by
  have each : ∀ c ∈ text, c ≠ 'Σ' ∧ tables.lower c = [id c] := fun c inside => ⟨(plain c inside).2.2,(plain c inside).1⟩
  rw [lower_map before after each,List.map_id]

theorem lower_framed (first : ∀ c ∈ front, tables.Plain c) (last : ∀ c ∈ back, tables.Plain c) (text : List Char) :
    tables.lowerFrom [] (front ++ text ++ back) = front ++ tables.lowerFrom [] text ++ back := by
  have begins : tables.thenCased (front.reverse ++ []) = tables.thenCased [] := by
    rw [List.append_nil]
    exact plain_uncased (fun c inside => first c (List.mem_reverse.mp inside))
  have ends : tables.thenCased (back ++ []) = tables.thenCased [] := by
    rw [List.append_nil]
    exact plain_uncased last
  rw [lower_whole,lower_whole,List.append_assoc,List.append_assoc,lower_append,lower_append,plain_lower _ _ first,plain_lower _ _ last]
  rw [lower_around text begins ends]

-- Tables whose own results stay as they are.
structure CaseTables.Settled (tables : CaseTables) : Prop where
  made : ∀ c, c ≠ 'Σ' → ∀ d ∈ tables.lower c, d ≠ 'Σ' ∧ tables.lower d = [d]
  sigmas : tables.lower 'σ' = ['σ'] ∧ tables.lower 'ς' = ['ς']

theorem settled_made (settled : tables.Settled) {c : Char} (inside : c ∈ tables.lowerIn before after text) : c ≠ 'Σ' ∧ tables.lower c = [c] := by
  induction text generalizing before with
  | nil => cases inside
  | cons d rest ih =>
      rw [CaseTables.lowerIn,List.mem_append] at inside
      rcases inside with here | later
      · by_cases sigma : d = 'Σ'
        · rw [CaseTables.lowerAt,if_pos sigma,List.mem_singleton] at here
          split at here
          · rw [here]
            exact ⟨by decide,settled.sigmas.2⟩
          · rw [here]
            exact ⟨by decide,settled.sigmas.1⟩
        · rw [CaseTables.lowerAt,if_neg sigma] at here
          exact settled.made d sigma c here
      · exact ih later

theorem to_lowercase_again (settled : tables.Settled) (text : String) : tables.toLowercase (tables.toLowercase text) = tables.toLowercase text := by
  have fixed : ∀ c ∈ tables.lowerFrom [] text.toList, c ≠ 'Σ' ∧ tables.lower c = [id c] := by
    intro c inside
    rw [lower_whole] at inside
    exact settled_made settled inside
  rw [CaseTables.toLowercase,CaseTables.toLowercase,String.toList_ofList,lower_whole,lower_map [] [] fixed,List.map_id]

theorem lower_grows {most : Nat} (some_ : 1 ≤ most) (short : ∀ c, (tables.lower c).length ≤ most) (before after text : List Char) :
    (tables.lowerIn before after text).length ≤ most*text.length := by
  induction text generalizing before with
  | nil => exact Nat.le_refl 0
  | cons c rest ih =>
      have tail := ih (c :: before)
      have here : (tables.lowerAt before c (rest ++ after)).length ≤ most := by
        rw [CaseTables.lowerAt]
        split
        · exact some_
        · exact short c
      rw [CaseTables.lowerIn,List.length_append,List.length_cons,Nat.mul_succ]
      omega

-- What the tables say of the characters of a kind that only separates words.
structure CaseTables.Separates (tables : CaseTables) (space : Char → Bool) : Prop where
  kept : ∀ c, space c = true → tables.lower c = [c]
  uncased : ∀ c, space c = true → tables.cased c = false
  counts : ∀ c, space c = true → tables.caseIgnorable c = false
  made : ∀ c, space c = false → tables.lower c ≠ [] ∧ ∀ d ∈ tables.lower c, space d = false
  sigmas : space 'Σ' = false ∧ space 'σ' = false ∧ space 'ς' = false

section
variable {space : Char → Bool} {change : Char → Char}

theorem space_plain (separates : tables.Separates space) {c : Char} (is : space c = true) : tables.Plain c := by
  refine ⟨separates.kept c is,separates.uncased c is,?_⟩
  rintro rfl
  exact absurd (separates.sigmas.1.symm.trans is) Bool.false_ne_true

theorem lower_nonempty (separates : tables.Separates space) (before : List Char) (c : Char) (after : List Char) : tables.lowerAt before c after ≠ [] := by
  rw [CaseTables.lowerAt]
  split
  · exact List.cons_ne_nil _ _
  · cases is : space c with
    | true =>
        rw [separates.kept c is]
        exact List.cons_ne_nil _ _
    | false => exact (separates.made c is).1

-- Each character leaves one or more.
theorem lower_length (separates : tables.Separates space) (before after text : List Char) : text.length ≤ (tables.lowerIn before after text).length := by
  induction text generalizing before with
  | nil => exact Nat.le_refl 0
  | cons c rest ih =>
      have some_ := List.length_pos_of_ne_nil (lower_nonempty separates before c (rest ++ after))
      have tail := ih (c :: before)
      rw [CaseTables.lowerIn,List.length_append,List.length_cons]
      omega

theorem lower_solid (separates : tables.Separates space) {c : Char} (solid : space c = false) {d : Char} (inside : d ∈ tables.lowerAt before c after) :
    space d = false := by
  rw [CaseTables.lowerAt] at inside
  split at inside
  · rw [List.mem_singleton.mp inside]
    split
    · exact separates.sigmas.2.2
    · exact separates.sigmas.2.1
  · exact (separates.made c solid).2 d inside

-- A text without separators at its ends gets none there.
theorem lower_bare (separates : tables.Separates space) (bare : TrimmedText.Bare space text) : TrimmedText.Bare space (tables.lowerFrom [] text) := by
  rw [lower_whole]
  rintro d (first | last)
  · cases text with
    | nil => cases first
    | cons c rest =>
        have some_ := lower_nonempty separates [] c (rest ++ [])
        rw [CaseTables.lowerIn,List.head?_append_of_ne_nil _ some_] at first
        exact lower_solid separates (bare c (.inl rfl)) (List.mem_of_head? first)
  · induction text using List.reverseRecOn with
    | nil => cases last
    | append_singleton front c _ =>
        have ends : tables.lowerIn (front.reverse ++ []) [] [c] = tables.lowerAt (front.reverse ++ []) c [] := List.append_nil _
        have some_ := lower_nonempty separates (front.reverse ++ []) c []
        rw [lower_append,ends,List.getLast?_append_of_ne_nil _ some_] at last
        exact lower_solid separates (bare c (.inr List.getLast?_concat)) (List.mem_of_getLast? last)

-- Separators replaced by separators.
theorem change_cased (separates : tables.Separates space) (keeps : ∀ c, space c = false → change c = c)
    (stays : ∀ c, space c = true → space (change c) = true) (text : List Char) : tables.thenCased (text.map change) = tables.thenCased text := by
  induction text with
  | nil => rfl
  | cons c rest ih =>
      rw [List.map_cons,CaseTables.thenCased,CaseTables.thenCased,ih]
      cases is : space c with
      | true =>
          rw [separates.counts c is,separates.counts _ (stays c is),separates.uncased c is,separates.uncased _ (stays c is)]
      | false => rw [keeps c is]

theorem change_lower (separates : tables.Separates space) (keeps : ∀ c, space c = false → change c = c)
    (stays : ∀ c, space c = true → space (change c) = true) (before after text : List Char) :
    tables.lowerIn (before.map change) (after.map change) (text.map change) = (tables.lowerIn before after text).map change := by
  induction text generalizing before with
  | nil => rfl
  | cons c rest ih =>
      have tail := ih (c :: before)
      rw [List.map_cons] at tail
      rw [List.map_cons,CaseTables.lowerIn,CaseTables.lowerIn,List.map_append,tail]
      congr 1
      cases is : space c with
      | true =>
          have plain := space_plain separates is
          have plain' := space_plain separates (stays c is)
          rw [CaseTables.lowerAt,CaseTables.lowerAt,if_neg plain.2.2,if_neg plain'.2.2,plain.1,plain'.1]
          rfl
      | false =>
          rw [keeps c is,← List.map_append,CaseTables.lowerAt,CaseTables.lowerAt]
          split
          · rw [change_cased separates keeps stays,change_cased separates keeps stays]
            split
            · exact congrArg (fun d => [d]) (keeps 'ς' separates.sigmas.2.2).symm
            · exact congrArg (fun d => [d]) (keeps 'σ' separates.sigmas.2.1).symm
          · symm
            exact (List.map_congr_left (fun d inside => keeps d ((separates.made c is).2 d inside))).trans (List.map_id _)

end

-- A text without small sigmas is found wherever it was.
theorem lower_starts {before' after' : List Char} (free : ∀ c ∈ part, c ≠ 'σ' ∧ c ≠ 'ς') (starts : part <+: tables.lowerIn before after text) :
    part <+: tables.lowerIn before' after' text := by
  induction text generalizing part before before' with
  | nil => exact starts
  | cons c rest ih =>
      rw [CaseTables.lowerIn] at starts ⊢
      by_cases sigma : c = 'Σ'
      · cases part with
        | nil => exact List.nil_prefix
        | cons d tail =>
            rw [CaseTables.lowerAt,if_pos sigma] at starts
            have first : d = if tables.thenCased before && !tables.thenCased (rest ++ after) then 'ς' else 'σ' := (List.cons_prefix_cons.mp starts).1
            have other := free d List.mem_cons_self
            split at first
            · exact absurd first other.2
            · exact absurd first other.1
      · have same : tables.lowerAt before' c (rest ++ after') = tables.lowerAt before c (rest ++ after) := by
          rw [CaseTables.lowerAt,CaseTables.lowerAt,if_neg sigma,if_neg sigma]
        rw [same]
        rcases List.prefix_or_prefix_of_prefix starts (List.prefix_append _ _) with inside | ⟨tail,is⟩
        · exact List.prefix_append_of_prefix inside
        · rw [← is,List.prefix_append_right_inj] at starts
          rw [← is,List.prefix_append_right_inj]
          exact ih (fun d member => free d (is ▸ List.mem_append_right _ member)) starts

end LowerCase
