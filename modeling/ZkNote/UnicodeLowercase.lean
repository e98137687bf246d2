import ZkNote.EditRoundTrip
import ZkNote.LowerCase
import ZkNote.SearchExact
import ZkNote.SnippetMatches

namespace ZkNote.UnicodeLowercase
open AttachmentFrame LowerCase NoteMergeLaws SearchExact SnippetMatches StdText TagLine TrimmedText

-- Facts of the Unicode tables: what lower-casing makes is lower case, it makes three
-- characters of one at most, and white space and ASCII are as everywhere else.
structure StandardTables (tables : CaseTables) : Prop where
  separates : tables.Separates isWhitespace
  settled : tables.Settled
  short : ∀ c, (tables.lower c).length ≤ 3
  ascii : ∀ c, c.utf8Size = 1 → tables.lower c = [c.toLower]

variable {tables : CaseTables}

theorem trim_bare_iff {text : String} : trim text = text ↔ Bare isWhitespace text.toList := by
  rw [← trim_same_iff,← trim_chars]
  exact String.toList_inj.symm

theorem standard_lowers (standard : StandardTables tables) : Lowers tables.toLowercase where
  again := to_lowercase_again standard.settled
  trimmed text trimmed := by
    rw [trim_bare_iff] at trimmed ⊢
    rw [CaseTables.toLowercase,String.toList_ofList]
    exact lower_bare standard.separates trimmed

theorem standard_ascii (standard : StandardTables tables) : LowersAscii tables.toLowercase := by
  intro text small
  have each : ∀ c ∈ text.toList, c ≠ 'Σ' ∧ tables.lower c = [c.toLower] := by
    intro c inside
    refine ⟨?_,standard.ascii c (small c inside)⟩
    rintro rfl
    exact absurd (small 'Σ' inside) (by decide)
  rw [CaseTables.toLowercase,lower_whole,lower_map [] [] each]
  rfl

theorem standard_grows (standard : StandardTables tables) : GrowsAtMostThreefold tables.toLowercase := by
  intro text
  rw [CaseTables.toLowercase,String.toList_ofList,lower_whole]
  exact lower_grows (by decide) standard.short [] [] text.toList

-- `str::to_lowercase` over such tables has what the proofs about notes, tags and the
-- search ask of the parameter that stands for it.
theorem to_lowercase_lawful (standard : StandardTables tables) : Lowers tables.toLowercase ∧ FoldStable tables.toLowercase ∧
    LowersAscii tables.toLowercase ∧ GrowsAtMostThreefold tables.toLowercase :=
  ⟨standard_lowers standard,foldTag_again (standard_lowers standard),standard_ascii standard,standard_grows standard⟩

theorem lower_apart {c d : Char} (large : 128 ≤ d.toNat) (other : c ≠ d) : c.toLower ≠ d := by
  rintro rfl
  rw [lower_code] at large
  split at large
  · omega
  · rename_i unchanged
    exact other (Char.toNat_inj.mp (by rw [lower_code,if_neg unchanged]))

theorem dotted_other {c : Char} (other : c ≠ 'İ') : dottedTables.lower c = [c.toLower] := if_neg other

theorem dotted_standard : StandardTables dottedTables := by
  have dotted : dottedTables.lower 'İ' = ['i','\u0307'] := rfl
  refine ⟨dotted_unicode.separates,⟨?_,by decide⟩,?_,?_⟩
  · intro c other d inside
    by_cases is : c = 'İ'
    · rw [is,dotted] at inside
      rcases List.mem_pair.mp inside with rfl | rfl
      · decide
      · decide
    · rw [dotted_other is,List.mem_singleton] at inside
      rw [inside,dotted_other (lower_apart (by decide) is),lower_again]
      exact ⟨lower_apart (by decide) other,rfl⟩
  · intro c
    by_cases is : c = 'İ'
    · simp [is,dotted]
    · simp [dotted_other is]
  · intro c small
    refine dotted_other ?_
    rintro rfl
    exact absurd small (by decide)

end ZkNote.UnicodeLowercase
