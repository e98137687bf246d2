import ZkNote.MergeLaws
import ZkNote.NoteSets

namespace ZkNote.NoteMergeLaws
open PlaintextNotes CanonicalText Diff3 NoteMerge NoteSets MergeLaws StdText

-- `str::to_lowercase`: lower-case text stays as it is, and no white space comes
-- to the ends of a text that had none there.
structure Lowers (lower : String → String) : Prop where
  again : ∀ text, lower (lower text) = lower text
  trimmed : ∀ text, trim text = text → trim (lower text) = lower text

variable {lower : String → String} {list : List String} {tag : String} {base mine theirs : PlaintextNote}

theorem foldTag_again (lowers : Lowers lower) (tag : String) : foldTag lower (foldTag lower tag) = foldTag lower tag := by
  unfold foldTag
  rw [lowers.trimmed _ (trim_again tag),lowers.again]

theorem merged_folded (lowers : Lowers lower) {base mine theirs : List String} (inside : tag ∈ mergeTags lower base mine theirs) :
    tag ≠ "" ∧ foldTag lower tag = tag := by
  obtain ⟨some_,survives⟩ := mem_mergeTags.mp inside
  refine ⟨some_,?_⟩
  have held : tag ∈ foldedTags lower base ∨ tag ∈ foldedTags lower mine ∨ tag ∈ foldedTags lower theirs := by
    simp only [survivors,Finset.mem_union,Finset.mem_inter,Finset.mem_sdiff] at survives
    tauto
  rcases held with there | there | there
  all_goals
    obtain ⟨tag',_,rfl⟩ := List.mem_map.mp (List.mem_toFinset.mp there)
    exact foldTag_again lowers tag'

-- The canonical form at the end does not touch the tags that were merged.
theorem candidate_tags (lowers : Lowers lower) (now : String) :
    (threeWayMergeNote lower now base mine theirs).candidate.tags = mergeTags lower base.tags mine.tags theirs.tags :=
  tags_again mergeTags_strict (fun _ inside => merged_folded lowers inside)

theorem candidate_attachments (now : String) :
    (threeWayMergeNote lower now base mine theirs).candidate.attachments = mergeAttachments base.attachments mine.attachments theirs.attachments := rfl

theorem mem_survivors {base mine theirs : Finset String} : tag ∈ survivors base mine theirs ↔
    tag ∈ base ∧ tag ∈ mine ∧ tag ∈ theirs ∨ tag ∉ base ∧ (tag ∈ mine ∨ tag ∈ theirs) := by
  simp only [survivors,Finset.mem_union,Finset.mem_inter,Finset.mem_sdiff]
  tauto

section
variable (base mine theirs : Finset String)

theorem survivors_mine_kept : survivors base base theirs = theirs := by
  ext tag
  rw [mem_survivors]
  tauto

theorem survivors_theirs_kept : survivors base mine base = mine := by
  ext tag
  rw [mem_survivors]
  tauto

theorem survivors_alike : survivors base mine mine = mine := by
  ext tag
  rw [mem_survivors]
  tauto

theorem survivors_exchanged : survivors base theirs mine = survivors base mine theirs := by
  ext tag
  rw [mem_survivors,mem_survivors]
  tauto

end

-- Merged sets are determined by what survives.
theorem tags_survivors {base mine theirs set : List String} (kept : survivors (foldedTags lower base) (foldedTags lower mine) (foldedTags lower theirs) =
    foldedTags lower set) : mergeTags lower base mine theirs = canonicalTags lower set :=
  strict_ext mergeTags_strict canonicalTags_strict (fun tag => by rw [mem_mergeTags,mem_canonicalTags,kept])

theorem attachments_survivors {base mine theirs set : List String} (kept : survivors base.toFinset mine.toFinset theirs.toFinset = set.toFinset) :
    mergeAttachments base mine theirs = ordered set :=
  strict_ext mergeAttachments_strict (ordered_strict set) (fun tag => by rw [mem_mergeAttachments,mem_ordered,kept,List.mem_toFinset])

theorem tags_exchanged (base mine theirs : List String) : mergeTags lower base theirs mine = mergeTags lower base mine theirs :=
  strict_ext mergeTags_strict mergeTags_strict (fun tag => by rw [mem_mergeTags,mem_mergeTags,survivors_exchanged])

theorem attachments_exchanged (base mine theirs : List String) : mergeAttachments base theirs mine = mergeAttachments base mine theirs :=
  strict_ext mergeAttachments_strict mergeAttachments_strict (fun tag => by rw [mem_mergeAttachments,mem_mergeAttachments,survivors_exchanged])

-- Titles that both sides changed, and not alike.
def TitlesDiverge (base mine theirs : PlaintextNote) : Prop :=
  mine.title ≠ base.title ∧ theirs.title ≠ base.title ∧ mine.title ≠ theirs.title

theorem title_conflicts_iff (base mine theirs : PlaintextNote) :
    titleConflicts (mergeScalarField base.title mine.title theirs.title) = [] ↔ ¬TitlesDiverge base mine theirs := by
  unfold mergeScalarField TitlesDiverge
  by_cases left : mine.title = base.title <;> by_cases right : theirs.title = base.title <;> by_cases same : mine.title = theirs.title <;>
    simp [left,right,same,titleConflicts]

theorem clean_iff (now : String) : (threeWayMergeNote lower now base mine theirs).isClean = true ↔
    ¬TitlesDiverge base mine theirs ∧ (diff3Merge base.body mine.body theirs.body).isClean = true := by
  have body := (mergeBody_diff base.body mine.body theirs.body).2
  show (titleConflicts _ ++ (mergeBody base.body mine.body theirs.body _).2.2).isEmpty = true ↔ _
  rw [List.isEmpty_iff,List.append_eq_nil_iff,title_conflicts_iff,body]
  by_cases clean : (diff3Merge base.body mine.body theirs.body).isClean = true
  · simp [clean]
  · simp [clean]

theorem title_exchanged (agree : ¬TitlesDiverge base mine theirs) :
    (mergeScalarField base.title theirs.title mine.title).value = (mergeScalarField base.title mine.title theirs.title).value := by
  unfold TitlesDiverge at agree
  unfold mergeScalarField
  by_cases left : mine.title = base.title <;> by_cases right : theirs.title = base.title <;> by_cases same : mine.title = theirs.title <;>
    simp_all [FieldMergeStatus.value]

theorem body_exchanged (clean : (diff3Merge base.body mine.body theirs.body).isClean = true) :
    (mergeBody base.body theirs.body mine.body (diff3Merge base.body theirs.body mine.body)).1 =
      (mergeBody base.body mine.body theirs.body (diff3Merge base.body mine.body theirs.body)).1 := by
  rw [(mergeBody_diff base.body theirs.body mine.body).1,(mergeBody_diff base.body mine.body theirs.body).1]
  exact text_exchanged base.body mine.body theirs.body clean

theorem diverge_exchanged : TitlesDiverge base theirs mine ↔ TitlesDiverge base mine theirs :=
  ⟨fun ⟨one,two,apart⟩ => ⟨two,one,Ne.symm apart⟩,fun ⟨one,two,apart⟩ => ⟨two,one,Ne.symm apart⟩⟩

-- The laws of the merge, for two devices with a clock each.
structure Lawful (lower : String → String) (now now' : String) (base mine theirs : PlaintextNote) : Prop where
  tagsInOrder : (threeWayMergeNote lower now base mine theirs).candidate.tags.Pairwise (· < ·)
  tags : ∀ tag, tag ∈ (threeWayMergeNote lower now base mine theirs).candidate.tags ↔ tag ≠ "" ∧
    (tag ∈ base.tags.map (foldTag lower) ∧ tag ∈ mine.tags.map (foldTag lower) ∧ tag ∈ theirs.tags.map (foldTag lower) ∨
      tag ∉ base.tags.map (foldTag lower) ∧ (tag ∈ mine.tags.map (foldTag lower) ∨ tag ∈ theirs.tags.map (foldTag lower)))
  attachmentsInOrder : (threeWayMergeNote lower now base mine theirs).candidate.attachments.Pairwise (· < ·)
  attachments : ∀ id, id ∈ (threeWayMergeNote lower now base mine theirs).candidate.attachments ↔
    (id ∈ base.attachments ∧ id ∈ mine.attachments ∧ id ∈ theirs.attachments ∨
      id ∉ base.attachments ∧ (id ∈ mine.attachments ∨ id ∈ theirs.attachments))
  mineKept : (threeWayMergeNote lower now base base theirs).candidate.tags = canonicalTags lower theirs.tags ∧
    (threeWayMergeNote lower now base base theirs).candidate.attachments = ordered theirs.attachments
  theirsKept : (threeWayMergeNote lower now base mine base).candidate.tags = canonicalTags lower mine.tags ∧
    (threeWayMergeNote lower now base mine base).candidate.attachments = ordered mine.attachments
  alike : (threeWayMergeNote lower now base mine mine).candidate.tags = canonicalTags lower mine.tags ∧
    (threeWayMergeNote lower now base mine mine).candidate.attachments = ordered mine.attachments
  setsExchanged : (threeWayMergeNote lower now' base theirs mine).candidate.tags = (threeWayMergeNote lower now base mine theirs).candidate.tags ∧
    (threeWayMergeNote lower now' base theirs mine).candidate.attachments = (threeWayMergeNote lower now base mine theirs).candidate.attachments
  verdictExchanged : (threeWayMergeNote lower now' base theirs mine).isClean = (threeWayMergeNote lower now base mine theirs).isClean
  textExchanged : (threeWayMergeNote lower now base mine theirs).isClean = true →
    (threeWayMergeNote lower now' base theirs mine).candidate.title = (threeWayMergeNote lower now base mine theirs).candidate.title ∧
    (threeWayMergeNote lower now' base theirs mine).candidate.body = (threeWayMergeNote lower now base mine theirs).candidate.body
  clean : (threeWayMergeNote lower now base mine theirs).isClean = true ↔
    ¬TitlesDiverge base mine theirs ∧ (diff3Merge base.body mine.body theirs.body).isClean = true
  canonical : (threeWayMergeNote lower now base mine theirs).candidate.canonicalize lower = (threeWayMergeNote lower now base mine theirs).candidate

theorem note_merge_lawful (lowers : Lowers lower) (now now' : String) (base mine theirs : PlaintextNote) :
    Lawful lower now now' base mine theirs where
  tagsInOrder := by
    rw [candidate_tags lowers]
    exact mergeTags_strict
  tags tag := by
    rw [candidate_tags lowers,mem_mergeTags,mem_survivors]
    simp only [foldedTags,List.mem_toFinset]
  attachmentsInOrder := mergeAttachments_strict
  attachments id := by
    rw [candidate_attachments,mem_mergeAttachments,mem_survivors]
    simp only [List.mem_toFinset]
  mineKept := by
    rw [candidate_tags lowers,candidate_attachments]
    exact ⟨tags_survivors (survivors_mine_kept _ _),attachments_survivors (survivors_mine_kept _ _)⟩
  theirsKept := by
    rw [candidate_tags lowers,candidate_attachments]
    exact ⟨tags_survivors (survivors_theirs_kept _ _),attachments_survivors (survivors_theirs_kept _ _)⟩
  alike := by
    rw [candidate_tags lowers,candidate_attachments]
    exact ⟨tags_survivors (survivors_alike _ _),attachments_survivors (survivors_alike _ _)⟩
  setsExchanged := by
    rw [candidate_tags lowers,candidate_tags lowers,candidate_attachments,candidate_attachments]
    exact ⟨tags_exchanged _ _ _,attachments_exchanged _ _ _⟩
  verdictExchanged := by
    rw [Bool.eq_iff_iff,clean_iff,clean_iff,diverge_exchanged,verdict_exchanged base.body mine.body theirs.body]
  textExchanged clean := by
    obtain ⟨titles,bodies⟩ := (clean_iff now).mp clean
    exact ⟨congrArg stripBom (title_exchanged titles),congrArg (fun body => unixNewlines (stripBom body)) (body_exchanged bodies)⟩
  clean := clean_iff now
  canonical := canonicalize_again (foldTag_again lowers) _

-- Lower case as it is for texts of ASCII letters.
def asciiLower (text : String) : String := String.ofList (text.toList.map Char.toLower)

theorem lower_code (c : Char) : c.toLower.toNat = if 0x41 ≤ c.toNat ∧ c.toNat ≤ 0x5a then c.toNat+0x20 else c.toNat := by
  unfold Char.toLower
  by_cases upper : c.val ≥ 'A'.val ∧ c.val ≤ 'Z'.val
  · rw [dif_pos upper]
    have low : 0x41 ≤ c.toNat := UInt32.le_iff_toNat_le.mp upper.1
    have high : c.toNat ≤ 0x5a := UInt32.le_iff_toNat_le.mp upper.2
    rw [if_pos ⟨low,high⟩]
    show (c.val+('a'.val - 'A'.val)).toNat = _
    rw [UInt32.toNat_add]
    show (c.toNat+0x20) % 2^32 = _
    omega
  · rw [dif_neg upper,if_neg]
    rintro ⟨low,high⟩
    exact upper ⟨UInt32.le_iff_toNat_le.mpr low,UInt32.le_iff_toNat_le.mpr high⟩

theorem lower_again (c : Char) : c.toLower.toLower = c.toLower := by
  apply Char.toNat_inj.mp
  rw [lower_code c.toLower,lower_code c]
  split
  · split
    · omega
    · rfl
  · rfl

theorem lower_white (c : Char) : isWhitespace c.toLower = isWhitespace c := by
  unfold isWhitespace
  dsimp only
  rw [lower_code c]
  split
  · rw [Bool.eq_iff_iff]
    simp
    omega
  · rfl

theorem lower_edges (list : List Char) : (list.map Char.toLower).dropWhile isWhitespace = (list.dropWhile isWhitespace).map Char.toLower := by
  rw [List.dropWhile_map]
  have same : isWhitespace ∘ Char.toLower = isWhitespace := funext lower_white
  rw [same]

theorem ascii_lowers : Lowers asciiLower where
  again text := by
    unfold asciiLower
    rw [String.toList_ofList,List.map_map]
    exact congrArg String.ofList (List.map_congr_left (fun c _ => lower_again c))
  trimmed text trimmed := by
    unfold asciiLower trim trimBy at *
    have chars := congrArg String.toList trimmed
    rw [String.toList_ofList] at chars
    rw [String.toList_ofList,lower_edges,← List.map_reverse,lower_edges,← List.map_reverse,chars]

theorem mixed_case_merges :
    (threeWayMergeNote asciiLower "t" ⟨1,"plan","a\nx\nb",["Work"],"t0","t0",["m"]⟩ ⟨1,"plan","c\nx\nb",["work "," Home"],"t0","t1",["m"]⟩
      ⟨1,"plan","a\nx\nd",["WORK"],"t0","t2",[]⟩).candidate.tags.Pairwise (· < ·) ∧
    (threeWayMergeNote asciiLower "t" ⟨1,"plan","a\nx\nb",["Work"],"t0","t0",["m"]⟩ ⟨1,"plan","c\nx\nb",["work "," Home"],"t0","t1",["m"]⟩
      ⟨1,"plan","a\nx\nd",["WORK"],"t0","t2",[]⟩).candidate.tags = ["home","work"] :=
  ⟨(note_merge_lawful ascii_lowers "t" "t" _ _ _).tagsInOrder,by decide +kernel⟩

end ZkNote.NoteMergeLaws
