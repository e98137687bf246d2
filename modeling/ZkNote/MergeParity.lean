import Mathlib.Data.List.TakeWhile
import ZkNote.CanonicalText
import ZkNote.NoteSets
import ZkNote.StableSort
import ZkNote.StorageBackends
import ZkNote.WebMerge

namespace ZkNote.MergeParity
open LcsGrid PlaintextNotes Diff3 NoteMerge IndexedDb NoteSets CanonicalText

theorem pairs_same {α : Type} [DecidableEq α] (a b : List α) : WebMerge.lcsMatchedPairs a b = lcsMatchedPairs a b := by
  have cores : (fun a b : List α => matched a b (WebMerge.flat a.length b.length)) = fun a b => matched a b (rows a.length b.length) := by
    funext a b
    rw [matched_eq,matched_eq]
  unfold WebMerge.lcsMatchedPairs lcsMatchedPairs
  rw [cores]

section
variable {block : (mine base theirs : List String) → List String} (base mine theirs : List String)

-- The number of vertical bars: the base marker has seven, and nothing that the
-- canonical form changes has any.
def barsOf (text : String) : Nat := text.toList.count '|'

def bars (lines : List String) : Nat := (lines.map barsOf).sum

def baseBars (conflicts : List BodyConflict) : Nat := (conflicts.map (fun c => 7+bars c.baseLines)).sum

theorem bars_append (xs ys : List String) : bars (xs ++ ys) = bars xs+bars ys := by
  simp [bars]

theorem chunk_same (bStart : Nat) :
    (processChunk conflictBlock bStart base mine theirs).2 = (processChunk WebMerge.conflictBlock bStart base mine theirs).2 ∧
    ((processChunk conflictBlock bStart base mine theirs).2 = [] →
      (processChunk conflictBlock bStart base mine theirs).1 = (processChunk WebMerge.conflictBlock bStart base mine theirs).1) ∧
    bars (processChunk conflictBlock bStart base mine theirs).1 =
      bars (processChunk WebMerge.conflictBlock bStart base mine theirs).1+baseBars (processChunk conflictBlock bStart base mine theirs).2 := by
  unfold processChunk
  split
  · exact ⟨rfl,fun _ => rfl,rfl⟩
  · exact ⟨rfl,fun _ => rfl,rfl⟩
  · exact ⟨rfl,fun _ => rfl,rfl⟩
  · split
    · exact ⟨rfl,fun _ => rfl,rfl⟩
    · refine ⟨rfl,(fun none => by cases none),?_⟩
      have marker : barsOf "||||||| BASE" = 7 := by decide
      simp only [conflictBlock,WebMerge.conflictBlock,baseBars,bars,List.map_cons,List.map_append,List.sum_cons,List.sum_append,List.map_nil,
        List.sum_nil,marker]
      omega

theorem chunks_same (anchors : List (Nat × Nat × Nat)) (prevB prevL prevR : Nat) :
    (mergeChunks conflictBlock base mine theirs prevB prevL prevR anchors).2 =
      (mergeChunks WebMerge.conflictBlock base mine theirs prevB prevL prevR anchors).2 ∧
    ((mergeChunks conflictBlock base mine theirs prevB prevL prevR anchors).2 = [] →
      (mergeChunks conflictBlock base mine theirs prevB prevL prevR anchors).1 =
        (mergeChunks WebMerge.conflictBlock base mine theirs prevB prevL prevR anchors).1) ∧
    bars (mergeChunks conflictBlock base mine theirs prevB prevL prevR anchors).1 =
      bars (mergeChunks WebMerge.conflictBlock base mine theirs prevB prevL prevR anchors).1+
        baseBars (mergeChunks conflictBlock base mine theirs prevB prevL prevR anchors).2 := by
  induction anchors generalizing prevB prevL prevR with
  | nil => exact chunk_same _ _ _ _
  | cons anchor rest ih =>
      obtain ⟨b,l,r⟩ := anchor
      obtain ⟨conflicts,lines,count⟩ := chunk_same (slice base prevB b) (slice mine prevL l) (slice theirs prevR r) prevB
      obtain ⟨others,laterLines,laterCount⟩ := ih (b+1) (l+1) (r+1)
      refine ⟨?_,fun none => ?_,?_⟩
      · rw [mergeChunks,mergeChunks]
        dsimp only
        rw [conflicts,others]
      · rw [mergeChunks] at none
        obtain ⟨here,there⟩ := List.append_eq_nil_iff.mp none
        rw [mergeChunks,mergeChunks]
        dsimp only
        rw [lines here,laterLines there]
      · rw [mergeChunks,mergeChunks]
        dsimp only
        rw [bars_append,bars_append,bars_append,bars_append,count,laterCount]
        simp only [baseBars,List.map_append,List.sum_append]
        omega

end

theorem barsOf_append (a b : String) : barsOf (a ++ b) = barsOf a+barsOf b := by
  simp [barsOf]

theorem join_bars (lines : List String) : barsOf (String.intercalate "\n" lines) = bars lines := by
  induction lines with
  | nil => rfl
  | cons line rest ih =>
      cases rest with
      | nil => rw [String.intercalate_singleton]; rfl
      | cons next rest =>
          have newline : barsOf "\n" = 0 := by decide
          rw [String.intercalate_cons_cons,barsOf_append,barsOf_append,newline,ih,Nat.add_zero]
          rfl

theorem crlf_bars (text : List Char) : (replaceCrLf text).count '|' = text.count '|' := by
  induction text using replaceCrLf.induct with
  | case1 rest ih =>
      rw [replaceCrLf,List.count_cons_of_ne (by decide),List.count_cons_of_ne (by decide),List.count_cons_of_ne (by decide),ih]
  | case2 c rest other ih =>
      rw [replaceCrLf]
      · rw [List.count_cons,List.count_cons,ih]
      · exact other
  | case3 => rfl

theorem canonical_bars (text : String) : barsOf (unixNewlines (stripBom text)) = barsOf text := by
  have newlines : ∀ chars : List Char, (chars.map (fun c => if c = '\r' then '\n' else c)).count '|' = chars.count '|' := by
    intro chars
    induction chars with
    | nil => rfl
    | cons c rest ih =>
        rw [List.map_cons,List.count_cons,List.count_cons,ih]
        by_cases carriage : c = '\r' <;> simp [carriage]
  have marks : (text.toList.takeWhile (· = byteOrderMark)).count '|' = 0 := by
    refine List.count_eq_zero.mpr (fun inside => ?_)
    have mark := List.mem_takeWhile_imp inside
    exact absurd mark (by decide)
  have whole := congrArg (List.count '|') (List.takeWhile_append_dropWhile (p := (· = byteOrderMark)) (l := text.toList))
  rw [List.count_append,marks,Nat.zero_add] at whole
  unfold barsOf unixNewlines
  rw [String.toList_ofList,newlines,crlf_bars,stripBom,String.toList_ofList,whole]

theorem body_agree (base mine theirs : String) :
    (diff3Merge base mine theirs).isClean = (WebMerge.diff3Merge base mine theirs).isClean ∧
    (diff3Merge base mine theirs).conflicts = (WebMerge.diff3Merge base mine theirs).conflicts ∧
    (unixNewlines (stripBom (diff3Merge base mine theirs).mergedText) = (WebMerge.diff3Merge base mine theirs).mergedText ↔
      (diff3Merge base mine theirs).isClean = true ∧ (diff3Merge base mine theirs).mergedText.toList.head? ≠ some byteOrderMark ∧
        '\r' ∉ (diff3Merge base mine theirs).mergedText.toList) := by
  -- One side's text, taken as it is by both.
  have taken : ∀ text : String, unixNewlines (stripBom text) = text ↔
      true = true ∧ text.toList.head? ≠ some byteOrderMark ∧ '\r' ∉ text.toList := by
    intro text
    constructor
    · intro same
      exact ⟨rfl,same ▸ unix_head (stripBom_head text),same ▸ unix_plain _⟩
    · rintro ⟨_,head,plain⟩
      rw [stripBom_of_head head,unix_of_plain plain]
  have pairs : WebMerge.lcsMatchedPairs = lcsMatchedPairs (α := String) := funext (fun a => funext (fun b => pairs_same a b))
  unfold diff3Merge WebMerge.diff3Merge mergeTexts
  split
  · exact ⟨rfl,rfl,taken mine⟩
  · split
    · exact ⟨rfl,rfl,taken mine⟩
    · split
      · exact ⟨rfl,rfl,taken theirs⟩
      · dsimp only
        rw [pairs]
        obtain ⟨conflicts,lines,count⟩ := chunks_same (linesOf base) (linesOf mine) (linesOf theirs)
          (commonAnchors lcsMatchedPairs (linesOf base) (linesOf mine) (linesOf theirs)) 0 0 0
        refine ⟨by rw [conflicts],conflicts,?_⟩
        by_cases clean : (mergeChunks conflictBlock (linesOf base) (linesOf mine) (linesOf theirs) 0 0 0
            (commonAnchors lcsMatchedPairs (linesOf base) (linesOf mine) (linesOf theirs))).2 = []
        · rw [← lines clean,clean]
          exact taken _
        · refine iff_of_false (fun same => ?_) (fun is => clean (List.isEmpty_iff.mp is.1))
          have bars := congrArg barsOf same
          rw [canonical_bars,join_bars,join_bars,count] at bars
          obtain ⟨first,rest,some⟩ := List.exists_cons_of_ne_nil clean
          rw [some,baseBars,List.map_cons,List.sum_cons] at bars
          omega

theorem title_agree (base mine theirs : String) :
    (WebMerge.mergeTitle base mine theirs).1 = (mergeScalarField base mine theirs).value ∧
    ((WebMerge.mergeTitle base mine theirs).2 = true ↔ titleConflicts (mergeScalarField base mine theirs) ≠ []) := by
  unfold WebMerge.mergeTitle mergeScalarField
  generalize decide (mine ≠ base) = localChanged
  generalize decide (theirs ≠ base) = remoteChanged
  cases localChanged <;> cases remoteChanged
  · simp [FieldMergeStatus.value,titleConflicts]
  · simp [FieldMergeStatus.value,titleConflicts]
  · simp [FieldMergeStatus.value,titleConflicts]
  · by_cases same : mine = theirs <;> simp [same,FieldMergeStatus.value,titleConflicts]

theorem mem_jsSet {tag : String} {list : List String} : tag ∈ WebMerge.jsSet list ↔ tag ∈ list := by
  induction list with
  | nil => rfl
  | cons first rest ih =>
      rw [WebMerge.jsSet,List.mem_cons,List.mem_cons,List.mem_filter,ih]
      by_cases same : tag = first <;> simp [same]

theorem jsSet_nodup (list : List String) : (WebMerge.jsSet list).Nodup := by
  induction list with
  | nil => exact List.nodup_nil
  | cons first rest ih =>
      rw [WebMerge.jsSet,List.nodup_cons]
      exact ⟨fun inside => by simpa using (List.mem_filter.mp inside).2,ih.filter _⟩

section
variable {collation : Collation} {all target : List String} {keep : String → Bool}

instance : Std.Total (WebMerge.sortedBefore collation) := ⟨fun a b => by
  unfold WebMerge.sortedBefore
  rw [collation.swapped a b]
  cases collation.localeCompare a b <;> simp⟩

instance : IsTrans String (WebMerge.sortedBefore collation) := ⟨fun a b c => collation.transitive a b c⟩

-- Ties of the locale stay in the order in which the merge met them.
def metBefore (all : List String) (a b : String) : Prop := all.idxOf a ≤ all.idxOf b

instance : Std.Total (metBefore all) := ⟨fun a b => Nat.le_total (all.idxOf a) (all.idxOf b)⟩

theorem met_in_order (nodup : all.Nodup) : all.Pairwise (metBefore all) := by
  rw [List.pairwise_iff_getElem]
  intro i j first second order
  unfold metBefore
  rw [nodup.idxOf_getElem i first,nodup.idxOf_getElem j second]
  exact order.le

theorem strict_pairwise {R : String → String → Prop} (strict : target.Pairwise (· < ·)) :
    target.Pairwise R ↔ ∀ x ∈ target, ∀ y ∈ target, x < y → R x y := by
  constructor
  · intro pairwise x first y second less
    rcases StableSort.pair_of_mem first second less.ne with pair | pair
    · exact List.pairwise_iff_forall_sublist.mp pairwise pair
    · exact absurd (List.pairwise_iff_forall_sublist.mp strict pair) (not_lt_of_gt less)
  · intro all
    exact strict.imp_of_mem (fun first second less => all _ first _ second less)

theorem sorted_agree (nodup : all.Nodup) (strict : target.Pairwise (· < ·)) :
    target = (all.filter keep).insertionSort (WebMerge.sortedBefore collation) ↔
      (∀ tag, tag ∈ target ↔ tag ∈ all ∧ keep tag = true) ∧
      ∀ x ∈ target, ∀ y ∈ target, x < y → StableSort.Then (WebMerge.sortedBefore collation) (metBefore all) x y := by
  have unique : target.Nodup := strict.imp (fun less => ne_of_lt less)
  have filtered := nodup.filter keep
  have iff : ∀ perm : target.Perm (all.filter keep), (all.filter keep).insertionSort (WebMerge.sortedBefore collation) = target ↔ _ := fun perm =>
    StableSort.resorted_iff ((met_in_order nodup).filter keep) filtered perm (fun a first b second forth back =>
      (List.idxOf_inj (List.mem_filter.mp first).1).mp (le_antisymm forth back))
  constructor
  · intro same
    have perm : target.Perm (all.filter keep) := same ▸ List.perm_insertionSort _ _
    exact ⟨fun tag => perm.mem_iff.trans List.mem_filter,(strict_pairwise strict).mp ((iff perm).mp same.symm)⟩
  · rintro ⟨members,order⟩
    have perm : target.Perm (all.filter keep) := (List.perm_ext_iff_of_nodup unique filtered).mpr (fun tag => (members tag).trans List.mem_filter.symm)
    exact ((iff perm).mpr ((strict_pairwise strict).mpr order)).symm

end

def noteOf (dto : WebMerge.PlaintextNoteDto) : PlaintextNote :=
  ⟨noteSchemaVersionV1,dto.title,dto.body,dto.tags,dto.createdAt,dto.updatedAt,dto.attachments⟩

def baseNote (now : String) (base : Option WebMerge.PlaintextNoteDto) : PlaintextNote := base.elim (PlaintextNote.new "" "" now) noteOf

-- The two outcomes, timestamps set aside.
structure Agree (outcome : NoteMergeOutcome) (web : WebMerge.ThreeWayNoteMergeResult) : Prop where
  verdict : outcome.isClean = web.isClean
  titleConflict : web.hasTitleConflict = true ↔ ∃ base mine theirs, .title base mine theirs ∈ outcome.conflicts
  bodyConflict : web.hasBodyConflict = true ↔ ∃ base mine theirs, .body base mine theirs ∈ outcome.conflicts
  chunks : outcome.bodyDiff.map (·.conflicts) = some web.diffResult.conflicts
  title : outcome.candidate.title = web.candidate.title
  body : outcome.candidate.body = web.candidate.body
  tags : outcome.candidate.tags = web.candidate.tags
  attachments : outcome.candidate.attachments = web.candidate.attachments

-- A part that at most one side has changed, or both alike.
def Undisputed {α : Type} (base mine theirs : α) : Prop := mine = theirs ∨ theirs = base ∨ mine = base

-- What the merges keep of such a part.
def taken {α : Type} [DecidableEq α] (base mine theirs : α) : α := if mine = base then theirs else mine

structure Piece where
  base : List String
  mine : List String
  theirs : List String

-- The lines that all three texts share, one by one, and what stands between them.
def pieces (base mine theirs : List String) : Nat → Nat → Nat → List (Nat × Nat × Nat) → List Piece
  | prevB,prevL,prevR,[] => [⟨slice base prevB base.length,slice mine prevL mine.length,slice theirs prevR theirs.length⟩]
  | prevB,prevL,prevR,(b,l,r) :: rest =>
    ⟨slice base prevB b,slice mine prevL l,slice theirs prevR r⟩ :: ⟨base[b]?.toList,base[b]?.toList,base[b]?.toList⟩ ::
      pieces base mine theirs (b+1) (l+1) (r+1) rest

def piecesOf (base mine theirs : String) : List Piece :=
  let baseLines := linesOf base
  let localLines := linesOf mine
  let remoteLines := linesOf theirs
  pieces baseLines localLines remoteLines 0 0 0 (commonAnchors lcsMatchedPairs baseLines localLines remoteLines)

def Settled (base mine theirs : String) : Prop :=
  Undisputed base mine theirs ∨ ∀ piece ∈ piecesOf base mine theirs, Undisputed piece.base piece.mine piece.theirs

instance {α : Type} [DecidableEq α] (base mine theirs : α) : Decidable (Undisputed base mine theirs) :=
  inferInstanceAs (Decidable (_ ∨ _ ∨ _))

def takenBody (base mine theirs : String) : String :=
  if Undisputed base mine theirs then taken base mine theirs
  else String.intercalate "\n" ((piecesOf base mine theirs).flatMap (fun piece => taken piece.base piece.mine piece.theirs))

-- What the canonical form leaves as it is.
def PlainText (text : String) : Prop := text.toList.head? ≠ some byteOrderMark ∧ '\r' ∉ text.toList

theorem chunk_settled (block : (mine base theirs : List String) → List String) (bStart : Nat) (base mine theirs : List String) :
    ((processChunk block bStart base mine theirs).2 = [] ↔ Undisputed base mine theirs) ∧
    (Undisputed base mine theirs → (processChunk block bStart base mine theirs).1 = taken base mine theirs) := by
  unfold processChunk Undisputed taken
  by_cases left : mine = base <;> by_cases right : theirs = base <;> by_cases same : mine = theirs <;> simp [left,right,same]

theorem chunks_settled (block : (mine base theirs : List String) → List String) (base mine theirs : List String)
    (anchors : List (Nat × Nat × Nat)) (prevB prevL prevR : Nat) :
    ((mergeChunks block base mine theirs prevB prevL prevR anchors).2 = [] ↔
      ∀ piece ∈ pieces base mine theirs prevB prevL prevR anchors, Undisputed piece.base piece.mine piece.theirs) ∧
    ((mergeChunks block base mine theirs prevB prevL prevR anchors).2 = [] →
      (mergeChunks block base mine theirs prevB prevL prevR anchors).1 =
        (pieces base mine theirs prevB prevL prevR anchors).flatMap (fun piece => taken piece.base piece.mine piece.theirs)) := by
  induction anchors generalizing prevB prevL prevR with
  | nil =>
      obtain ⟨clean,text⟩ := chunk_settled block prevB (slice base prevB base.length) (slice mine prevL mine.length) (slice theirs prevR theirs.length)
      rw [mergeChunks,pieces,List.forall_mem_singleton,List.flatMap_singleton]
      exact ⟨clean,fun none => text (clean.mp none)⟩
  | cons anchor rest ih =>
      obtain ⟨b,l,r⟩ := anchor
      obtain ⟨clean,text⟩ := chunk_settled block prevB (slice base prevB b) (slice mine prevL l) (slice theirs prevR r)
      obtain ⟨later,laterText⟩ := ih (b+1) (l+1) (r+1)
      have shared : Undisputed base[b]?.toList base[b]?.toList base[b]?.toList := .inl rfl
      have line : taken base[b]?.toList base[b]?.toList base[b]?.toList = base[b]?.toList := if_pos rfl
      rw [mergeChunks,pieces]
      dsimp only
      rw [List.append_eq_nil_iff,clean,later,List.forall_mem_cons,List.forall_mem_cons]
      refine ⟨⟨fun ⟨here,there⟩ => ⟨here,shared,there⟩,fun ⟨here,_,there⟩ => ⟨here,there⟩⟩,fun ⟨here,there⟩ => ?_⟩
      rw [List.flatMap_cons,List.flatMap_cons,text here,laterText (later.mpr there),line,List.append_assoc]

theorem body_settled (base mine theirs : String) :
    ((diff3Merge base mine theirs).isClean = true ↔ Settled base mine theirs) ∧
    (Settled base mine theirs → (diff3Merge base mine theirs).mergedText = takenBody base mine theirs) := by
  have whole : Undisputed base mine theirs → (diff3Merge base mine theirs).isClean = true ∧
      (diff3Merge base mine theirs).mergedText = taken base mine theirs := by
    unfold diff3Merge mergeTexts taken
    rintro (same | kept | kept)
    · by_cases left : mine = base <;> simp [same]
    · by_cases left : mine = base <;> simp [left,kept]
    · by_cases same : base = theirs
      · simp [kept,same]
      · simp [kept,same,Ne.symm same]
  by_cases undisputed : Undisputed base mine theirs
  · rw [takenBody,if_pos undisputed]
    exact ⟨iff_of_true (whole undisputed).1 (.inl undisputed),fun _ => (whole undisputed).2⟩
  · obtain ⟨clean,text⟩ := chunks_settled conflictBlock (linesOf base) (linesOf mine) (linesOf theirs)
      (commonAnchors lcsMatchedPairs (linesOf base) (linesOf mine) (linesOf theirs)) 0 0 0
    obtain ⟨apart,changed⟩ := not_or.mp undisputed
    obtain ⟨right,left⟩ := not_or.mp changed
    have settled : Settled base mine theirs ↔ ∀ piece ∈ piecesOf base mine theirs, Undisputed piece.base piece.mine piece.theirs :=
      or_iff_right undisputed
    rw [settled,takenBody,if_neg undisputed,diff3Merge,mergeTexts,if_neg apart,if_neg right,if_neg left]
    dsimp only
    rw [List.isEmpty_iff]
    exact ⟨clean,fun all => congrArg (String.intercalate "\n") (text (clean.mpr all))⟩

-- The members that the core keeps are those that the page keeps after its own
-- trimming and lower-casing, and the locale puts them in the order of their bytes.
structure SetAgrees (browser : WebMerge.Browser) (target : Finset String) (base mine theirs : List String) : Prop where
  members : target = survivors (WebMerge.foldJsTags browser base).toFinset (WebMerge.foldJsTags browser mine).toFinset
    (WebMerge.foldJsTags browser theirs).toFinset
  order : ∀ x ∈ target, ∀ y ∈ target, x < y → StableSort.Then (WebMerge.sortedBefore browser.collation)
    (metBefore (WebMerge.jsSet (WebMerge.foldJsTags browser base ++ WebMerge.foldJsTags browser mine ++ WebMerge.foldJsTags browser theirs))) x y

theorem set_agrees_iff {browser : WebMerge.Browser} {list base mine theirs : List String} {target : Finset String} (strict : list.Pairwise (· < ·))
    (same : ∀ tag, tag ∈ list ↔ tag ∈ target) :
    list = WebMerge.mergeTags browser base mine theirs ↔ SetAgrees browser target base mine theirs := by
  unfold WebMerge.mergeTags
  dsimp only
  rw [sorted_agree (jsSet_nodup _) strict]
  simp only [mem_jsSet,kept_iff,same]
  exact ⟨fun ⟨members,order⟩ => ⟨Finset.ext members,order⟩,fun agrees => ⟨fun tag => by rw [agrees.members],agrees.order⟩⟩

theorem taken_title (base mine theirs : String) : (mergeScalarField base mine theirs).value = taken base mine theirs := by
  unfold mergeScalarField taken
  by_cases left : mine = base <;> by_cases right : theirs = base <;> by_cases same : mine = theirs <;>
    simp [left,right,same,FieldMergeStatus.value]

theorem title_conflict_iff (status : FieldMergeStatus String) :
    titleConflicts status ≠ [] ↔ ∃ base mine theirs, FieldConflict.title base mine theirs ∈ titleConflicts status := by
  cases status <;> simp [titleConflicts]

theorem stripBom_iff (text : String) : stripBom text = text ↔ text.toList.head? ≠ some byteOrderMark :=
  ⟨fun same => same ▸ stripBom_head text,stripBom_of_head⟩

-- What the two merges always agree on.
theorem always_agree (lower : String → String) (browser : WebMerge.Browser) (now webNow : String) (base : Option WebMerge.PlaintextNoteDto)
    (mine theirs : WebMerge.PlaintextNoteDto) :
    let outcome := threeWayMergeNote lower now (baseNote now base) (noteOf mine) (noteOf theirs)
    let web := WebMerge.threeWayMergeNotes browser webNow base mine theirs
    outcome.isClean = web.isClean ∧
    (web.hasTitleConflict = true ↔ ∃ base mine theirs, .title base mine theirs ∈ outcome.conflicts) ∧
    (web.hasBodyConflict = true ↔ ∃ base mine theirs, .body base mine theirs ∈ outcome.conflicts) ∧
    outcome.bodyDiff.map (·.conflicts) = some web.diffResult.conflicts := by
  intro outcome web
  have baseTitle : (baseNote now base).title = base.elim "" (·.title) := by cases base <;> rfl
  have baseBody : (baseNote now base).body = base.elim "" (·.body) := by cases base <;> rfl
  obtain ⟨_,titleFlag⟩ := title_agree (base.elim "" (·.title)) mine.title theirs.title
  obtain ⟨clean,chunks,_⟩ := body_agree (base.elim "" (·.body)) mine.body theirs.body
  have conflicts : outcome.conflicts = titleConflicts (mergeScalarField (base.elim "" (·.title)) mine.title theirs.title) ++
      if (diff3Merge (base.elim "" (·.body)) mine.body theirs.body).isClean = true then []
        else [.body (base.elim "" (·.body)) mine.body theirs.body] := by
    rw [← baseTitle,← baseBody,← (mergeBody_diff _ _ _).2]
    rfl
  have noBody : ∀ b m t, .body b m t ∉ titleConflicts (mergeScalarField (base.elim "" (·.title)) mine.title theirs.title) := by
    intro b m t
    cases mergeScalarField (base.elim "" (·.title)) mine.title theirs.title <;> simp [titleConflicts]
  have webTitle : web.hasTitleConflict = (WebMerge.mergeTitle (base.elim "" (·.title)) mine.title theirs.title).2 := rfl
  have webBody : web.hasBodyConflict = !(WebMerge.diff3Merge (base.elim "" (·.body)) mine.body theirs.body).isClean := rfl
  have webClean : web.isClean = (!web.hasTitleConflict && (WebMerge.diff3Merge (base.elim "" (·.body)) mine.body theirs.body).isClean) := rfl
  rw [← webTitle] at titleFlag
  rw [← clean] at webBody webClean
  refine ⟨?_,?_,?_,?_⟩
  · rw [NoteMergeOutcome.isClean,conflicts,webClean]
    cases (diff3Merge (base.elim "" (·.body)) mine.body theirs.body).isClean with
    | false => simp
    | true =>
        cases flagged : web.hasTitleConflict with
        | false =>
            have none := not_not.mp (fun is => absurd (titleFlag.mpr is) (by simp [flagged]))
            simp [none]
        | true =>
            have some := titleFlag.mp flagged
            simp [some]
  · rw [titleFlag,title_conflict_iff,conflicts]
    refine exists_congr (fun b => exists_congr (fun m => exists_congr (fun t => ?_)))
    rw [List.mem_append]
    split <;> simp
  · rw [webBody,conflicts]
    simp only [List.mem_append,noBody,false_or]
    cases (diff3Merge (base.elim "" (·.body)) mine.body theirs.body).isClean <;> simp
  · rw [show outcome.bodyDiff = some (diff3Merge (baseNote now base).body mine.body theirs.body) from rfl,baseBody]
    exact congrArg some chunks

-- The merged bodies are the same exactly where nothing is disputed and what is
-- taken is canonical already.
theorem body_agree_iff (base mine theirs : String) :
    unixNewlines (stripBom (diff3Merge base mine theirs).mergedText) = (WebMerge.diff3Merge base mine theirs).mergedText ↔
      Settled base mine theirs ∧ PlainText (takenBody base mine theirs) := by
  obtain ⟨clean,text⟩ := body_settled base mine theirs
  rw [(body_agree base mine theirs).2.2,clean]
  constructor
  · rintro ⟨settled,plain⟩
    exact ⟨settled,text settled ▸ plain⟩
  · rintro ⟨settled,plain⟩
    exact ⟨settled,(text settled).symm ▸ plain⟩

theorem merges_agree_iff (lower : String → String) (browser : WebMerge.Browser) (now webNow : String) (base : Option WebMerge.PlaintextNoteDto)
    (mine theirs : WebMerge.PlaintextNoteDto) :
    Agree (threeWayMergeNote lower now (baseNote now base) (noteOf mine) (noteOf theirs)) (WebMerge.threeWayMergeNotes browser webNow base mine theirs) ↔
      (taken (base.elim "" (·.title)) mine.title theirs.title).toList.head? ≠ some byteOrderMark ∧
      (Settled (base.elim "" (·.body)) mine.body theirs.body ∧ PlainText (takenBody (base.elim "" (·.body)) mine.body theirs.body)) ∧
      SetAgrees browser (refolded lower ((survivors (foldedTags lower (base.elim [] (·.tags))) (foldedTags lower mine.tags)
        (foldedTags lower theirs.tags)).erase "")) (base.elim [] (·.tags)) mine.tags theirs.tags ∧
      SetAgrees browser (survivors (base.elim [] (·.attachments)).toFinset mine.attachments.toFinset theirs.attachments.toFinset)
        (base.elim [] (·.attachments)) mine.attachments theirs.attachments := by
  obtain ⟨verdict,titleConflict,bodyConflict,chunks⟩ := always_agree lower browser now webNow base mine theirs
  have baseTitle : (baseNote now base).title = base.elim "" (·.title) := by cases base <;> rfl
  have baseBody : (baseNote now base).body = base.elim "" (·.body) := by cases base <;> rfl
  have baseTags : (baseNote now base).tags = base.elim [] (·.tags) := by cases base <;> rfl
  have baseAttachments : (baseNote now base).attachments = base.elim [] (·.attachments) := by cases base <;> rfl
  let outcome := threeWayMergeNote lower now (baseNote now base) (noteOf mine) (noteOf theirs)
  let web := WebMerge.threeWayMergeNotes browser webNow base mine theirs
  have title : outcome.candidate.title = web.candidate.title ↔
      (taken (base.elim "" (·.title)) mine.title theirs.title).toList.head? ≠ some byteOrderMark := by
    rw [← stripBom_iff,← taken_title,← baseTitle]
    exact Eq.congr_right (by rw [baseTitle]; exact (title_agree _ _ _).1)
  have body : outcome.candidate.body = web.candidate.body ↔
      Settled (base.elim "" (·.body)) mine.body theirs.body ∧ PlainText (takenBody (base.elim "" (·.body)) mine.body theirs.body) := by
    rw [← body_agree_iff,show outcome.candidate.body = unixNewlines (stripBom (mergeBody (baseNote now base).body mine.body theirs.body
      (diff3Merge (baseNote now base).body mine.body theirs.body)).1) from rfl,(mergeBody_diff _ _ _).1,baseBody]
    rfl
  have tags : outcome.candidate.tags = web.candidate.tags ↔
      SetAgrees browser (refolded lower ((survivors (foldedTags lower (base.elim [] (·.tags))) (foldedTags lower mine.tags)
        (foldedTags lower theirs.tags)).erase "")) (base.elim [] (·.tags)) mine.tags theirs.tags := by
    rw [show outcome.candidate.tags = canonicalTags lower (mergeTags lower (baseNote now base).tags mine.tags theirs.tags) from rfl,baseTags]
    exact set_agrees_iff canonicalTags_strict (mem_refolded (fun tag => mem_mergeTags.trans Finset.mem_erase.symm))
  have attachments : outcome.candidate.attachments = web.candidate.attachments ↔
      SetAgrees browser (survivors (base.elim [] (·.attachments)).toFinset mine.attachments.toFinset theirs.attachments.toFinset)
        (base.elim [] (·.attachments)) mine.attachments theirs.attachments := by
    rw [show outcome.candidate.attachments = mergeAttachments (baseNote now base).attachments mine.attachments theirs.attachments from rfl,
      baseAttachments]
    exact set_agrees_iff mergeAttachments_strict (fun _ => mem_mergeAttachments)
  rw [← title,← body,← tags,← attachments]
  exact ⟨fun agree => ⟨agree.title,agree.body,agree.tags,agree.attachments⟩,
    fun ⟨title,body,tags,attachments⟩ => ⟨verdict,titleConflict,bodyConflict,chunks,title,body,tags,attachments⟩⟩

-- One line changed on both sides, and one attachment with an upper-case letter.
def plainBrowser : WebMerge.Browser := ⟨fun text => String.ofList (text.toList.map Char.toLower),StorageBackends.Collation.plain⟩

def variant (body : String) : WebMerge.PlaintextNoteDto := ⟨"note","title",body,[],["A"],"t0","t0"⟩

theorem base_section_missing :
    (threeWayMergeNote plainBrowser.toLowerCase "t1" (baseNote "t1" (some (variant "a"))) (noteOf (variant "b")) (noteOf (variant "c"))).candidate.body =
      "<<<<<<< LOCAL\nb\n||||||| BASE\na\n=======\nc\n>>>>>>> REMOTE" ∧
    (WebMerge.threeWayMergeNotes plainBrowser "t1" (some (variant "a")) (variant "b") (variant "c")).candidate.body =
      "<<<<<<< LOCAL\nb\n=======\nc\n>>>>>>> REMOTE" ∧
    (threeWayMergeNote plainBrowser.toLowerCase "t1" (baseNote "t1" (some (variant "a"))) (noteOf (variant "b")) (noteOf (variant "c"))).candidate.attachments =
      ["A"] ∧
    (WebMerge.threeWayMergeNotes plainBrowser "t1" (some (variant "a")) (variant "b") (variant "c")).candidate.attachments = ["a"] ∧
    ¬ Agree (threeWayMergeNote plainBrowser.toLowerCase "t1" (baseNote "t1" (some (variant "a"))) (noteOf (variant "b")) (noteOf (variant "c")))
      (WebMerge.threeWayMergeNotes plainBrowser "t1" (some (variant "a")) (variant "b") (variant "c")) := by
  refine ⟨by decide +kernel,by decide +kernel,by decide +kernel,by decide +kernel,fun agree => ?_⟩
  exact absurd agree.attachments (by decide +kernel)

end ZkNote.MergeParity
