import ZkNote.NoteListing
import ZkNote.SearchExact

namespace ZkNote.ListedRows
open KeyedTable Protocol LocalStorage Notes PlaintextNotes SessionIndex SearchIndex SearchExact NoteListing StdText

-- Short enough for its column, or with a character that starts at byte 17.
def Cuttable (tags : List String) : Prop :=
  ByteOffsets.size (tagsText tags) ≤ 20 ∨ ∃ front back, tagsText tags = front ++ back ∧ ByteOffsets.size front = 17

theorem column_iff (tags : List String) : (∃ column, tagColumn tags = some column) ↔ Cuttable tags := by
  rw [tagColumn,Cuttable]
  by_cases long : 20 < ByteOffsets.size (tagsText tags)
  · rw [if_pos long]
    constructor
    · rintro ⟨column,cut⟩
      obtain ⟨front,found,_⟩ := Option.map_eq_some_iff.mp cut
      obtain ⟨parts,whole,rfl⟩ := Option.map_eq_some_iff.mp found
      exact .inr ⟨parts.1,parts.2,ByteOffsets.cut_some whole⟩
    · rintro (short | ⟨front,back,whole,width⟩)
      · exact absurd long (Nat.not_lt.mpr short)
      · rw [whole,← width,ByteOffsets.upTo_append]
        exact ⟨_,rfl⟩
  · rw [if_neg long]
    exact ⟨fun _ => .inl (Nat.not_lt.mp long),fun _ => ⟨_,rfl⟩⟩

section Rows

variable {α : Type} {f : α → Option (List Char)} {list : List α} {rows : List (List Char)}

theorem row_made (made : list.mapM f = some rows) {a : α} (inside : a ∈ list) : ∃ row ∈ rows, f a = some row := by
  induction list generalizing rows with
  | nil => cases inside
  | cons first rest ih =>
      rw [List.mapM_cons,Option.bind_eq_bind,Option.bind_eq_some_iff] at made
      obtain ⟨row,one,made⟩ := made
      rw [Option.bind_eq_bind,Option.bind_eq_some_iff] at made
      obtain ⟨others,later,is⟩ := made
      rw [← Option.some.inj is]
      rcases List.mem_cons.mp inside with rfl | inside
      · exact ⟨row,List.mem_cons_self,one⟩
      · obtain ⟨row,member,own⟩ := ih later inside
        exact ⟨row,List.mem_cons_of_mem _ member,own⟩

theorem rows_all (each : ∀ a ∈ list, ∃ row, f a = some row) : ∃ rows, list.mapM f = some rows := by
  induction list with
  | nil => exact ⟨[],rfl⟩
  | cons first rest ih =>
      obtain ⟨row,one⟩ := each first List.mem_cons_self
      obtain ⟨rows,later⟩ := ih (fun a inside => each a (List.mem_cons_of_mem _ inside))
      rw [List.mapM_cons,one,Option.bind_eq_bind,Option.bind_some,later]
      exact ⟨_,rfl⟩

end Rows

-- What was printed has the note: its JSON, or a row that begins with its padded id.
def Shown {α : Type} (idOf : α → String) (id : String) : Printed α → Prop
  | .json notes => ∃ note ∈ notes, idOf note = id
  | .message _ => False
  | .table _ rows => ∃ row ∈ rows, pad 36 id.toList <+: row

theorem list_row_iff (n : ClientNoteSummary) : (∃ row, listRow n = some row) ↔ Cuttable n.tags := by
  rw [← column_iff,listRow]
  simp only [Option.map_eq_some_iff]
  exact ⟨fun ⟨_,column,cut,_⟩ => ⟨column,cut⟩,fun ⟨column,cut⟩ => ⟨_,column,cut,rfl⟩⟩

theorem search_row_iff (r : SearchResult) : (∃ row, searchRow r = some row) ↔ Cuttable r.tags := by
  rw [← column_iff,searchRow]
  simp only [Option.map_eq_some_iff]
  exact ⟨fun ⟨_,column,cut,_⟩ => ⟨column,cut⟩,fun ⟨column,cut⟩ => ⟨_,column,cut,rfl⟩⟩

theorem row_start (id updatedAt : String) (tags title : List Char) : pad 36 id.toList <+: row id updatedAt tags title := by
  rw [row]
  simp only [List.append_assoc]
  exact List.prefix_append _ _

theorem list_row_start {n : ClientNoteSummary} {line : List Char} (made : listRow n = some line) : pad 36 n.id.toList <+: line := by
  obtain ⟨column,_,rfl⟩ := Option.map_eq_some_iff.mp made
  exact row_start _ _ _ _

theorem search_row_start {r : SearchResult} {line : List Char} (made : searchRow r = some line) : pad 36 r.id.toList <+: line := by
  obtain ⟨column,_,rfl⟩ := Option.map_eq_some_iff.mp made
  exact (row_start _ _ _ _).trans (List.prefix_append _ _)

variable {Key : Type} {crates : NoteCrates Key} {key : Key} {s : Storage} {includeDeleted jsonOutput : Bool} {tagFilter : Option String}
  {isAlphanumeric : Char → Bool} {checks : Bool} {query : String} {o : StoredEncryptedObject}

-- The stored notes a listing is to print.
def Listed (crates : NoteCrates Key) (key : Key) (s : Storage) (includeDeleted : Bool) (tagFilter : Option String) (o : StoredEncryptedObject) : Prop :=
  o ∈ s.objects.rows ∧ o.objectKind = objectKindNote ∧ (o.isDeleted = true → includeDeleted = true) ∧
    ∀ note, PlaintextNote.decrypt crates o.envelope key = .ok note → ∀ target, tagFilter = some target → crates.lower (trim target) ∈ note.tags

-- The stored notes a search is to print.
def Found (crates : NoteCrates Key) (key : Key) (s : Storage) (query : String) (o : StoredEncryptedObject) : Prop :=
  o ∈ s.objects.rows ∧ o.objectKind = objectKindNote ∧ o.isDeleted = false ∧
    ∃ note, PlaintextNote.decrypt crates o.envelope key = .ok note ∧ splitWhitespace query.toList ≠ [] ∧ Matches crates.lower query (indexed o.objectId note)

def tagsOf (crates : NoteCrates Key) (key : Key) (o : StoredEncryptedObject) : List String :=
  match PlaintextNote.decrypt crates o.envelope key with
  | .ok note => note.tags
  | .error _ => []

theorem mem_notes (s : Storage) (includeDeleted : Bool) (o : StoredEncryptedObject) :
    o ∈ s.listObjects (noteFilter includeDeleted) ↔ o ∈ s.objects.rows ∧ o.objectKind = objectKindNote ∧ (o.isDeleted = true → includeDeleted = true) := by
  rw [Storage.listObjects,(List.perm_insertionSort _ _).mem_iff,List.mem_filter]
  apply and_congr_right
  intro _
  rw [Bool.and_eq_true,and_comm]
  apply and_congr
  · rw [noteFilter,Option.all_some,beq_iff_eq]
    exact eq_comm
  · cases includeDeleted <;> cases o.isDeleted <;> simp [noteFilter]

theorem tags_opened {note : PlaintextNote} (opened : PlaintextNote.decrypt crates o.envelope key = .ok note) : tagsOf crates key o = note.tags := by
  rw [tagsOf,opened]

theorem summary_iff (o : StoredEncryptedObject) :
    (∃ n, noteSummary crates key tagFilter o = some n) ↔
      ∀ note, PlaintextNote.decrypt crates o.envelope key = .ok note → ∀ target, tagFilter = some target → crates.lower (trim target) ∈ note.tags := by
  cases opened : PlaintextNote.decrypt crates o.envelope key with
  | error e =>
      rw [noteSummary,opened]
      exact ⟨fun _ note opened => (by cases opened),fun _ => ⟨_,rfl⟩⟩
  | ok note =>
      rw [noteSummary,opened]
      simp only [Except.ok.injEq,forall_eq']
      cases tagFilter with
      | none => simp
      | some target => simp [Option.all_some,List.any_eq_true]

theorem summary_fields {n : ClientNoteSummary} (made : noteSummary crates key tagFilter o = some n) :
    n.id = o.objectId ∧ n.tags = tagsOf crates key o := by
  cases opened : PlaintextNote.decrypt crates o.envelope key with
  | error e =>
      rw [noteSummary,opened] at made
      cases made
      rw [tagsOf,opened]
      exact ⟨rfl,rfl⟩
  | ok note =>
      rw [noteSummary,opened] at made
      dsimp only at made
      split at made
      · cases made
        rw [tags_opened opened]
        exact ⟨rfl,rfl⟩
      · cases made

theorem mem_listed (n : ClientNoteSummary) :
    n ∈ listNotes crates key s includeDeleted tagFilter ↔ ∃ o, Listed crates key s includeDeleted tagFilter o ∧ noteSummary crates key tagFilter o = some n := by
  rw [listNotes,(List.perm_insertionSort _ _).mem_iff,List.mem_filterMap]
  constructor
  · rintro ⟨o,inside,made⟩
    obtain ⟨held,kind,deleted⟩ := (mem_notes s includeDeleted o).mp inside
    exact ⟨o,⟨held,kind,deleted,(summary_iff o).mp ⟨n,made⟩⟩,made⟩
  · rintro ⟨o,⟨held,kind,deleted,_⟩,made⟩
    exact ⟨o,(mem_notes s includeDeleted o).mpr ⟨held,kind,deleted⟩,made⟩

theorem listed_summary (listed : Listed crates key s includeDeleted tagFilter o) :
    ∃ n ∈ listNotes crates key s includeDeleted tagFilter, n.id = o.objectId ∧ n.tags = tagsOf crates key o := by
  obtain ⟨n,made⟩ := (summary_iff o).mpr listed.2.2.2
  exact ⟨n,(mem_listed n).mpr ⟨o,listed,made⟩,summary_fields made⟩

-- A listing that is printed prints all of it.
theorem table_shows {α : Type} {notes : List α} {idOf : α → String} {line : α → Option (List Char)} {rows : List (List Char)} {n : α}
    (starts : ∀ n row, line n = some row → pad 36 (idOf n).toList <+: row) (made : notes.mapM line = some rows) (inside : n ∈ notes)
    (head : List (List Char)) : Shown idOf (idOf n) (.table head rows) := by
  obtain ⟨row,member,own⟩ := row_made made inside
  exact ⟨row,member,starts n row own⟩

theorem list_printed_iff :
    (∃ shown, cmdList crates includeDeleted tagFilter jsonOutput (.ok (key,s)) = .ok (some shown) ∧
      ∀ o, Listed crates key s includeDeleted tagFilter o → Shown ClientNoteSummary.id o.objectId shown) ↔
    jsonOutput = true ∨ ∀ o, Listed crates key s includeDeleted tagFilter o → Cuttable (tagsOf crates key o) := by
  simp only [cmdList]
  by_cases json : jsonOutput = true
  · rw [if_pos json]
    refine ⟨fun _ => .inl json,fun _ => ⟨_,rfl,?_⟩⟩
    intro o listed
    obtain ⟨n,inside,same,_⟩ := listed_summary listed
    exact ⟨n,inside,same⟩
  · rw [if_neg json]
    by_cases none : listNotes crates key s includeDeleted tagFilter = []
    · rw [if_pos none]
      have nothing : ∀ o, ¬Listed crates key s includeDeleted tagFilter o := by
        intro o listed
        obtain ⟨n,inside,_⟩ := listed_summary listed
        rw [none] at inside
        cases inside
      exact ⟨fun _ => .inr (fun o listed => absurd listed (nothing o)),fun _ => ⟨_,rfl,fun o listed => absurd listed (nothing o)⟩⟩
    · rw [if_neg none]
      constructor
      · rintro ⟨shown,done,_⟩
        obtain ⟨rows,made,_⟩ := Option.map_eq_some_iff.mp (Except.ok.inj done)
        refine .inr ?_
        intro o listed
        obtain ⟨n,inside,_,tags⟩ := listed_summary listed
        obtain ⟨row,_,own⟩ := row_made made inside
        exact tags ▸ (list_row_iff n).mp ⟨row,own⟩
      · rintro (is | all)
        · exact absurd is json
        · obtain ⟨rows,made⟩ : ∃ rows, (listNotes crates key s includeDeleted tagFilter).mapM listRow = some rows := by
            apply rows_all
            intro n inside
            obtain ⟨o,listed,summary⟩ := (mem_listed n).mp inside
            exact (list_row_iff n).mpr ((summary_fields summary).2 ▸ all o listed)
          rw [made]
          refine ⟨_,rfl,?_⟩
          intro o listed
          obtain ⟨n,inside,same,_⟩ := listed_summary listed
          exact same ▸ table_shows (fun n row => list_row_start) made inside tableHead

def noteOp (crates : NoteCrates Key) (key : Key) (o : StoredEncryptedObject) : Option IndexOp :=
  match PlaintextNote.decrypt crates o.envelope key with
  | .ok note => some (.insert o.objectId note)
  | .error _ => none

theorem index_run (objects : List StoredEncryptedObject) : objects.foldl (indexNote crates key) [] = run (objects.filterMap (noteOp crates key)) := by
  induction objects using List.reverseRecOn with
  | nil => rfl
  | append_singleton objects o ih =>
      rw [List.foldl_append,List.foldl_cons,List.foldl_nil,ih,List.filterMap_append,run,run,List.foldl_append,indexNote]
      cases opened : PlaintextNote.decrypt crates o.envelope key with
      | error e => rw [List.filterMap_cons_none (by rw [noteOp,opened])]; rfl
      | ok note => rw [List.filterMap_cons_some (by rw [noteOp,opened])]; rfl

-- Every opened note has its own id, so none replaces another.
theorem mem_index {objects : List StoredEncryptedObject} (unique : (objects.map (·.objectId)).Nodup) (e : IndexedNote) :
    e ∈ objects.foldl (indexNote crates key) [] ↔
      ∃ o ∈ objects, ∃ note, PlaintextNote.decrypt crates o.envelope key = .ok note ∧ e = indexed o.objectId note := by
  rw [index_run,run_last]
  induction objects using List.reverseRecOn with
  | nil =>
      constructor
      · rintro ⟨before,op,after,whole,_⟩
        exact absurd whole (by simp)
      · rintro ⟨o,inside,_⟩
        cases inside
  | append_singleton objects o ih =>
      rw [List.map_append,List.nodup_append] at unique
      obtain ⟨others,_,apart⟩ := unique
      have ih := ih others
      cases opened : PlaintextNote.decrypt crates o.envelope key with
      | error e' =>
          rw [List.filterMap_append,List.filterMap_cons_none (by rw [noteOp,opened]),List.filterMap_nil,List.append_nil,ih]
          constructor
          · rintro ⟨o',inside,rest⟩
            exact ⟨o',List.mem_append_left _ inside,rest⟩
          · rintro ⟨o',inside,note,opened',is⟩
            rcases List.mem_append.mp inside with old | new
            · exact ⟨o',old,note,opened',is⟩
            · rw [List.mem_singleton.mp new,opened] at opened'
              cases opened'
      | ok note =>
          rw [List.filterMap_append,List.filterMap_cons_some (by rw [noteOp,opened]),List.filterMap_nil,last_snoc,ih,entryOf,Option.some.injEq]
          constructor
          · rintro (rfl | ⟨⟨o',inside,rest⟩,_⟩)
            · exact ⟨o,List.mem_append_right _ (List.mem_singleton_self o),note,opened,rfl⟩
            · exact ⟨o',List.mem_append_left _ inside,rest⟩
          · rintro ⟨o',inside,note',opened',rfl⟩
            rcases List.mem_append.mp inside with old | new
            · refine .inr ⟨⟨o',old,note',opened',rfl⟩,?_⟩
              intro same
              exact apart o'.objectId (List.mem_map_of_mem old) o.objectId (by simp) same.symm
            · rw [List.mem_singleton.mp new,opened] at opened'
              cases opened'
              exact .inl (by rw [List.mem_singleton.mp new])

-- The session's index over the stored notes that open.
def openedEntries (crates : NoteCrates Key) (key : Key) (s : Storage) : List IndexedNote :=
  (s.listObjects (noteFilter false)).foldl (indexNote crates key) []

theorem opened_iff (e : IndexedNote) :
    e ∈ openedEntries crates key s ↔ ∃ o ∈ s.objects.rows, o.objectKind = objectKindNote ∧ o.isDeleted = false ∧
      ∃ note, PlaintextNote.decrypt crates o.envelope key = .ok note ∧ e = indexed o.objectId note := by
  have unique : ((s.listObjects (noteFilter false)).map (·.objectId)).Nodup := by
    rw [Storage.listObjects,((List.perm_insertionSort _ _).map _).nodup_iff]
    exact s.objects.unique.sublist (List.filter_sublist.map _)
  rw [openedEntries,mem_index unique]
  constructor
  · rintro ⟨o,inside,rest⟩
    obtain ⟨held,kind,live⟩ := (mem_notes s false o).mp inside
    exact ⟨o,held,kind,by simpa using live,rest⟩
  · rintro ⟨o,held,kind,live,rest⟩
    exact ⟨o,(mem_notes s false o).mpr ⟨held,kind,by simp [live]⟩,rest⟩

theorem opened_unique : ((openedEntries crates key s).map (·.id)).Nodup := by
  rw [openedEntries,index_run]
  exact run_unique _

theorem searched_iff {results : List SearchResult} (done : searchNotes crates isAlphanumeric checks key s query = some results) :
    (∀ o, Found crates key s query o → ∃ r ∈ results, r.id = o.objectId ∧ r.tags = tagsOf crates key o) ∧
      ∀ r ∈ results, ∃ o, Found crates key s query o ∧ r.tags = tagsOf crates key o := by
  by_cases none : splitWhitespace query.toList = []
  · rw [searchNotes] at done
    simp only [search] at done
    rw [if_pos ((blank_iff query).mpr none)] at done
    cases done
    refine ⟨?_,fun r inside => absurd inside List.not_mem_nil⟩
    rintro o ⟨_,_,_,note,_,some_,_⟩
    exact absurd none some_
  · have exact_ := returned_exact opened_unique none done
    constructor
    · rintro o ⟨held,kind,live,note,opened,_,matched⟩
      have entry : indexed o.objectId note ∈ openedEntries crates key s := (opened_iff _).mpr ⟨o,held,kind,live,note,opened,rfl⟩
      obtain ⟨r,inside,id,_,tags,_⟩ := exact_.found _ entry matched
      exact ⟨r,inside,id,by rw [tags_opened opened]; exact tags⟩
    · intro r inside
      obtain ⟨e,entry,matched,_,_,tags,_⟩ := exact_.only r inside
      obtain ⟨o,held,kind,live,note,opened,rfl⟩ := (opened_iff e).mp entry
      exact ⟨o,⟨held,kind,live,note,opened,none,matched⟩,by rw [tags_opened opened]; exact tags⟩

theorem searching_returns
    (scores : ∀ e ∈ openedEntries crates key s, ∀ fullQuery, ∃ scored,
      scoreNote ⟨crates.lower,isAlphanumeric,checks⟩ e fullQuery (searchTerms crates.lower (trim query)) = some scored) :
    ∃ results, searchNotes crates isAlphanumeric checks key s query = some results := by
  by_cases none : splitWhitespace query.toList = []
  · refine ⟨[],?_⟩
    rw [searchNotes]
    simp only [search]
    rw [if_pos ((blank_iff query).mpr none)]
  · exact search_returns none scores

theorem opened_valid (e : IndexedNote) (inside : e ∈ openedEntries crates key s) : ValidEntry e := by
  obtain ⟨o,_,_,_,note,opened,rfl⟩ := (opened_iff e).mp inside
  exact ⟨note,valid_iff.mp (PlaintextNote.decrypt_valid opened),rfl⟩

theorem search_printed_iff {results : List SearchResult} (done : searchNotes crates isAlphanumeric checks key s query = some results) :
    (∃ shown, cmdSearch crates isAlphanumeric checks query jsonOutput (.ok (key,s)) = .ok (some shown) ∧
      ∀ o, Found crates key s query o → Shown SearchResult.id o.objectId shown) ↔
    jsonOutput = true ∨ ∀ o, Found crates key s query o → Cuttable (tagsOf crates key o) := by
  obtain ⟨all,only⟩ := searched_iff done
  simp only [cmdSearch,done]
  by_cases json : jsonOutput = true
  · rw [if_pos json]
    refine ⟨fun _ => .inl json,fun _ => ⟨_,rfl,?_⟩⟩
    intro o found
    obtain ⟨r,inside,same,_⟩ := all o found
    exact ⟨r,inside,same⟩
  · rw [if_neg json]
    by_cases none : results = []
    · rw [if_pos none]
      have nothing : ∀ o, ¬Found crates key s query o := by
        intro o found
        obtain ⟨r,inside,_⟩ := all o found
        rw [none] at inside
        cases inside
      exact ⟨fun _ => .inr (fun o found => absurd found (nothing o)),fun _ => ⟨_,rfl,fun o found => absurd found (nothing o)⟩⟩
    · rw [if_neg none]
      constructor
      · rintro ⟨shown,printed,_⟩
        obtain ⟨rows,made,_⟩ := Option.map_eq_some_iff.mp (Except.ok.inj printed)
        refine .inr ?_
        intro o found
        obtain ⟨r,inside,_,tags⟩ := all o found
        obtain ⟨row,_,own⟩ := row_made made inside
        exact tags ▸ (search_row_iff r).mp ⟨row,own⟩
      · rintro (is | cuttable)
        · exact absurd is json
        · obtain ⟨rows,made⟩ : ∃ rows, results.mapM searchRow = some rows := by
            apply rows_all
            intro r inside
            obtain ⟨o,found,tags⟩ := only r inside
            exact (search_row_iff r).mpr (tags ▸ cuttable o found)
          rw [made]
          refine ⟨_,rfl,?_⟩
          intro o found
          obtain ⟨r,inside,same,_⟩ := all o found
          exact same ▸ table_shows (fun r row => search_row_start) made inside _

theorem rows_printed_iff (crates : NoteCrates Key) (key : Key) (s : Storage) :
    (∀ includeDeleted tagFilter jsonOutput,
      (∃ shown, cmdList crates includeDeleted tagFilter jsonOutput (.ok (key,s)) = .ok (some shown) ∧
        ∀ o, Listed crates key s includeDeleted tagFilter o → Shown ClientNoteSummary.id o.objectId shown) ↔
      jsonOutput = true ∨ ∀ o, Listed crates key s includeDeleted tagFilter o → Cuttable (tagsOf crates key o)) ∧
    ∀ isAlphanumeric checks query jsonOutput,
      (∀ results, searchNotes crates isAlphanumeric checks key s query = some results →
        ((∃ shown, cmdSearch crates isAlphanumeric checks query jsonOutput (.ok (key,s)) = .ok (some shown) ∧
          ∀ o, Found crates key s query o → Shown SearchResult.id o.objectId shown) ↔
        jsonOutput = true ∨ ∀ o, Found crates key s query o → Cuttable (tagsOf crates key o))) ∧
      (checks = false → ∃ results, searchNotes crates isAlphanumeric checks key s query = some results) ∧
      (GrowsAtMostThreefold crates.lower → (splitWhitespace query.toList).length < 2^16 →
        ∃ results, searchNotes crates isAlphanumeric checks key s query = some results) := by
  refine ⟨fun includeDeleted tagFilter jsonOutput => list_printed_iff,?_⟩
  intro isAlphanumeric checks query jsonOutput
  refine ⟨fun results done => search_printed_iff done,?_,?_⟩
  · intro wraps
    exact searching_returns (fun e _ fullQuery => wrapping_scored wraps e fullQuery _)
  · intro grows few
    apply searching_returns
    intro e inside fullQuery
    apply valid_scored grows (opened_valid e inside) fullQuery
    rw [searchTerms,List.length_map,words_trim]
    exact few

def taggedNote (tags : List String) : PlaintextNote := ⟨noteSchemaVersionV1,"Agenda","tea",tags,"2026-01-02T03:04:05Z","2026-01-02T03:04:05Z",[]⟩

def taggedObject : StoredEncryptedObject :=
  ⟨"note",objectKindNote,1,1,false,⟨envelopeVersionV1,"note",objectKindNote,⟨"AAAA","AAAA"⟩,⟨"AAAA","A"⟩⟩,"2026-01-02T03:04:05Z"⟩

def heldTagged : Storage := Storage.new.putObject taggedObject

def shelfOf (tags : List String) : NoteCrates Unit := NoteCrates.standIn [taggedNote tags]

theorem short_tag_printed :
    (∃ shown, cmdList (shelfOf ["été"]) false none false (.ok ((),heldTagged)) = .ok (some shown) ∧
      ∀ o, Listed (shelfOf ["été"]) () heldTagged false none o → Shown ClientNoteSummary.id o.objectId shown) ∧
    ∃ shown, cmdSearch (shelfOf ["été"]) isAsciiAlphanumeric true "tea" false (.ok ((),heldTagged)) = .ok (some shown) ∧
      ∀ o, Found (shelfOf ["été"]) () heldTagged "tea" o → Shown SearchResult.id o.objectId shown := by
  obtain ⟨lists,searches⟩ := rows_printed_iff (shelfOf ["été"]) () heldTagged
  obtain ⟨printed,_,returns⟩ := searches isAsciiAlphanumeric true "tea" false
  have cuttable : ∀ o ∈ heldTagged.objects.rows, Cuttable (tagsOf (shelfOf ["été"]) () o) := by
    intro o inside
    obtain rfl : o = taggedObject := List.mem_singleton.mp inside
    exact .inl (by decide)
  constructor
  · exact (lists false none false).mpr (.inr (fun o listed => cuttable o listed.1))
  · obtain ⟨results,done⟩ := returns (fun text => by rw [show (shelfOf ["été"]).lower text = text from rfl]; omega) (by decide)
    exact (printed results done).mpr (.inr (fun o found => cuttable o found.1))

-- Byte 17 of the tags' text is the second byte of its first accented letter.
theorem accented_tag_stops :
    PlaintextNote.decrypt (shelfOf ["reunion-equipe-été"]) taggedObject.envelope () = .ok (taggedNote ["reunion-equipe-été"]) ∧
    (taggedNote ["reunion-equipe-été"]).validate = .ok () ∧
    cmdList (shelfOf ["reunion-equipe-été"]) false none false (.ok ((),heldTagged)) = .ok none ∧
    cmdSearch (shelfOf ["reunion-equipe-été"]) isAsciiAlphanumeric true "tea" false (.ok ((),heldTagged)) = .ok none :=
  ⟨by decide,by decide,rfl,rfl⟩

end ZkNote.ListedRows
