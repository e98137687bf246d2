import ZkNote.PlaintextNotes

namespace ZkNote.CanonicalText
open PlaintextNotes StdText

theorem replaceCrLf_plain {text : List Char} (plain : '\r' ∉ text) : replaceCrLf text = text := by
  induction text with
  | nil => rfl
  | cons c rest ih =>
      have others : '\r' ∉ rest := fun inside => plain (List.mem_cons_of_mem c inside)
      unfold replaceCrLf
      split
      · rename_i same
        exact absurd ((List.cons.inj same).1 ▸ List.mem_cons_self) plain
      · rename_i same
        obtain ⟨rfl,rfl⟩ := List.cons.inj same
        rw [ih others]
      · rename_i same
        cases same

theorem unix_plain (text : String) : '\r' ∉ (unixNewlines text).toList := by
  rw [unixNewlines,String.toList_ofList,List.mem_map]
  rintro ⟨c,_,is⟩
  split at is
  · cases is
  · rename_i other
    exact other is

theorem unix_of_plain {text : String} (plain : '\r' ∉ text.toList) : unixNewlines text = text := by
  have same : text.toList.map (fun c => if c = '\r' then '\n' else c) = text.toList :=
    (List.map_congr_left (fun c inside => if_neg (fun is : c = '\r' => plain (is ▸ inside)))).trans (List.map_id _)
  rw [unixNewlines,replaceCrLf_plain plain,same,String.ofList_toList]

theorem stripBom_head (text : String) : (stripBom text).toList.head? ≠ some byteOrderMark := by
  rw [stripBom,String.toList_ofList]
  intro head
  have stopped := List.head?_dropWhile_not (fun c => decide (c = byteOrderMark)) text.toList
  rw [head] at stopped
  simp at stopped

theorem stripBom_of_head {text : String} (head : text.toList.head? ≠ some byteOrderMark) : stripBom text = text := by
  rw [stripBom]
  cases chars : text.toList with
  | nil => rw [List.dropWhile_nil,← chars,String.ofList_toList]
  | cons c rest =>
      rw [chars] at head
      have other : c ≠ byteOrderMark := fun is => head (by rw [is]; rfl)
      rw [List.dropWhile_cons_of_neg (by simpa using other),← chars,String.ofList_toList]

theorem unix_head {text : String} (head : text.toList.head? ≠ some byteOrderMark) :
    (unixNewlines text).toList.head? ≠ some byteOrderMark := by
  rw [unixNewlines,String.toList_ofList]
  unfold replaceCrLf
  split
  · exact (by decide : ('\n' : Char) ≠ byteOrderMark) ∘ Option.some.inj
  · rename_i c rest _ chars
    rw [chars] at head
    rw [List.map_cons,List.head?_cons]
    split
    · exact (by decide : ('\n' : Char) ≠ byteOrderMark) ∘ Option.some.inj
    · exact head
  · exact fun is => by cases is

theorem stripBom_shrinks (text : String) : (stripBom text).utf8ByteSize ≤ text.utf8ByteSize := by
  have whole : text = String.ofList (text.toList.takeWhile (· = byteOrderMark)) ++ stripBom text := by
    rw [stripBom,← String.ofList_append,List.takeWhile_append_dropWhile,String.ofList_toList]
  rw [congrArg String.utf8ByteSize whole,String.utf8ByteSize_append]
  exact Nat.le_add_left _ _

-- A body in canonical form stays as it is.
theorem canonical_body (text : String) : unixNewlines (stripBom (unixNewlines (stripBom text))) = unixNewlines (stripBom text) := by
  rw [stripBom_of_head (unix_head (stripBom_head text)),unix_of_plain (unix_plain _)]

theorem dropWhile_again {p : Char → Bool} {text : List Char} (head : ∀ c ∈ text.head?, p c = false) : text.dropWhile p = text := by
  cases text with
  | nil => rfl
  | cons c rest => exact List.dropWhile_cons_of_neg (by simpa using head c rfl)

theorem trim_again (text : String) : trim (trim text) = trim text := by
  have bare : ∀ list : List Char, ∀ c ∈ (list.dropWhile isWhitespace).head?, isWhitespace c = false := by
    intro list c head
    have stopped := List.head?_dropWhile_not isWhitespace list
    rw [Option.mem_def.mp head] at stopped
    exact stopped
  unfold trim trimBy
  rw [String.toList_ofList]
  generalize text.toList = list
  -- The middle part starts where the whole does, with no space.
  have front : ((list.dropWhile isWhitespace).reverse.dropWhile isWhitespace).reverse.dropWhile isWhitespace =
      ((list.dropWhile isWhitespace).reverse.dropWhile isWhitespace).reverse := by
    refine dropWhile_again (fun c head => bare list c ?_)
    have whole := congrArg List.reverse (List.takeWhile_append_dropWhile (p := isWhitespace) (l := (list.dropWhile isWhitespace).reverse))
    rw [List.reverse_append,List.reverse_reverse] at whole
    rw [← whole,List.head?_append_of_ne_nil]
    · exact head
    · intro none
      rw [none] at head
      cases head
  rw [front,List.reverse_reverse,dropWhile_again (bare _)]

end ZkNote.CanonicalText
