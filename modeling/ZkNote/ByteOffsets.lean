import Mathlib.Algebra.GroupWithZero.Nat
import Mathlib.Data.List.Basic

namespace ByteOffsets

-- Text as its characters, cut at byte offsets. A cut inside a character or past
-- the end has no result.
variable {p : Char → Bool} {text front back : List Char} {n : Nat} {c : Char}

def size (text : List Char) : Nat := (text.map Char.utf8Size).sum

def bytes (text : List Char) : List UInt8 := text.flatMap String.utf8EncodeChar

def cut : Nat → List Char → Option (List Char × List Char)
  | 0,text => some ([],text)
  | _+1,[] => none
  | n+1,c :: rest => if c.utf8Size ≤ n+1 then (cut (n+1-c.utf8Size) rest).map (fun parts => (c :: parts.1,parts.2)) else none

def upTo (text : List Char) (stop : Nat) : Option (List Char) := (cut stop text).map (·.1)

def onward (text : List Char) (start : Nat) : Option (List Char) := (cut start text).map (·.2)

def slice (text : List Char) (start stop : Nat) : Option (List Char) := do
  let front ← upTo text stop
  onward front start

-- Where the first and the last character of a kind start.
def find (p : Char → Bool) : List Char → Option Nat
  | [] => none
  | c :: rest => if p c then some 0 else (find p rest).map (· + c.utf8Size)

def rfind (p : Char → Bool) : List Char → Option Nat
  | [] => none
  | c :: rest =>
    match rfind p rest with
    | some n => some (n+c.utf8Size)
    | none => if p c then some 0 else none

theorem size_cons (c : Char) (rest : List Char) : size (c :: rest) = c.utf8Size+size rest := rfl

theorem size_append (front back : List Char) : size (front ++ back) = size front+size back := by
  simp [size]

theorem length_le_size (text : List Char) : text.length ≤ size text := by
  induction text with
  | nil => exact Nat.le_refl 0
  | cons c rest ih =>
      have positive := c.utf8Size_pos
      rw [List.length_cons,size_cons]
      omega

theorem ofList_size (text : List Char) : (String.ofList text).utf8ByteSize = size text := by
  induction text with
  | nil => rfl
  | cons c rest ih =>
      rw [← List.singleton_append,String.ofList_append,String.utf8ByteSize_append,ih,size_append]
      exact congrArg (· + size rest) (String.utf8ByteSize_singleton.trans (Nat.add_zero _).symm)

theorem cut_zero (text : List Char) : cut 0 text = some ([],text) := by
  cases text <;> rfl

theorem cut_append (front back : List Char) : cut (size front) (front ++ back) = some (front,back) := by
  induction front with
  | nil => exact cut_zero back
  | cons c rest ih =>
      have positive := c.utf8Size_pos
      obtain ⟨m,is⟩ : ∃ m, size (c :: rest) = m+1 := ⟨size (c :: rest)-1,by rw [size_cons]; omega⟩
      have left : m+1-c.utf8Size = size rest := by
        rw [size_cons] at is
        omega
      rw [is,List.cons_append,cut,if_pos (by rw [size_cons] at is; omega),left,ih]
      rfl

theorem cut_some {front back : List Char} (done : cut n text = some (front,back)) : text = front ++ back ∧ size front = n := by
  induction text generalizing n front with
  | nil =>
      cases n with
      | zero =>
          cases done
          exact ⟨rfl,rfl⟩
      | succ n => cases done
  | cons c rest ih =>
      cases n with
      | zero =>
          cases done
          exact ⟨rfl,rfl⟩
      | succ n =>
          rw [cut] at done
          split at done
          · rename_i fits
            obtain ⟨parts,within,is⟩ := Option.map_eq_some_iff.mp done
            cases is
            obtain ⟨whole,width⟩ := ih within
            refine ⟨by rw [whole,List.cons_append],?_⟩
            rw [size_cons,width]
            omega
          · cases done

theorem upTo_append (front back : List Char) : upTo (front ++ back) (size front) = some front := by
  rw [upTo,cut_append]
  rfl

theorem onward_append (front back : List Char) : onward (front ++ back) (size front) = some back := by
  rw [onward,cut_append]
  rfl

theorem slice_append (front mid back : List Char) : slice (front ++ mid ++ back) (size front) (size front+size mid) = some mid := by
  rw [slice,← size_append,upTo_append]
  exact onward_append front mid

theorem find_none (through : text.dropWhile (!p ·) = []) : find p text = none := by
  induction text with
  | nil => rfl
  | cons c rest ih =>
      cases here : p c with
      | true => simp [here] at through
      | false =>
          rw [List.dropWhile_cons_of_pos (by simp [here])] at through
          rw [find,here,ih through]
          rfl

theorem find_some (stopped : text.dropWhile (!p ·) = c :: back) : find p text = some (size (text.takeWhile (!p ·))) := by
  induction text with
  | nil => cases stopped
  | cons d rest ih =>
      cases here : p d with
      | true => simp [find,here,size]
      | false =>
          rw [List.dropWhile_cons_of_pos (by simp [here])] at stopped
          rw [find,here,List.takeWhile_cons_of_pos (by simp [here]),ih stopped,size_cons,Nat.add_comm]
          rfl

-- The cuts before and after what was found.
theorem found_cuts (stopped : text.dropWhile (!p ·) = c :: back) :
    upTo text (size (text.takeWhile (!p ·))) = some (text.takeWhile (!p ·)) ∧
      onward text (size (text.takeWhile (!p ·))+c.utf8Size) = some back := by
  have whole := List.takeWhile_append_dropWhile (p := (!p ·)) (l := text)
  rw [stopped] at whole
  constructor
  · have front := upTo_append (text.takeWhile (!p ·)) (c :: back)
    rwa [whole] at front
  · have rest := onward_append (text.takeWhile (!p ·) ++ [c]) back
    rw [size_append,List.append_assoc,List.singleton_append,whole] at rest
    exact rest

theorem wide_bytes (wide : ¬c.val.toNat ≤ 0x7f) {b : UInt8} (inside : b ∈ String.utf8EncodeChar c) : 0x80 ≤ b.toNat := by
  unfold String.utf8EncodeChar at inside
  dsimp only at inside
  rw [if_neg wide] at inside
  split at inside
  · simp only [List.mem_cons,List.not_mem_nil,or_false] at inside
    rcases inside with rfl | rfl <;> rw [UInt8.toNat_ofNat'] <;> omega
  · split at inside
    · simp only [List.mem_cons,List.not_mem_nil,or_false] at inside
      rcases inside with rfl | rfl | rfl <;> rw [UInt8.toNat_ofNat'] <;> omega
    · simp only [List.mem_cons,List.not_mem_nil,or_false] at inside
      rcases inside with rfl | rfl | rfl | rfl <;> rw [UInt8.toNat_ofNat'] <;> omega

-- An ASCII byte is a character of its own, never a part of another one.
theorem ascii_byte {b : UInt8} (ascii : b.toNat < 0x80) (at_ : (String.utf8EncodeChar c)[n]? = some b) : n = 0 ∧ c.toNat = b.toNat := by
  by_cases small : c.val.toNat ≤ 0x7f
  · have one : String.utf8EncodeChar c = [UInt8.ofNat c.val.toNat] := by
      unfold String.utf8EncodeChar
      dsimp only
      rw [if_pos small]
    rw [one] at at_
    obtain ⟨inside,is⟩ := List.getElem?_eq_some_iff.mp at_
    obtain rfl : n = 0 := by simpa using inside
    refine ⟨rfl,?_⟩
    rw [← is]
    exact (UInt8.toNat_ofNat_of_lt' (show c.val.toNat < 2^8 by omega)).symm
  · exact absurd (wide_bytes small (List.mem_of_getElem? at_)) (by omega)

theorem bytes_length (text : List Char) : (bytes text).length = size text := by
  induction text with
  | nil => rfl
  | cons c rest ih =>
      rw [size_cons,← ih,← String.length_utf8EncodeChar]
      exact List.length_append

theorem byte_append (front back : List Char) (c : Char) : (bytes (front ++ c :: back))[size front]? = (String.utf8EncodeChar c).head? := by
  have first : 0 < (String.utf8EncodeChar c).length := by
    rw [String.length_utf8EncodeChar]
    exact c.utf8Size_pos
  rw [← bytes_length,bytes,bytes,List.flatMap_append,List.getElem?_append_right (Nat.le_refl _),Nat.sub_self,List.flatMap_cons,
    List.getElem?_append_left first,List.head?_eq_getElem?]

theorem byte_at {b : UInt8} (ascii : b.toNat < 0x80) (at_ : (bytes text)[n]? = some b) :
    ∃ front c back, text = front ++ c :: back ∧ size front = n ∧ c.toNat = b.toNat := by
  induction text generalizing n with
  | nil => cases at_
  | cons c rest ih =>
      rw [bytes,List.flatMap_cons] at at_
      by_cases inside : n < (String.utf8EncodeChar c).length
      · rw [List.getElem?_append_left inside] at at_
        obtain ⟨rfl,same⟩ := ascii_byte ascii at_
        exact ⟨[],c,rest,rfl,rfl,same⟩
      · rw [List.getElem?_append_right (Nat.le_of_not_lt inside)] at at_
        obtain ⟨front,d,back,rfl,width,same⟩ := ih at_
        refine ⟨c :: front,d,back,rfl,?_,same⟩
        rw [size_cons,width,← String.length_utf8EncodeChar]
        omega

end ByteOffsets
