import Mathlib.Algebra.Group.Nat.Defs
import Mathlib.Data.List.TakeDrop

namespace ByteFields

-- Fields of a byte string, written one after another and read at an offset.
variable {start stop : Nat}

def slice (bytes : List UInt8) (start stop : Nat) : Option (List UInt8) :=
  if start ≤ stop ∧ stop ≤ bytes.length then some ((bytes.take stop).drop start) else none

-- Most significant byte first.
def bytesOf16 (v : UInt16) : List UInt8 := [(v.toNat / 2^8).toUInt8,v.toNat.toUInt8]

def bytesOf32 (v : UInt32) : List UInt8 :=
  [(v.toNat / 2^24).toUInt8,(v.toNat / 2^16).toUInt8,(v.toNat / 2^8).toUInt8,v.toNat.toUInt8]

def value (bytes : List UInt8) : Nat := bytes.foldl (fun n b => 2^8*n+b.toNat) 0

def word16 (bytes : List UInt8) (i : Nat) : Option UInt16 := do
  let a ← bytes[i]?
  let b ← bytes[i+1]?
  return (value [a,b]).toUInt16

def word32 (bytes : List UInt8) (i : Nat) : Option UInt32 := do
  let a ← bytes[i]?
  let b ← bytes[i+1]?
  let c ← bytes[i+2]?
  let d ← bytes[i+3]?
  return (value [a,b,c,d]).toUInt32

theorem slice_field (pre mid post : List UInt8) (starts : start = pre.length) (stops : stop = pre.length+mid.length) : slice (pre ++ (mid ++ post)) start stop = some mid := by
  subst starts
  subst stops
  unfold slice
  rw [if_pos (by simp only [List.length_append]; omega),← List.append_assoc,← List.length_append,List.take_left,List.drop_left]

theorem length16 (v : UInt16) : (bytesOf16 v).length = 2 := rfl

theorem length32 (v : UInt32) : (bytesOf32 v).length = 4 := rfl

theorem value16 (v : UInt16) : (value (bytesOf16 v)).toUInt16 = v := by
  have bound := v.toNat_lt
  apply UInt16.toNat_inj.mp
  simp only [value,bytesOf16,List.foldl_cons,List.foldl_nil,Nat.toUInt16_eq,UInt16.toNat_ofNat',Nat.toUInt8_eq,UInt8.toNat_ofNat']
  omega

theorem value32 (v : UInt32) : (value (bytesOf32 v)).toUInt32 = v := by
  have bound := v.toNat_lt
  apply UInt32.toNat_inj.mp
  simp only [value,bytesOf32,List.foldl_cons,List.foldl_nil,Nat.toUInt32_eq,UInt32.toNat_ofNat',Nat.toUInt8_eq,UInt8.toNat_ofNat']
  omega

-- Every two and every four bytes are some word's.
theorem bytes16_of {part : List UInt8} (two : part.length = 2) : ∃ v, bytesOf16 v = part := by
  obtain ⟨a,b,rfl⟩ : ∃ a b, part = [a,b] := by
    rcases part with _ | ⟨a,_ | ⟨b,_ | ⟨c,rest⟩⟩⟩ <;> simp at two
    exact ⟨a,b,rfl⟩
  have aFit := a.toNat_lt
  have bFit := b.toNat_lt
  refine ⟨(value [a,b]).toUInt16,?_⟩
  have whole : (value [a,b]).toUInt16.toNat = 2^8*a.toNat+b.toNat := by
    simp only [value,List.foldl_cons,List.foldl_nil,Nat.toUInt16_eq,UInt16.toNat_ofNat']
    omega
  simp only [bytesOf16,whole,List.cons.injEq,and_true,← UInt8.toNat_inj,Nat.toUInt8_eq,UInt8.toNat_ofNat']
  omega

theorem bytes32_of {part : List UInt8} (four : part.length = 4) : ∃ v, bytesOf32 v = part := by
  obtain ⟨a,b,c,d,rfl⟩ : ∃ a b c d, part = [a,b,c,d] := by
    rcases part with _ | ⟨a,_ | ⟨b,_ | ⟨c,_ | ⟨d,_ | ⟨e,rest⟩⟩⟩⟩⟩ <;> simp at four
    exact ⟨a,b,c,d,rfl⟩
  have aFit := a.toNat_lt
  have bFit := b.toNat_lt
  have cFit := c.toNat_lt
  have dFit := d.toNat_lt
  refine ⟨(value [a,b,c,d]).toUInt32,?_⟩
  have whole : (value [a,b,c,d]).toUInt32.toNat = 2^8*(2^8*(2^8*a.toNat+b.toNat)+c.toNat)+d.toNat := by
    simp only [value,List.foldl_cons,List.foldl_nil,Nat.toUInt32_eq,UInt32.toNat_ofNat']
    omega
  simp only [bytesOf32,whole,List.cons.injEq,and_true,← UInt8.toNat_inj,Nat.toUInt8_eq,UInt8.toNat_ofNat']
  omega

theorem cut_at {n : Nat} {bytes : List UInt8} (long : n ≤ bytes.length) : ∃ front back, bytes = front ++ back ∧ front.length = n :=
  ⟨bytes.take n,bytes.drop n,(List.take_append_drop n bytes).symm,List.length_take_of_le long⟩

theorem field_byte (pre mid post : List UInt8) (i : Nat) (inside : i < mid.length) : (pre ++ (mid ++ post))[pre.length+i]? = mid[i]? := by
  rw [List.getElem?_append_right (Nat.le_add_right _ _),Nat.add_sub_cancel_left,List.getElem?_append_left inside]

theorem word16_field (pre post : List UInt8) (v : UInt16) (starts : start = pre.length) : word16 (pre ++ (bytesOf16 v ++ post)) start = some v := by
  subst starts
  have first := field_byte pre (bytesOf16 v) post 0 Nat.zero_lt_two
  have second := field_byte pre (bytesOf16 v) post 1 Nat.one_lt_two
  unfold word16
  rw [Nat.add_zero] at first
  rw [first,second]
  exact congrArg some (value16 v)

theorem word32_field (pre post : List UInt8) (v : UInt32) (starts : start = pre.length) : word32 (pre ++ (bytesOf32 v ++ post)) start = some v := by
  subst starts
  have field := field_byte pre (bytesOf32 v) post
  have first := field 0 (by simp [bytesOf32])
  unfold word32
  rw [Nat.add_zero] at first
  rw [first,field 1 (by simp [bytesOf32]),field 2 (by simp [bytesOf32]),field 3 (by simp [bytesOf32])]
  exact congrArg some (value32 v)

theorem slice_back {start stop : Nat} (front back : List UInt8) (starts : start = front.length) (within : stop ≤ (front ++ back).length) :
    slice (front ++ back) start stop = if start ≤ stop then some (back.take (stop-start)) else none := by
  subst starts
  unfold slice
  split
  · rename_i both
    rw [if_pos both.1,List.take_append,List.take_of_length_le both.1,List.drop_append_length]
  · rename_i outside
    rw [if_neg (fun order => outside ⟨order,within⟩)]

end ByteFields
