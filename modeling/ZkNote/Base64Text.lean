import Mathlib.Data.List.Basic
import Mathlib.Data.List.Nodup

namespace Base64Text

-- Standard Base64 with padding, read strictly: the bits that the padding leaves
-- over are zero.
variable {bytes : List UInt8} {text : List Char} {c : Char} {n : Nat}

def alphabet : List Char := "ABCDEFGHIJKLMNOPQRSTUVWXYZabcdefghijklmnopqrstuvwxyz0123456789+/".toList

def letter (n : Nat) : Char := alphabet.getD n '='

def value (c : Char) : Option Nat := if c ∈ alphabet then some (alphabet.idxOf c) else none

def encode : List UInt8 → List Char
  | a :: b :: c :: rest =>
    letter (a.toNat / 4) :: letter (a.toNat%4*16+b.toNat / 16) :: letter (b.toNat%16*4+c.toNat / 64) :: letter (c.toNat%64) :: encode rest
  | [a,b] => [letter (a.toNat / 4),letter (a.toNat%4*16+b.toNat / 16),letter (b.toNat%16*4),'=']
  | [a] => [letter (a.toNat / 4),letter (a.toNat%4*16),'=','=']
  | [] => []

def decode : List Char → Option (List UInt8)
  | [] => some []
  | w :: x :: y :: z :: rest => do
    let p ← value w
    let q ← value x
    if z = '=' then
      if rest ≠ [] then none else
      if y = '=' then
        if q%16 ≠ 0 then none else some [(p*4+q / 16).toUInt8]
      else do
        let r ← value y
        if r%4 ≠ 0 then none else some [(p*4+q / 16).toUInt8,(q%16*16+r / 4).toUInt8]
    else do
      let r ← value y
      let s ← value z
      let more ← decode rest
      return (p*4+q / 16).toUInt8 :: (q%16*16+r / 4).toUInt8 :: (r%4*64+s).toUInt8 :: more
  | _ => none

theorem alphabet_length : alphabet.length = 64 := by decide

theorem value_letter (small : n < 64) : value (letter n) = some n := by
  have inside : n < alphabet.length := by rwa [alphabet_length]
  have is : letter n = alphabet[n] := by
    unfold letter
    rw [List.getD_eq_getElem?_getD,List.getElem?_eq_getElem inside]
    rfl
  have once : alphabet.Nodup := by decide +kernel
  unfold value
  rw [is,if_pos (List.getElem_mem inside),List.Nodup.idxOf_getElem once n inside]

theorem letter_value (read : value c = some n) : n < 64 ∧ letter n = c := by
  unfold value at read
  split at read
  · rename_i inside
    cases read
    have small := List.idxOf_lt_length_of_mem inside
    refine ⟨by rwa [alphabet_length] at small,?_⟩
    unfold letter
    rw [List.getD_eq_getElem?_getD,List.getElem?_eq_getElem small]
    exact List.getElem_idxOf small
  · cases read

theorem letter_not_padding (small : n < 64) : letter n ≠ '=' := by
  intro is
  have read := value_letter small
  rw [is,show value '=' = none by decide] at read
  cases read

theorem byte_eq (a : UInt8) (is : n = a.toNat) : n.toUInt8 = a := by
  rw [is,Nat.toUInt8_eq,UInt8.ofNat_toNat]

theorem byte_toNat (small : n < 256) : n.toUInt8.toNat = n := by
  rw [Nat.toUInt8_eq]
  exact UInt8.toNat_ofNat_of_lt' small

theorem decode_encode (bytes : List UInt8) : decode (encode bytes) = some bytes := by
  induction bytes using encode.induct with
  | case1 a b c rest ih =>
      have aFit := a.toNat_lt
      have bFit := b.toNat_lt
      have cFit := c.toNat_lt
      rw [encode,decode,value_letter (by omega),value_letter (by omega)]
      dsimp only [Option.bind_eq_bind,Option.bind_some]
      rw [if_neg (letter_not_padding (by omega)),value_letter (by omega),value_letter (by omega),ih]
      dsimp only [Option.bind_some]
      rw [byte_eq a (by omega),byte_eq b (by omega),byte_eq c (by omega)]
      rfl
  | case2 a b =>
      have aFit := a.toNat_lt
      have bFit := b.toNat_lt
      rw [encode,decode,value_letter (by omega),value_letter (by omega)]
      dsimp only [Option.bind_eq_bind,Option.bind_some]
      rw [if_pos rfl,if_neg (by simp),if_neg (letter_not_padding (by omega)),value_letter (by omega)]
      dsimp only [Option.bind_some]
      rw [if_neg (by omega),byte_eq a (by omega),byte_eq b (by omega)]
  | case3 a =>
      have aFit := a.toNat_lt
      rw [encode,decode,value_letter (by omega),value_letter (by omega)]
      dsimp only [Option.bind_eq_bind,Option.bind_some]
      rw [if_pos rfl,if_neg (by simp),if_pos rfl,if_neg (by omega),byte_eq a (by omega)]
  | case4 => rfl

-- What is read was written so, and in no other way.
theorem encode_decode (read : decode text = some bytes) : encode bytes = text ∧ text.length = 4*((bytes.length+2) / 3) := by
  induction text using decode.induct generalizing bytes with
  | case1 =>
      cases read
      exact ⟨rfl,rfl⟩
  | case2 w x y z rest ih =>
      rw [decode] at read
      simp only [Option.bind_eq_bind,Option.bind_eq_some_iff] at read
      obtain ⟨p,readW,q,readX,read⟩ := read
      obtain ⟨pFit,rfl⟩ := letter_value readW
      obtain ⟨qFit,rfl⟩ := letter_value readX
      split at read
      · rename_i padded
        split at read
        · cases read
        · rename_i last
          obtain rfl := not_not.mp last
          subst padded
          split at read
          · rename_i twice
            split at read
            · cases read
            · rename_i zero
              cases read
              subst twice
              refine ⟨?_,by simp⟩
              rw [encode,byte_toNat (by omega),show (p*4+q / 16) / 4 = p by omega,show (p*4+q / 16)%4*16 = q by omega]
          · rename_i once
            obtain ⟨r,readY,both⟩ := Option.bind_eq_some_iff.mp read
            obtain ⟨rFit,rfl⟩ := letter_value readY
            split at both
            · cases both
            · rename_i zero
              cases both
              refine ⟨?_,by simp⟩
              rw [encode,byte_toNat (by omega),byte_toNat (by omega),show (p*4+q / 16) / 4 = p by omega,
                show (p*4+q / 16)%4*16+(q%16*16+r / 4) / 16 = q by omega,show (q%16*16+r / 4)%16*4 = r by omega]
      · obtain ⟨r,readY,s,readZ,more,readRest,is⟩ : ∃ r, value y = some r ∧ ∃ s, value z = some s ∧ ∃ more, decode rest = some more ∧
            (p*4+q / 16).toUInt8 :: (q%16*16+r / 4).toUInt8 :: (r%4*64+s).toUInt8 :: more = bytes := by
          simpa [Option.bind_eq_some_iff] using read
        subst is
        obtain ⟨rFit,rfl⟩ := letter_value readY
        obtain ⟨sFit,rfl⟩ := letter_value readZ
        obtain ⟨same,length⟩ := ih readRest
        refine ⟨?_,?_⟩
        · rw [encode,same,byte_toNat (by omega),byte_toNat (by omega),byte_toNat (by omega),show (p*4+q / 16) / 4 = p by omega,
            show (p*4+q / 16)%4*16+(q%16*16+r / 4) / 16 = q by omega,show (q%16*16+r / 4)%16*4+(r%4*64+s) / 64 = r by omega,
            show (r%4*64+s)%64 = s by omega]
        · simp only [List.length_cons,length]
          omega
  | case3 text short long =>
      rw [decode] at read
      · cases read
      · exact short
      · exact long

end Base64Text
