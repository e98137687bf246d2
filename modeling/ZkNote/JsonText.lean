import Mathlib.Data.List.Basic

namespace JsonText

-- Compact JSON. A codec's reader takes off the front of a text what its writer
-- put there.
structure Codec (α : Type) where
  write : α → List Char
  read : List Char → Option (α × List Char)
  back : ∀ a rest, read (write a ++ rest) = some (a,rest)

-- Escapes of two characters: what is escaped, and the letter after the backslash.
def letters : List (Char × Char) := [('"','"'),('\\','\\'),('\x08','b'),('\x0c','f'),('\n','n'),('\r','r'),('\t','t')]

def escape (c : Char) : List Char :=
  match letters.lookup c with
  | some letter => ['\\',letter]
  | none => if c.toNat < 0x20 then ['\\','u','0','0',Nat.digitChar (c.toNat / 16),Nat.digitChar (c.toNat%16)] else [c]

def quoted (text : String) : List Char := '"' :: (text.toList.flatMap escape ++ ['"'])

def hexValue (c : Char) : Option Nat := (List.range 16).find? (fun n => Nat.digitChar n = c)

def readCode (a b c d : Char) : Option Char := do
  let high := (← hexValue a)*16 + (← hexValue b)
  let low := (← hexValue c)*16 + (← hexValue d)
  let code := high*256+low
  if code.isValidChar then some (Char.ofNat code) else none

def readChars : List Char → Option (List Char × List Char)
  | [] => none
  | '"' :: rest => some ([],rest)
  | '\\' :: 'u' :: a :: b :: c :: d :: rest => do
    let code ← readCode a b c d
    let (more,rest) ← readChars rest
    return (code :: more,rest)
  | '\\' :: letter :: rest => do
    let (c,_) ← letters.find? (fun row => row.2 = letter)
    let (more,rest) ← readChars rest
    return (c :: more,rest)
  | c :: rest => do
    let (more,rest) ← readChars rest
    return (c :: more,rest)

def readQuoted : List Char → Option (String × List Char)
  | '"' :: rest => (readChars rest).map (fun (chars,rest) => (String.ofList chars,rest))
  | _ => none

def number (n : Nat) : List Char := Nat.toDigits 10 n

def readNumber (text : List Char) : Option (Nat × List Char) :=
  match text.takeWhile Char.isDigit with
  | [] => none
  | digits => some (Nat.ofDigitChars 10 digits 0,text.dropWhile Char.isDigit)

def items : List String → List Char
  | [] => []
  | [item] => quoted item
  | item :: more => quoted item ++ ',' :: items more

def array (texts : List String) : List Char := '[' :: (items texts ++ [']'])

-- The fuel bounds the number of items.
def readItems : Nat → List Char → Option (List String × List Char)
  | 0,_ => none
  | fuel+1,text => do
    let (item,rest) ← readQuoted text
    match rest with
    | ']' :: rest => some ([item],rest)
    | ',' :: rest =>
      let (more,rest) ← readItems fuel rest
      return (item :: more,rest)
    | _ => none

def readArray : List Char → Option (List String × List Char)
  | '[' :: ']' :: rest => some ([],rest)
  | '[' :: rest => readItems rest.length rest
  | _ => none

variable {rest : List Char}

theorem control_read : ∀ n < 0x20, readCode '0' '0' (Nat.digitChar (n / 16)) (Nat.digitChar (n%16)) = some (Char.ofNat n) := by
  decide

theorem letter_row {c letter : Char} (is : letters.lookup c = some letter) : (c,letter) ∈ letters := by
  obtain ⟨before,after,whole,_⟩ := List.lookup_eq_some_iff.mp is
  rw [whole]
  exact List.mem_append_right _ List.mem_cons_self

theorem char_read (c : Char) : readChars (escape c ++ rest) = (readChars rest).map (fun (more,rest) => (c :: more,rest)) := by
  unfold escape
  split
  · rename_i letter is
    have row := letter_row is
    simp only [letters,List.mem_cons,Prod.mk.injEq,List.not_mem_nil,or_false] at row
    rcases row with ⟨rfl,rfl⟩ | ⟨rfl,rfl⟩ | ⟨rfl,rfl⟩ | ⟨rfl,rfl⟩ | ⟨rfl,rfl⟩ | ⟨rfl,rfl⟩ | ⟨rfl,rfl⟩
    all_goals cases tail : readChars rest <;> simp [readChars,letters,tail]
  · rename_i long
    split
    · rename_i control
      have code := control_read c.toNat control
      rw [Char.ofNat_toNat] at code
      simp only [List.cons_append,List.nil_append,readChars,code]
      cases readChars rest <;> rfl
    · have plain : c ≠ '"' ∧ c ≠ '\\' := by
        constructor
        · rintro rfl
          cases long
        · rintro rfl
          cases long
      rw [List.singleton_append,readChars.eq_5]
      · cases readChars rest <;> rfl
      · exact plain.1
      · intro _ _ _ _ _ is
        exact absurd is plain.2
      · intro _ _ is
        exact absurd is plain.2

theorem chars_read (chars : List Char) : readChars (chars.flatMap escape ++ '"' :: rest) = some (chars,rest) := by
  induction chars with
  | nil => rfl
  | cons c chars ih =>
      rw [List.flatMap_cons,List.append_assoc,char_read,ih]
      rfl

theorem quoted_read (text : String) (rest : List Char) : readQuoted (quoted text ++ rest) = some (text,rest) := by
  show (readChars (text.toList.flatMap escape ++ ['"'] ++ rest)).map _ = _
  rw [List.append_assoc,List.singleton_append,chars_read]
  exact congrArg (fun text => some (text,rest)) (String.ofList_toList)

theorem number_read (n : Nat) (stops : (rest.head?.map Char.isDigit).getD false = false) : readNumber (number n ++ rest) = some (n,rest) := by
  have digits : ∀ c ∈ number n, c.isDigit = true := fun c inside => Nat.isDigit_of_mem_toDigits (by decide) (by decide) inside
  have ends : rest.takeWhile Char.isDigit = [] ∧ rest.dropWhile Char.isDigit = rest := by
    cases rest with
    | nil => exact ⟨rfl,rfl⟩
    | cons c rest =>
        have other : c.isDigit = false := stops
        exact ⟨List.takeWhile_cons_of_neg (by simp [other]),List.dropWhile_cons_of_neg (by simp [other])⟩
  unfold readNumber
  rw [List.takeWhile_append_of_pos digits,List.dropWhile_append_of_pos digits,ends.1,ends.2,List.append_nil]
  have some_ : number n ≠ [] := Nat.toDigits_ne_nil
  split
  · contradiction
  · exact congrArg (fun n => some (n,rest)) Nat.ofDigitChars_ten_toDigits

theorem items_read {texts : List String} (some_ : texts ≠ []) {fuel : Nat} (enough : texts.length ≤ fuel) :
    readItems fuel (items texts ++ ']' :: rest) = some (texts,rest) := by
  induction texts generalizing fuel with
  | nil => contradiction
  | cons item more ih =>
      obtain ⟨fuel,rfl⟩ : ∃ n, fuel = n+1 := ⟨fuel-1,by simp only [List.length_cons] at enough; omega⟩
      cases more with
      | nil =>
          unfold readItems
          rw [show items [item] = quoted item from rfl,quoted_read]
          rfl
      | cons next more =>
          have later := ih (by simp) (Nat.le_of_succ_le_succ enough)
          unfold readItems
          rw [show items (item :: next :: more) = quoted item ++ ',' :: items (next :: more) from rfl,List.append_assoc,quoted_read]
          show ((readItems fuel (items (next :: more) ++ ']' :: rest)).bind _) = _
          rw [later]
          rfl

theorem items_length (texts : List String) : texts.length ≤ (items texts).length := by
  induction texts with
  | nil => exact Nat.le_refl 0
  | cons item more ih =>
      cases more with
      | nil => simp [items,quoted]
      | cons next more =>
          simp only [items,List.length_append,List.length_cons] at ih ⊢
          omega

theorem array_read (texts : List String) (rest : List Char) : readArray (array texts ++ rest) = some (texts,rest) := by
  unfold array
  rw [List.cons_append,List.append_assoc,List.singleton_append]
  cases texts with
  | nil => rfl
  | cons item more =>
      have long := items_length (item :: more)
      have read : readItems (items (item :: more) ++ ']' :: rest).length (items (item :: more) ++ ']' :: rest) = some (item :: more,rest) :=
        items_read (List.cons_ne_nil item more) (by rw [List.length_append]; omega)
      obtain ⟨tail,is⟩ : ∃ tail, items (item :: more) = '"' :: tail := by
        cases more with
        | nil => exact ⟨_,rfl⟩
        | cons next more => exact ⟨_,rfl⟩
      rw [is] at read ⊢
      exact read

namespace Codec

def text : Codec String := ⟨quoted,readQuoted,quoted_read⟩

def texts : Codec (List String) := ⟨array,readArray,array_read⟩

-- A number and the comma after it.
def count : Codec Nat where
  write n := number n ++ [',']
  read text :=
    match readNumber text with
    | some (n,',' :: rest) => some (n,rest)
    | _ => none
  back n rest := by
    rw [List.append_assoc,List.singleton_append,number_read n rfl]
    rfl

variable {α β : Type}

def after (label : String) (codec : Codec α) : Codec α where
  write a := label.toList ++ codec.write a
  read text := if text.take label.toList.length = label.toList then codec.read (text.drop label.toList.length) else none
  back a rest := by
    rw [List.append_assoc,List.take_left,if_pos rfl,List.drop_left]
    exact codec.back a rest

def both (first : Codec α) (second : Codec β) : Codec (α × β) where
  write both := first.write both.1 ++ second.write both.2
  read text :=
    match first.read text with
    | none => none
    | some (a,rest) => (second.read rest).map (fun (b,rest) => ((a,b),rest))
  back both rest := by
    rw [List.append_assoc,first.back]
    dsimp only
    rw [second.back]
    rfl

end Codec

end JsonText
