import ZkNote.ByteOffsets
import ZkNote.ChunkParsing
import ZkNote.RecoveryText

namespace ZkNote.RecoveryExact
open AttachmentCrypto ChunkFormat ChunkParsing Fallible RecoveryText
open ByteOffsets (size bytes)
open StdText (isWhitespace)

variable {text : List Char} {raw : List UInt8} {c d : Char} {m n : Nat} {b x y : UInt8} {utf8Error : List UInt8 → String}

-- The texts that are read as bytes: two digits for each, or a plus sign and a digit.
inductive Loose : List Char → List UInt8 → Prop where
  | nil : Loose [] []
  | digits {c d : Char} {m n : Nat} {text : List Char} {raw : List UInt8} (high : hexValue c = some m) (low : hexValue d = some n) (rest : Loose text raw) :
      Loose (c :: d :: text) ((16*m+n).toUInt8 :: raw)
  | plus {d : Char} {n : Nat} {text : List Char} {raw : List UInt8} (low : hexValue d = some n) (rest : Loose text raw) :
      Loose ('+' :: d :: text) (n.toUInt8 :: raw)

theorem ascii_each {P : Char → Prop} (each : ∀ n < 128, P (Char.ofNat n)) (ascii : c.toNat < 128) : P c := by
  have is := each c.toNat ascii
  rwa [Char.ofNat_toNat] at is

-- What a hexadecimal digit is: ASCII, one of sixteen, and its upper case the digit written.
theorem hex_digit (read : hexValue c = some m) : c.toNat < 128 ∧ m < 16 ∧ c.toUpper = upperDigit m ∧ c ≠ '+' := by
  have ascii : c.toNat < 128 := by
    unfold hexValue at read
    dsimp only at read
    split at read
    · omega
    · split at read
      · omega
      · split at read
        · omega
        · cases read
  have table : ∀ n < 128, ∀ m < 16, hexValue (Char.ofNat n) = some m → (Char.ofNat n).toUpper = upperDigit m ∧ Char.ofNat n ≠ '+' := by decide +kernel
  have small : m < 16 := by
    unfold hexValue at read
    dsimp only at read
    split at read
    · cases read
      omega
    · split at read
      · cases read
        omega
      · split at read
        · cases read
          omega
        · cases read
  exact ⟨ascii,small,ascii_each (P := fun c => hexValue c = some m → c.toUpper = upperDigit m ∧ c ≠ '+')
    (fun n inside => table n inside m small) ascii read⟩

theorem digit_read (small : n < 16) : hexValue (upperDigit n) = some n := by
  have table : ∀ n < 16, hexValue (upperDigit n) = some n := by decide +kernel
  exact table n small

theorem digit_plain (small : n < 16) : upperDigit n ≠ '-' ∧ upperDigit n ≠ '+' ∧ isWhitespace (upperDigit n) = false := by
  have table : ∀ n < 16, upperDigit n ≠ '-' ∧ upperDigit n ≠ '+' ∧ isWhitespace (upperDigit n) = false := by decide +kernel
  exact table n small

theorem ascii_size (ascii : c.toNat < 128) : c.utf8Size = 1 := by
  rw [Char.utf8Size_eq_one_iff]
  exact UInt32.le_iff_toNat_le.mpr (Nat.le_of_lt_succ ascii)

theorem utf8_bytes (text : String) : utf8 text = bytes text.toList := by
  have encoded : text.toByteArray = (text.toList.flatMap String.utf8EncodeChar).toByteArray := String.utf8Encode_toList.symm
  rw [utf8,encoded,List.data_toByteArray]
  rfl

theorem one_digit : readDigits 0 [d] = .ok b ↔ ∃ n, hexValue d = some n ∧ b = n.toUInt8 := by
  simp only [readDigits]
  cases read : hexValue d with
  | none => simp
  | some n =>
      have small := (hex_digit read).2.1
      dsimp only
      rw [if_neg (by omega)]
      simp [eq_comm]

theorem two_digits : readDigits 0 [c,d] = .ok b ↔ ∃ m n, hexValue c = some m ∧ hexValue d = some n ∧ b = (16*m+n).toUInt8 := by
  simp only [readDigits]
  cases high : hexValue c with
  | none => simp
  | some m =>
      have small := (hex_digit high).2.1
      dsimp only
      rw [if_neg (by omega)]
      cases low : hexValue d with
      | none => simp
      | some n =>
          have small' := (hex_digit low).2.1
          dsimp only
          rw [if_neg (by omega)]
          simp [eq_comm]

-- What `from_str_radix` reads from two letters.
def PairReads (c d : Char) (b : UInt8) : Prop :=
  (∃ m n, hexValue c = some m ∧ hexValue d = some n ∧ b = (16*m+n).toUInt8) ∨ c = '+' ∧ ∃ n, hexValue d = some n ∧ b = n.toUInt8

theorem plus_no_digit : hexValue '+' = none := by decide

theorem two_letters : fromStrRadix (String.ofList [c,d]) = .ok b ↔ PairReads c d b := by
  unfold fromStrRadix PairReads
  rw [String.toList_ofList]
  split
  · rename_i same
    cases same
  · rename_i same
    cases same
  · rename_i same
    cases same
    have none : ¬∃ m n, hexValue '+' = some m ∧ hexValue d = some n ∧ b = (16*m+n).toUInt8 := by simp [plus_no_digit]
    exact one_digit.trans ⟨fun read => .inr ⟨rfl,read⟩,fun either => (either.resolve_left none).2⟩
  · rename_i other
    have unlike : c ≠ '+' := fun plus => other [d] (by rw [plus])
    rw [two_digits]
    exact ⟨.inl,fun either => either.resolve_right (fun is => unlike is.1)⟩

-- One letter of two bytes is never read.
theorem one_letter (wide : c.utf8Size = 2) : fromStrRadix (String.ofList [c]) ≠ .ok b := by
  intro read
  unfold fromStrRadix at read
  rw [String.toList_ofList] at read
  have narrow : ∀ {m}, hexValue c = some m → False := by
    intro m digit
    have one := ascii_size (hex_digit digit).1
    omega
  split at read
  · rename_i same
    cases same
  · cases read
  · rename_i same
    cases same
    exact absurd wide (by decide)
  · obtain ⟨n,digit,_⟩ := one_digit.mp read
    exact narrow digit

theorem read_byte (read : readByte utf8Error [x,y] = .ok b) : ∃ c d, [x,y] = bytes [c,d] ∧ PairReads c d b := by
  unfold readByte at read
  cases decoded : fromUtf8 [x,y] with
  | none =>
      rw [decoded] at read
      cases read
  | some hexStr =>
      rw [decoded] at read
      have digits := mapped_done read
      have encoded : bytes hexStr.toList = [x,y] := (utf8_bytes hexStr).symm.trans (utf8_back decoded)
      have sized := congrArg List.length encoded
      rw [ByteOffsets.bytes_length] at sized
      obtain ⟨letters,rfl⟩ : ∃ letters, hexStr = String.ofList letters := ⟨hexStr.toList,String.ofList_toList.symm⟩
      rw [String.toList_ofList] at encoded sized
      rcases letters with _ | ⟨c,_ | ⟨d,_ | ⟨e,rest⟩⟩⟩
      · cases digits
      · rw [ByteOffsets.size_cons] at sized
        exact absurd digits (one_letter sized)
      · exact ⟨c,d,encoded.symm,two_letters.mp digits⟩
      · rw [ByteOffsets.size_cons,ByteOffsets.size_cons,ByteOffsets.size_cons] at sized
        have one := c.utf8Size_pos
        have two := d.utf8Size_pos
        have three := e.utf8Size_pos
        have total : c.utf8Size+(d.utf8Size+(e.utf8Size+size rest)) = 2 := sized
        omega

theorem pair_ascii (pair : PairReads c d b) : c.utf8Size = 1 ∧ d.utf8Size = 1 := by
  rcases pair with ⟨m,n,high,low,_⟩ | ⟨rfl,n,low,_⟩
  · exact ⟨ascii_size (hex_digit high).1,ascii_size (hex_digit low).1⟩
  · exact ⟨rfl,ascii_size (hex_digit low).1⟩

theorem loose_cons (pair : PairReads c d b) (rest : Loose text raw) : Loose (c :: d :: text) (b :: raw) := by
  rcases pair with ⟨m,n,high,low,rfl⟩ | ⟨rfl,n,low,rfl⟩
  · exact .digits high low rest
  · exact .plus low rest

theorem bytes_append (front back : List Char) : bytes (front ++ back) = bytes front ++ bytes back := List.flatMap_append

theorem chunks_read {list : List UInt8} (even : list.length % 2 = 0) (read : (chunksOfTwo list).mapM (readByte utf8Error) = .ok raw) :
    ∃ text, list = bytes text ∧ Loose text raw := by
  induction list using chunksOfTwo.induct generalizing raw with
  | case1 x y rest ih =>
      rw [chunksOfTwo,List.mapM_cons] at read
      obtain ⟨b,first,read⟩ := bind_done read
      obtain ⟨others,later,done⟩ := bind_done read
      cases done
      obtain ⟨c,d,pair,reads⟩ := read_byte first
      obtain ⟨text,is,loose⟩ := ih (by rw [List.length_cons,List.length_cons] at even; omega) later
      refine ⟨c :: d :: text,?_,loose_cons reads loose⟩
      rw [show c :: d :: text = [c,d] ++ text from rfl,bytes_append,← pair,← is]
      rfl
  | case2 =>
      cases read
      exact ⟨[],rfl,.nil⟩
  | case3 short some_ odd =>
      exfalso
      rcases short with _ | ⟨x,_ | ⟨y,rest⟩⟩
      · exact odd rfl
      · exact absurd even (by simp)
      · exact some_ x y rest rfl

theorem pair_bytes (pair : PairReads c d b) : ∃ x y, bytes [c,d] = [x,y] := by
  obtain ⟨one,two⟩ := pair_ascii pair
  have lengths : (bytes [c,d]).length = 2 := by
    rw [ByteOffsets.bytes_length,ByteOffsets.size_cons,ByteOffsets.size_cons,one,two]
    rfl
  rcases is : bytes [c,d] with _ | ⟨x,_ | ⟨y,_ | ⟨z,rest⟩⟩⟩
  · rw [is] at lengths
    cases lengths
  · rw [is] at lengths
    cases lengths
  · exact ⟨x,y,rfl⟩
  · rw [is] at lengths
    cases lengths

theorem pair_read (pair : PairReads c d b) {x y : UInt8} (is : bytes [c,d] = [x,y]) : readByte utf8Error [x,y] = .ok b := by
  have decoded : fromUtf8 [x,y] = some (String.ofList [c,d]) := by
    have back := from_utf8 (String.ofList [c,d])
    rwa [utf8_bytes,String.toList_ofList,is] at back
  unfold readByte
  rw [decoded]
  dsimp only
  rw [two_letters.mpr pair]
  rfl

theorem loose_read (loose : Loose text raw) : (chunksOfTwo (bytes text)).mapM (readByte utf8Error) = .ok raw := by
  have step : ∀ {c d : Char} {b : UInt8} {text raw}, PairReads c d b → (chunksOfTwo (bytes text)).mapM (readByte utf8Error) = .ok raw →
      (chunksOfTwo (bytes (c :: d :: text))).mapM (readByte utf8Error) = .ok (b :: raw) := by
    intro c d b text raw pair later
    obtain ⟨x,y,is⟩ := pair_bytes pair
    rw [show c :: d :: text = [c,d] ++ text from rfl,bytes_append,is,List.cons_append,List.cons_append,List.nil_append,chunksOfTwo,List.mapM_cons,
      pair_read pair is,later]
    rfl
  induction loose with
  | nil => rfl
  | digits high low rest ih => exact step (.inl ⟨_,_,high,low,rfl⟩) ih
  | plus low rest ih => exact step (.inr ⟨rfl,_,low,rfl⟩) ih

theorem loose_size (loose : Loose text raw) : size text = 2*raw.length := by
  induction loose with
  | nil => rfl
  | digits high low rest ih =>
      have one := ascii_size (hex_digit high).1
      have two := ascii_size (hex_digit low).1
      rw [ByteOffsets.size_cons,ByteOffsets.size_cons,one,two,ih,List.length_cons]
      omega
  | plus low rest ih =>
      have one : '+'.utf8Size = 1 := rfl
      have two := ascii_size (hex_digit low).1
      rw [ByteOffsets.size_cons,ByteOffsets.size_cons,one,two,ih,List.length_cons]
      omega

theorem bytes_inj {other : List Char} (same : bytes text = bytes other) : text = other := by
  have strings : utf8 (String.ofList text) = utf8 (String.ofList other) := by
    rw [utf8_bytes,utf8_bytes,String.toList_ofList,String.toList_ofList,same]
  exact String.ofList_injective (utf8_inj strings)

section
variable {blake2b512 : List UInt8 → List UInt8}

def cleaned (input : String) : List Char := input.toList.filter (fun c => !isWhitespace c && c ≠ '-')

theorem checksum_length (sized : ∀ bytes, (blake2b512 bytes).length = 64) (key : List UInt8) : (computeChecksum blake2b512 key).length = checksumLen := by
  rw [computeChecksum,List.length_take,sized]
  rfl

-- Exactly the loose spellings of a key and its checksum are read.
theorem parse_iff (sized : ∀ bytes, (blake2b512 bytes).length = 64) {input : String} {key : SecretKey} :
    parseRecoveryKey blake2b512 utf8Error input = .ok key ↔ Loose (cleaned input) (combined blake2b512 key) := by
  have length : (cleanedText input).utf8ByteSize = size (cleaned input) := by
    rw [← utf8_length,utf8_bytes,cleanedText,String.toList_ofList,ByteOffsets.bytes_length]
    rfl
  have chunks : utf8 (cleanedText input) = bytes (cleaned input) := by
    rw [utf8_bytes,cleanedText,String.toList_ofList]
    rfl
  unfold parseRecoveryKey
  dsimp only
  rw [length,chunks]
  constructor
  · intro parsed
    split at parsed
    · cases parsed
    rename_i whole
    split at parsed
    · cases parsed
    rename_i raw read
    split at parsed
    · split at parsed
      · rename_i same
        cases parsed
        obtain ⟨text,is,loose⟩ := chunks_read (by rw [ByteOffsets.bytes_length,not_not.mp whole]; rfl) read
        rw [bytes_inj is,combined,← same,List.take_append_drop]
        exact loose
      · cases parsed
    · cases parsed
  · intro loose
    have whole : size (cleaned input) = formattedRawLen*2 := by
      rw [loose_size loose,combined,List.length_append,key.sized,checksum_length sized]
      rfl
    have front : (combined blake2b512 key).take keyLen = key.bytes := by rw [combined,← key.sized,List.take_left]
    have back : (combined blake2b512 key).drop keyLen = computeChecksum blake2b512 key.bytes := by rw [combined,← key.sized,List.drop_left]
    rw [if_neg (not_not.mpr whole),loose_read loose]
    simp only [front,back,if_true,key.sized,dite_true]

theorem written_loose (raw : List UInt8) : Loose (raw.flatMap upperHex) raw := by
  induction raw with
  | nil => exact .nil
  | cons b raw ih =>
      have high : b.toNat / 16 < 16 := by
        have small := b.toNat_lt
        omega
      have digits := Loose.digits (digit_read high) (digit_read (Nat.mod_lt b.toNat (show 0 < 16 by decide))) ih
      rw [Nat.div_add_mod,Nat.toUInt8_eq,UInt8.ofNat_toNat] at digits
      exact digits

theorem written_plain (raw : List UInt8) : ∀ c ∈ raw.flatMap upperHex, c ≠ '-' ∧ c ≠ '+' ∧ isWhitespace c = false := by
  intro c inside
  obtain ⟨b,_,there⟩ := List.mem_flatMap.mp inside
  have small := b.toNat_lt
  rw [upperHex,List.mem_cons,List.mem_singleton] at there
  rcases there with rfl | rfl
  · exact digit_plain (by omega)
  · exact digit_plain (by omega)

theorem chunks_flatten (list : List UInt8) : (chunksOfFour list).flatten = list := by
  induction list using chunksOfFour.induct with
  | case1 a b c d rest ih => rw [chunksOfFour,List.flatten_cons,ih]; rfl
  | case2 => rfl
  | case3 short some_ none =>
      rw [chunksOfFour]
      · exact List.append_nil short
      · exact some_
      · exact none

-- Without its hyphens the written key is its digits and the checksum's.
theorem formatted_digits (key : SecretKey) :
    (formatRecoveryKey blake2b512 key).toList.filter (· ≠ '-') = (combined blake2b512 key).flatMap upperHex ∧
      cleaned (formatRecoveryKey blake2b512 key) = (combined blake2b512 key).flatMap upperHex := by
  have pieces : ((chunksOfFour (combined blake2b512 key)).map (fun chunk => chunk.flatMap upperHex)).flatten = (combined blake2b512 key).flatMap upperHex := by
    have apart : ∀ chunks : List (List UInt8), (chunks.map (fun chunk => chunk.flatMap upperHex)).flatten = chunks.flatten.flatMap upperHex := by
      intro chunks
      induction chunks with
      | nil => rfl
      | cons chunk chunks ih => rw [List.map_cons,List.flatten_cons,ih,List.flatten_cons,List.flatMap_append]
    rw [apart,chunks_flatten]
  have filtered : ∀ (keep : Char → Bool) (parts : List (List Char)), keep '-' = false → (∀ part ∈ parts, ∀ c ∈ part, keep c = true) →
      (['-'].intercalate parts).filter keep = parts.flatten := by
    intro keep parts hyphen all
    induction parts with
    | nil => rfl
    | cons part parts ih =>
        have own : part.filter keep = part := List.filter_eq_self.mpr (all part List.mem_cons_self)
        cases parts with
        | nil => simp [List.intercalate,own]
        | cons next parts =>
            have later := ih (fun part inside => all part (List.mem_cons_of_mem _ inside))
            rw [show ['-'].intercalate (part :: next :: parts) = part ++ '-' :: ['-'].intercalate (next :: parts) by simp [List.intercalate],
              List.filter_append,own,List.filter_cons_of_neg (by rw [hyphen]; exact Bool.false_ne_true),later]
            rfl
  have digits : ∀ part ∈ (chunksOfFour (combined blake2b512 key)).map (fun chunk => chunk.flatMap upperHex), ∀ c ∈ part,
      c ≠ '-' ∧ c ≠ '+' ∧ isWhitespace c = false := by
    intro part inside
    obtain ⟨chunk,_,rfl⟩ := List.mem_map.mp inside
    exact written_plain chunk
  unfold cleaned formatRecoveryKey
  rw [String.toList_ofList,← pieces]
  constructor
  · exact filtered _ _ rfl (fun part inside c there => by simp [(digits part inside c there).1])
  · exact filtered _ _ rfl (fun part inside c there => by simp [(digits part inside c there).1,(digits part inside c there).2.2])

-- Without a plus sign the text is the key's digits in one case or the other.
theorem loose_upper (loose : Loose text raw) (plain : '+' ∉ text) : text.map Char.toUpper = raw.flatMap upperHex := by
  induction loose with
  | nil => rfl
  | @digits c d m n text raw high low rest ih =>
      obtain ⟨_,smallHigh,upper,_⟩ := hex_digit high
      obtain ⟨_,smallLow,upper',_⟩ := hex_digit low
      have value : (16*m+n).toUInt8.toNat = 16*m+n := by
        rw [Nat.toUInt8_eq,UInt8.toNat_ofNat_of_lt' (show 16*m+n < 2^8 by omega)]
      have firstDigit : (16*m+n) / 16 = m := by omega
      have secondDigit : (16*m+n) % 16 = n := by omega
      rw [List.map_cons,List.map_cons,ih (fun inside => plain (List.mem_cons_of_mem _ (List.mem_cons_of_mem _ inside))),List.flatMap_cons,upperHex,value,
        firstDigit,secondDigit,upper,upper']
      rfl
  | plus low rest ih => exact absurd List.mem_cons_self plain

theorem recovery_exact_iff (sized : ∀ bytes, (blake2b512 bytes).length = 64) (utf8Error : List UInt8 → String) :
    (∀ key, parseRecoveryKey blake2b512 utf8Error (formatRecoveryKey blake2b512 key) = .ok key) ∧
    ∀ input, (∀ key, parseRecoveryKey blake2b512 utf8Error input = .ok key →
        (cleaned input).map Char.toUpper = (formatRecoveryKey blake2b512 key).toList.filter (· ≠ '-')) ↔
      '+' ∉ cleaned input ∨ ¬∃ key, Loose (cleaned input) (combined blake2b512 key) := by
  constructor
  · intro key
    rw [parse_iff sized,(formatted_digits key).2]
    exact written_loose _
  · intro input
    constructor
    · intro exact_
      by_contra both
      rw [not_or,not_not,not_not] at both
      obtain ⟨plus,key,loose⟩ := both
      have same := exact_ key ((parse_iff sized).mpr loose)
      rw [(formatted_digits key).1] at same
      have upper : '+' ∈ (cleaned input).map Char.toUpper := List.mem_map.mpr ⟨'+',plus,rfl⟩
      rw [same] at upper
      exact (written_plain _ _ upper).2.1 rfl
    · intro either key parsed
      have loose := (parse_iff sized).mp parsed
      rcases either with plain | none
      · rw [(formatted_digits key).1]
        exact loose_upper loose plain
      · exact absurd ⟨key,loose⟩ none

end

-- The digest of the label and thirty-two zero bytes, as Blake2b512 gives it.
def zeroDigest : List UInt8 :=
  [0x80,0xae,0x54,0x33,0x4d,0xa5,0xb9,0x60,0xad,0x4d,0x2b,0xa1,0xef,0xa5,0xba,0xb9,
    0xc5,0xeb,0x09,0x5d,0x86,0xe4,0x89,0xbb,0x9c,0x85,0xe1,0xfa,0x3a,0x7f,0xd1,0xde,
    0x0e,0xa8,0x1d,0x5a,0xf5,0x1b,0x05,0x3a,0xa5,0x44,0x1c,0x0b,0x04,0x39,0xdb,0x04,
    0xd1,0xa7,0xc4,0x1e,0x28,0xe0,0x02,0x83,0xd5,0x80,0xeb,0x80,0x2f,0x72,0x80,0xe3]

def zeroHash (bytes : List UInt8) : List UInt8 :=
  if bytes = utf8 "zk-notes-recovery-checksum-v1" ++ List.replicate 32 0 then zeroDigest else List.replicate 64 0

theorem zero_hash_sized (bytes : List UInt8) : (zeroHash bytes).length = 64 := by
  unfold zeroHash
  split <;> rfl

def zeroKey : SecretKey := ⟨List.replicate 32 0,rfl⟩
def zeroText : String := "00000000-00000000-00000000-00000000-00000000-00000000-00000000-00000000-80AE5433"
def typedText : String := "00000000 00000000 00000000 00000000 00000000 00000000 00000000 00000000 80ae5433"
def plusText : String := "+0000000-00000000-00000000-00000000-00000000-00000000-00000000-00000000-80AE5433"

def noError (_ : List UInt8) : String := "invalid utf-8 sequence"

theorem typed_key_read : formatRecoveryKey zeroHash zeroKey = zeroText ∧ parseRecoveryKey zeroHash noError zeroText = .ok zeroKey ∧
    ((cleaned typedText).map Char.toUpper = (formatRecoveryKey zeroHash zeroKey).toList.filter (· ≠ '-')) := by
  have written : formatRecoveryKey zeroHash zeroKey = zeroText := by decide +kernel
  have exact_ := recovery_exact_iff zero_hash_sized noError
  refine ⟨written,written ▸ exact_.1 zeroKey,(exact_.2 typedText).mpr (.inl (by decide +kernel)) zeroKey ?_⟩
  rfl

theorem plus_sign_read : parseRecoveryKey zeroHash noError plusText = .ok zeroKey ∧
    (cleaned plusText).map Char.toUpper ≠ (formatRecoveryKey zeroHash zeroKey).toList.filter (· ≠ '-') := by
  refine ⟨by rfl,by decide +kernel⟩

end ZkNote.RecoveryExact
