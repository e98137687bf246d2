import ZkNote.AttachmentCrypto
import ZkNote.StdText

namespace ZkNote.RecoveryText
open AttachmentCrypto ChunkFormat
open StdText (isWhitespace)

def checksumLen : Nat := 4
def formattedRawLen : Nat := keyLen+checksumLen

-- The cases of `CryptoError` that a recovery key's text can give.
inductive RecoveryError where
  | invalidKeyLength (expected actual : Nat)
  | invalidEncoding (message : String)
  | invalidChecksum
  deriving DecidableEq, Repr

section
variable (blake2b512 : List UInt8 → List UInt8)

def computeChecksum (key : List UInt8) : List UInt8 := (blake2b512 (utf8 "zk-notes-recovery-checksum-v1" ++ key)).take checksumLen

def combined (recoveryKey : SecretKey) : List UInt8 := recoveryKey.bytes ++ computeChecksum blake2b512 recoveryKey.bytes

-- `{:02X}`.
def upperDigit (n : Nat) : Char := if n < 10 then Char.ofNat (48+n) else Char.ofNat (55+n)

def upperHex (b : UInt8) : List Char := [upperDigit (b.toNat / 16),upperDigit (b.toNat % 16)]

-- `chunks(4)` and `chunks(2)`; the last chunk may be shorter.
def chunksOfFour : List UInt8 → List (List UInt8)
  | a :: b :: c :: d :: rest => [a,b,c,d] :: chunksOfFour rest
  | [] => []
  | short => [short]

def chunksOfTwo : List UInt8 → List (List UInt8)
  | a :: b :: rest => [a,b] :: chunksOfTwo rest
  | [] => []
  | short => [short]

def formatRecoveryKey (recoveryKey : SecretKey) : String :=
  String.ofList (['-'].intercalate ((chunksOfFour (combined blake2b512 recoveryKey)).map (fun chunk => chunk.flatMap upperHex)))

def hexValue (c : Char) : Option Nat :=
  let v := c.toNat
  if 48 ≤ v ∧ v ≤ 57 then some (v-48)
  else if 65 ≤ v ∧ v ≤ 70 then some (v-55)
  else if 97 ≤ v ∧ v ≤ 102 then some (v-87)
  else none

-- The digits of `from_str_radix`, with its checks for the range of a `u8`.
def readDigits : (value : Nat) → List Char → Except String UInt8
  | value,[] => .ok value.toUInt8
  | value,c :: rest =>
    match hexValue c with
    | none => .error "invalid digit found in string"
    | some digit => if 255 < 16*value+digit then .error "number too large to fit in target type" else readDigits (16*value+digit) rest

-- `u8::from_str_radix(src, 16)`: a plus sign may stand before the digits.
def fromStrRadix (src : String) : Except String UInt8 :=
  match src.toList with
  | [] => .error "cannot parse integer from empty string"
  | ['+'] => .error "invalid digit found in string"
  | '+' :: digits => readDigits 0 digits
  | digits => readDigits 0 digits

def readByte (utf8Error : List UInt8 → String) (chunk : List UInt8) : Except RecoveryError UInt8 :=
  match fromUtf8 chunk with
  | none => .error (.invalidEncoding s!"invalid utf8: {utf8Error chunk}")
  | some hexStr => (fromStrRadix hexStr).mapError (fun e => .invalidEncoding s!"invalid hex digit: {e}")

def cleanedText (input : String) : String := String.ofList (input.toList.filter (fun c => !isWhitespace c && c ≠ '-'))

def parseRecoveryKey (utf8Error : List UInt8 → String) (input : String) : Except RecoveryError SecretKey :=
  let cleaned := cleanedText input
  if cleaned.utf8ByteSize ≠ formattedRawLen*2 then .error (.invalidKeyLength (formattedRawLen*2) cleaned.utf8ByteSize) else
  match (chunksOfTwo (utf8 cleaned)).mapM (readByte utf8Error) with
  | .error e => .error e
  | .ok rawBytes =>
    let keyBytes := rawBytes.take keyLen
    let expectedChecksum := rawBytes.drop keyLen
    -- Thirty-six bytes were read, so that the key has its length.
    if sized : keyBytes.length = keyLen then
      if expectedChecksum = computeChecksum blake2b512 keyBytes then .ok ⟨keyBytes,sized⟩ else .error .invalidChecksum
    else .error (.invalidKeyLength keyLen keyBytes.length)

end

end ZkNote.RecoveryText
