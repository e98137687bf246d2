import ZkNote.Rfc3339

namespace ZkNote.ClockText

-- `u32` arithmetic that has no result on an overflow, as in a build that checks.
def add32 (a b : Nat) : Option Nat := if a+b < 2^32 then some (a+b) else none
def sub32 (a b : Nat) : Option Nat := if b ≤ a then some (a-b) else none
def mul32 (a b : Nat) : Option Nat := if a*b < 2^32 then some (a*b) else none

-- The `as` casts, which keep the low 32 bits.
def toU32 (n : Int) : Nat := (n % 2^32).toNat
def toI32 (n : Int) : Int := n.bmod (2^32)

def yearOfEra (doe : Nat) : Option Nat := do
  let a ← sub32 doe (doe/1460)
  let b ← add32 a (doe/36524)
  let c ← sub32 b (doe/146096)
  some (c/365)

def dayOfYear (doe yoe : Nat) : Option Nat := do
  let a ← mul32 365 yoe
  let b ← add32 a (yoe/4)
  let c ← sub32 b (yoe/100)
  sub32 doe c

def monthPlace (doy : Nat) : Option Nat := do
  let a ← mul32 5 doy
  let b ← add32 a 2
  some (b/153)

def dayOfMonth (doy mp : Nat) : Option Nat := do
  let a ← mul32 153 mp
  let b ← add32 a 2
  let c ← sub32 doy (b/5)
  add32 c 1

def monthOf (mp : Nat) : Option Nat := if mp < 10 then add32 mp 3 else sub32 mp 9

def yearOf (m : Nat) (y : Int) : Option Int :=
  if m ≤ 2 then (if y+1 < 2^31 then some (y+1) else none) else some y

-- Days since 1970-01-01 to the date, with eras of 400 years from the first of March.
def daysToYmd (days : Int) : Option (Int × Nat × Nat) := do
  let z := days+719468
  let era := (if 0 ≤ z then z else z-146096).tdiv 146097
  let doe := toU32 (z-era*146097)
  let yoe ← yearOfEra doe
  let y := toI32 (yoe+era*400)
  let doy ← dayOfYear doe yoe
  let mp ← monthPlace doy
  let d ← dayOfMonth doy mp
  let m ← monthOf mp
  let year ← yearOf m y
  some (year,m,d)

-- `{:0width}`; the sign of a number counts as one of its places.
def padded (width n : Nat) : List Char := List.replicate (width-(Nat.toDigits 10 n).length) '0' ++ Nat.toDigits 10 n

def paddedYear (year : Int) : List Char := if 0 ≤ year then padded 4 year.toNat else '-' :: padded 3 year.natAbs

def formatRfc3339Parts (totalSecs millis : Nat) : Option String := do
  let days := totalSecs/86400
  let daySecs := totalSecs%86400
  let ymd ← daysToYmd days
  let hour := daySecs/3600
  let min := daySecs%3600/60
  let sec := daySecs%60
  some (String.ofList (paddedYear ymd.1 ++ '-' :: (padded 2 ymd.2.1 ++ '-' :: (padded 2 ymd.2.2 ++ 'T' ::
    (padded 2 hour ++ ':' :: (padded 2 min ++ ':' :: (padded 2 sec ++ '.' :: (padded 3 millis ++ ['Z']))))))))

end ZkNote.ClockText
