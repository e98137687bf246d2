import Mathlib.Data.Rat.Cast.Order
import Mathlib.Data.Prod.Lex
import Mathlib.Tactic.Linarith
import Mathlib.Tactic.Positivity
import ZkNote.NoteErrors

namespace ZkNote.Rfc3339
open NoteErrors

-- Lengths are in bytes; every place where the source cuts a string is at an
-- ASCII character, so the cuts are made on the list of characters.
def byteLen (part : List Char) : Nat := (part.map Char.utf8Size).sum

def number (part : List Char) : Nat := part.foldl (fun n c => 10*n+(c.toNat - '0'.toNat)) 0

def parse (part : List Char) : Option Nat := if part ≠ [] ∧ part.all Char.isDigit then some (number part) else none

def wide (n : Nat) (part : List Char) : Bool := byteLen part = n && part.all Char.isDigit

def isLeapYear (year : Nat) : Bool := (year % 4 = 0 && year % 100 ≠ 0) || year % 400 = 0

def daysInMonth (year month : Nat) : Nat :=
  match month with
  | 1 | 3 | 5 | 7 | 8 | 10 | 12 => 31
  | 4 | 6 | 9 | 11 => 30
  | 2 => if isLeapYear year then 29 else 28
  | _ => 0

def parseDate (date : List Char) : Except String (Nat × Nat × Nat) :=
  match date.splitOn '-' with
  | [y,m,d] =>
    if !wide 4 y then .error "year must be 4 digits" else
    match parse y with
    | none => .error "invalid year"
    | some year =>
    if year < 1 then .error "year must be positive" else
    if !wide 2 m then .error "month must be 2 digits" else
    match parse m with
    | none => .error "invalid month"
    | some month =>
    if ¬(1 ≤ month ∧ month ≤ 12) then .error "month must be between 01 and 12" else
    if !wide 2 d then .error "day must be 2 digits" else
    match parse d with
    | none => .error "invalid day"
    | some day =>
    let maxDays := daysInMonth year month
    if day < 1 ∨ maxDays < day then .error s!"day {day} invalid for month {month} in year {year} (max {maxDays})"
    else .ok (year,month,day)
  | _ => .error "date must follow YYYY-MM-DD format"

-- `rfind(['+', '-'])`: the text before the last sign, and the text from it.
def lastSign : List Char → Option (List Char × List Char)
  | [] => none
  | c :: rest =>
    match lastSign rest with
    | some (front,back) => some (c :: front,back)
    | none => if c = '+' ∨ c = '-' then some ([],c :: rest) else none

def splitZone (timeZone : List Char) : Option (List Char × List Char) :=
  if timeZone.getLast? = some 'Z' ∨ timeZone.getLast? = some 'z' then some (timeZone.dropLast,['Z'])
  else lastSign timeZone

-- The character that starts at a byte position.
def charAtByte : List Char → Nat → Option Char
  | [],_ => none
  | c :: _,0 => some c
  | c :: rest,n+1 => if c.utf8Size ≤ n+1 then charAtByte rest (n+1-c.utf8Size) else none

def checkOffset (offset : List Char) : Except String Unit :=
  if offset = ['Z'] then .ok () else
  if byteLen offset ≠ 6 then .error "timezone offset must follow (+|-)HH:MM format" else
  if charAtByte offset 3 ≠ some ':' then .error "timezone offset must contain ':' separator" else
  match offset with
  | [_,h1,h2,_,m1,m2] =>
    if !([h1,h2].all Char.isDigit && [m1,m2].all Char.isDigit) then .error "timezone offset hours and minutes must be digits" else
    match parse [h1,h2],parse [m1,m2] with
    | none,_ => .error "invalid offset hour"
    | _,none => .error "invalid offset minute"
    | some offH,some offM =>
      if 23 < offH ∨ 59 < offM then .error "timezone offset out of range (max 23:59)" else .ok ()
  -- Fewer characters in six bytes: one of the two slices is not ASCII.
  | _ => .error "timezone offset hours and minutes must be digits"

def checkTime (time : List Char) : Except String Unit :=
  match (time.takeWhile (· ≠ '.')).splitOn ':' with
  | [h,m,s] =>
    if !wide 2 h then .error "hour must be 2 digits" else
    if !wide 2 m then .error "minute must be 2 digits" else
    if !wide 2 s then .error "second must be 2 digits" else
    match parse h,parse m,parse s with
    | none,_,_ => .error "invalid hour"
    | _,none,_ => .error "invalid minute"
    | _,_,none => .error "invalid second"
    | some hour,some minute,some second =>
      if 23 < hour then .error "hour must be between 00 and 23" else
      if 59 < minute then .error "minute must be between 00 and 59" else
      if 60 < second then .error "second must be between 00 and 60" else
      match time.dropWhile (· ≠ '.') with
      | [] => .ok ()
      | _ :: frac =>
        if frac.isEmpty || !frac.all Char.isDigit then .error "fractional seconds must consist of digits" else .ok ()
  | _ => .error "time must follow HH:MM:SS format"

def notT (c : Char) : Bool := c ≠ 'T' && c ≠ 't'

def check (text : List Char) : Except String Unit :=
  if byteLen text < 20 then .error "timestamp string too short" else
  match text.dropWhile notT with
  | [] => .error "missing 'T' separator between date and time"
  | _ :: timeZone =>
    match parseDate (text.takeWhile notT) with
    | .error details => .error details
    | .ok _ =>
      match splitZone timeZone with
      | none => .error "missing timezone specifier ('Z' or offset)"
      | some (time,offset) =>
        match checkOffset offset with
        | .error details => .error details
        | .ok _ => checkTime time

def validateRfc3339 (field value : String) : Except NoteValidationError Unit :=
  (check value.toList).mapError (.invalidTimestamp field value)

end ZkNote.Rfc3339
