import ZkNote.ByteOffsets
import ZkNote.TimestampGrammar

namespace ZkNote.TimestampCuts
open ByteOffsets Fallible NoteErrors Rfc3339 Instants TimestampGrammar

-- The validator with every slice cut at its byte offset and every index looked
-- up; none where one of them would panic.
def isT (c : Char) : Bool := c = 'T' || c = 't'
def isSign (c : Char) : Bool := c = '+' || c = '-'

def refuse {α : Type} (details : String) : Option (Except String α) := some (.error details)

def dateParts (date : List Char) : Option (Except String (Nat × Nat × Nat)) :=
  let parts := date.splitOn '-'
  if parts.length ≠ 3 then refuse "date must follow YYYY-MM-DD format" else do
  let y ← parts[0]?
  if !wide 4 y then refuse "year must be 4 digits" else
  match parse y with
  | none => refuse "invalid year"
  | some year =>
  if year < 1 then refuse "year must be positive" else do
  let m ← parts[1]?
  if !wide 2 m then refuse "month must be 2 digits" else
  match parse m with
  | none => refuse "invalid month"
  | some month =>
  if ¬(1 ≤ month ∧ month ≤ 12) then refuse "month must be between 01 and 12" else do
  let d ← parts[2]?
  if !wide 2 d then refuse "day must be 2 digits" else
  match parse d with
  | none => refuse "invalid day"
  | some day =>
  let maxDays := daysInMonth year month
  if day < 1 ∨ maxDays < day then refuse s!"day {day} invalid for month {month} in year {year} (max {maxDays})"
  else some (.ok (year,month,day))

def zoneParts (timeZone : List Char) : Option (Except String (List Char × List Char)) :=
  if timeZone.getLast? = some 'Z' ∨ timeZone.getLast? = some 'z' then do
    let time ← upTo timeZone (size timeZone-1)
    return .ok (time,['Z'])
  else
  match rfind isSign timeZone with
  | none => refuse "missing timezone specifier ('Z' or offset)"
  | some idx => do
    let time ← upTo timeZone idx
    let offset ← onward timeZone idx
    return .ok (time,offset)

def offsetParts (offset : List Char) : Option (Except String Unit) :=
  if offset = ['Z'] then some (.ok ()) else
  if size offset ≠ 6 then refuse "timezone offset must follow (+|-)HH:MM format" else do
  let separator ← (bytes offset)[3]?
  if separator ≠ 0x3a then refuse "timezone offset must contain ':' separator" else do
  let offHStr ← slice offset 1 3
  let offMStr ← slice offset 4 6
  if !(offHStr.all Char.isDigit && offMStr.all Char.isDigit) then refuse "timezone offset hours and minutes must be digits" else
  match parse offHStr with
  | none => refuse "invalid offset hour"
  | some offH =>
  match parse offMStr with
  | none => refuse "invalid offset minute"
  | some offM =>
  if 23 < offH ∨ 59 < offM then refuse "timezone offset out of range (max 23:59)" else some (.ok ())

-- The loop over the parts of the time: the first that is not two digits wide.
def notWide : (i : Nat) → List (List Char) → Option String
  | _,[] => none
  | i,part :: rest =>
    if !wide 2 part then
      some (match i with
        | 0 => "hour"
        | 1 => "minute"
        | _ => "second")
    else notWide (i+1) rest

def fractionParts (time : List Char) : Option (List Char × Option (List Char)) :=
  match find (· = '.') time with
  | some idx => do
    let hms ← upTo time idx
    let frac ← onward time (idx+1)
    return (hms,some frac)
  | none => some (time,none)

def timeParts (time : List Char) : Option (Except String Unit) := do
  let (hms,frac) ← fractionParts time
  let parts := hms.splitOn ':'
  if parts.length ≠ 3 then refuse "time must follow HH:MM:SS format" else
  match notWide 0 parts with
  | some partName => refuse s!"{partName} must be 2 digits"
  | none => do
  let h ← parts[0]?
  match parse h with
  | none => refuse "invalid hour"
  | some hour => do
  let m ← parts[1]?
  match parse m with
  | none => refuse "invalid minute"
  | some minute => do
  let s ← parts[2]?
  match parse s with
  | none => refuse "invalid second"
  | some second =>
  if 23 < hour then refuse "hour must be between 00 and 23" else
  if 59 < minute then refuse "minute must be between 00 and 59" else
  if 60 < second then refuse "second must be between 00 and 60" else
  match frac with
  | none => some (.ok ())
  | some frac =>
    if frac.isEmpty || !frac.all Char.isDigit then refuse "fractional seconds must consist of digits" else some (.ok ())

def parts (text : List Char) : Option (Except String Unit) :=
  if size text < 20 then refuse "timestamp string too short" else
  match find isT text with
  | none => refuse "missing 'T' separator between date and time"
  | some idx => do
    let date ← upTo text idx
    let timeZone ← onward text (idx+1)
    match ← dateParts date with
    | .error details => refuse details
    | .ok _ => do
    match ← zoneParts timeZone with
    | .error details => refuse details
    | .ok (time,offset) => do
    match ← offsetParts offset with
    | .error details => refuse details
    | .ok _ => timeParts time

def validate (field value : String) : Option (Except NoteValidationError Unit) :=
  (parts value.toList).map (fun result => result.mapError (.invalidTimestamp field value))

variable {part date time offset timeZone text front back : List Char} {c : Char}

theorem refuse_if {α : Type} {p : Prop} [Decidable p] {details : String} {cuts : Option (Except String α)} {next : Except String α}
    (rest : ¬p → cuts = some next) : (if p then refuse details else cuts) = some (if p then .error details else next) := by
  split
  · rfl
  · rename_i passes
    exact rest passes

-- Every index is taken after the length it needs was checked.
theorem date_parts (date : List Char) : dateParts date = some (parseDate date) := by
  unfold dateParts parseDate
  rcases cut : date.splitOn '-' with _ | ⟨y,_ | ⟨m,_ | ⟨d,_ | ⟨more,rest⟩⟩⟩⟩
  · rfl
  · rfl
  · rfl
  · simp only [List.length_cons,List.length_nil,Nat.zero_add,Nat.reduceAdd,ne_eq,not_true_eq_false,if_false,List.getElem?_cons_zero,
      List.getElem?_cons_succ,Option.bind_eq_bind,Option.bind_some]
    refine refuse_if (fun _ => ?_)
    cases parse y with
    | none => rfl
    | some year =>
        refine refuse_if (fun _ => refuse_if (fun _ => ?_))
        cases parse m with
        | none => rfl
        | some month =>
            refine refuse_if (fun _ => refuse_if (fun _ => ?_))
            cases parse d with
            | none => rfl
            | some day => exact refuse_if (fun _ => rfl)
  · simp only [List.length_cons,ne_eq]
    rw [if_pos (by omega)]
    rfl

theorem last_sign (text : List Char) : rfind isSign text = (lastSign text).map (fun parts => size parts.1) := by
  induction text with
  | nil => rfl
  | cons c rest ih =>
      unfold rfind lastSign
      rw [ih]
      cases lastSign rest with
      | some parts => exact congrArg some (Nat.add_comm _ _)
      | none =>
          simp only [Option.map_none,isSign,Bool.or_eq_true,decide_eq_true_eq]
          split <;> rfl

theorem zone_parts (timeZone : List Char) : zoneParts timeZone =
    some (match splitZone timeZone with | none => .error "missing timezone specifier ('Z' or offset)" | some parts => .ok parts) := by
  unfold zoneParts splitZone
  split
  · rename_i last
    obtain ⟨letter,is,one⟩ : ∃ letter, timeZone.getLast? = some letter ∧ size [letter] = 1 := by
      rcases last with last | last
      · exact ⟨'Z',last,by decide⟩
      · exact ⟨'z',last,by decide⟩
    have whole := List.dropLast_append_getLast? letter is
    have front : size timeZone-1 = size timeZone.dropLast := by
      rw [← whole,size_append,one,List.dropLast_concat]
      omega
    have time := upTo_append timeZone.dropLast [letter]
    rw [whole] at time
    rw [front,time]
    rfl
  · rw [last_sign]
    cases found : lastSign timeZone with
    | none => rfl
    | some parts =>
        obtain ⟨time,offset⟩ := parts
        obtain ⟨rfl,_⟩ := lastSign_spelled found
        simp only [Option.map_some,upTo_append,onward_append]
        rfl

theorem two_bytes (two : size part = 2) : (∃ x y, part = [x,y]) ∨ ∃ x, part = [x] ∧ x.isDigit = false := by
  rcases part with _ | ⟨x,_ | ⟨y,_ | ⟨z,rest⟩⟩⟩
  · cases two
  · right
    refine ⟨x,rfl,?_⟩
    cases digit : x.isDigit with
    | false => rfl
    | true =>
        rw [size_cons,digit_size digit] at two
        cases two
  · exact .inl ⟨x,y,rfl⟩
  · have first := x.utf8Size_pos
    have second := y.utf8Size_pos
    have third := z.utf8Size_pos
    rw [size_cons,size_cons,size_cons] at two
    omega

-- Six bytes with a colon at the fourth: the slices stand between characters.
theorem offset_cut {rest : List Char} (sign : c = '+' ∨ c = '-') (six : size (c :: rest) = 6) (colon : (bytes (c :: rest))[3]? = some 0x3a) :
    ∃ hours minutes, rest = hours ++ ':' :: minutes ∧ size hours = 2 ∧ size minutes = 2 ∧
      slice (c :: rest) 1 3 = some hours ∧ slice (c :: rest) 4 6 = some minutes := by
  have one : c.utf8Size = 1 := by rcases sign with rfl | rfl <;> decide
  obtain ⟨front,d,minutes,is,three,code⟩ := byte_at (by decide) colon
  obtain rfl : d = ':' := char_toNat code
  rcases front with _ | ⟨c',hours⟩
  · cases three
  · obtain ⟨rfl,rfl⟩ := List.cons.inj is
    have hourSize : size hours = 2 := by
      rw [size_cons,one] at three
      omega
    have minuteSize : size minutes = 2 := by
      rw [is,size_append,three,size_cons,show ':'.utf8Size = 1 by decide] at six
      omega
    have first : size [c] = 1 := one
    refine ⟨hours,minutes,rfl,hourSize,minuteSize,?_,?_⟩
    · have cut := slice_append [c] hours (':' :: minutes)
      rw [first,hourSize] at cut
      exact cut
    · have cut := slice_append (c :: hours ++ [':']) minutes []
      rw [size_append,three,show size [':'] = 1 by decide,minuteSize,List.append_nil,List.append_assoc] at cut
      exact cut

theorem char_append (front back : List Char) (c : Char) : charAtByte (front ++ c :: back) (size front) = some c := by
  induction front with
  | nil => rfl
  | cons d rest ih =>
      have positive := d.utf8Size_pos
      obtain ⟨n,is⟩ : ∃ n, size (d :: rest) = n+1 := ⟨size (d :: rest)-1,by rw [size_cons]; omega⟩
      have left : n+1-d.utf8Size = size rest := by
        rw [size_cons] at is
        omega
      rw [is,List.cons_append,charAtByte,if_pos (by rw [size_cons] at is; omega),left,ih]

theorem char_at {n : Nat} (found : charAtByte text n = some c) : ∃ front back, text = front ++ c :: back ∧ size front = n := by
  induction text generalizing n with
  | nil => cases found
  | cons d rest ih =>
      cases n with
      | zero =>
          cases found
          exact ⟨[],rest,rfl,rfl⟩
      | succ n =>
          rw [charAtByte] at found
          split at found
          · rename_i fits
            obtain ⟨front,back,rfl,width⟩ := ih found
            refine ⟨d :: front,back,rfl,?_⟩
            rw [size_cons,width]
            omega
          · cases found

-- The byte of a colon is a colon.
theorem colon_at (text : List Char) (n : Nat) : (bytes text)[n]? = some 0x3a ↔ charAtByte text n = some ':' := by
  constructor
  · intro byte
    obtain ⟨front,d,back,rfl,rfl,code⟩ := byte_at (by decide) byte
    obtain rfl : d = ':' := char_toNat code
    exact char_append front back ':'
  · intro found
    obtain ⟨front,back,rfl,rfl⟩ := char_at found
    rw [byte_append]
    rfl

theorem offset_parts {rest : List Char} (sign : c = '+' ∨ c = '-') : offsetParts (c :: rest) = some (checkOffset (c :: rest)) := by
  have other : c :: rest ≠ ['Z'] := fun utc => absurd ((List.cons.inj utc).1 ▸ sign) (by decide)
  unfold offsetParts checkOffset
  rw [if_neg other,if_neg other]
  refine refuse_if (fun six => ?_)
  have six : size (c :: rest) = 6 := not_not.mp six
  obtain ⟨separator,at3⟩ : ∃ b, (bytes (c :: rest))[3]? = some b :=
    ⟨_,List.getElem?_eq_getElem (show 3 < (bytes (c :: rest)).length by rw [bytes_length,six]; decide)⟩
  have colons := colon_at (c :: rest) 3
  rw [at3,Option.some.injEq] at colons
  rw [at3,Option.bind_eq_bind,Option.bind_some]
  by_cases colon : separator = 0x3a
  · rw [if_neg (not_not.mpr colon),if_neg (not_not.mpr (colons.mp colon))]
    obtain ⟨hours,minutes,rfl,hourSize,minuteSize,hourCut,minuteCut⟩ := offset_cut sign six (colon ▸ at3)
    rw [hourCut,minuteCut]
    rcases two_bytes hourSize with ⟨h1,h2,rfl⟩ | ⟨x,rfl,odd⟩
    · rcases two_bytes minuteSize with ⟨m1,m2,rfl⟩ | ⟨x,rfl,odd⟩
      · refine refuse_if (fun _ => ?_)
        cases parse [h1,h2] with
        | none => rfl
        | some offH =>
            cases parse [m1,m2] with
            | none => rfl
            | some offM => exact refuse_if (fun _ => rfl)
      · exact if_pos (by simp [odd])
    · rcases two_bytes minuteSize with ⟨m1,m2,rfl⟩ | ⟨y,rfl,_⟩ <;> exact if_pos (by simp [odd])
  · rw [if_pos colon,if_pos (fun is => colon (colons.mpr is))]
    rfl

theorem not_wide (h m s : List Char) : notWide 0 [h,m,s] =
    if !wide 2 h then some "hour" else if !wide 2 m then some "minute" else if !wide 2 s then some "second" else none := rfl

theorem fraction_parts (time : List Char) : fractionParts time = some (time.takeWhile (· ≠ '.'),(time.dropWhile (· ≠ '.')).tail?) := by
  have same : (fun c : Char => !decide (c = '.')) = (fun c => decide (c ≠ '.')) := by
    funext c
    simp
  unfold fractionParts
  rcases stopped : time.dropWhile (· ≠ '.') with _ | ⟨dot,frac⟩
  · have through := stopped
    rw [← same] at through
    rw [find_none through]
    have whole := List.takeWhile_append_dropWhile (p := fun c => decide (c ≠ '.')) (l := time)
    rw [stopped,List.append_nil] at whole
    rw [whole]
    rfl
  · have isDot : dot = '.' := by simpa using dropWhile_head stopped
    have found := stopped
    rw [← same] at found
    obtain ⟨hms,rest⟩ := found_cuts found
    rw [find_some found]
    rw [isDot,show '.'.utf8Size = 1 by decide] at rest
    simp only [hms,rest]
    rw [same]
    rfl

theorem time_parts (time : List Char) : timeParts time = some (checkTime time) := by
  unfold timeParts checkTime
  rw [fraction_parts]
  dsimp only [Option.bind_eq_bind,Option.bind_some]
  rcases cut : (time.takeWhile (· ≠ '.')).splitOn ':' with _ | ⟨h,_ | ⟨m,_ | ⟨s,_ | ⟨more,rest⟩⟩⟩⟩
  · rfl
  · rfl
  · rfl
  · rw [if_neg (by simp),not_wide]
    dsimp only
    by_cases hour : (!wide 2 h) = true
    · rw [if_pos hour,if_pos hour]
      rfl
    · rw [if_neg hour,if_neg hour]
      by_cases minute : (!wide 2 m) = true
      · rw [if_pos minute,if_pos minute]
        rfl
      · rw [if_neg minute,if_neg minute]
        by_cases second : (!wide 2 s) = true
        · rw [if_pos second,if_pos second]
          rfl
        · rw [if_neg second,if_neg second]
          simp only [List.getElem?_cons_zero,List.getElem?_cons_succ,Option.bind_some]
          cases parse h with
          | none => rfl
          | some hour =>
              cases parse m with
              | none => rfl
              | some minute =>
                  cases parse s with
                  | none => rfl
                  | some second =>
                      refine refuse_if (fun _ => refuse_if (fun _ => refuse_if (fun _ => ?_)))
                      cases time.dropWhile (· ≠ '.') with
                      | nil => rfl
                      | cons dot frac => exact refuse_if (fun _ => rfl)
  · rw [if_pos (by simp)]
    rfl

-- No cut and no index of the validator panics, and it answers as the one that
-- works on characters.
theorem parts_check (text : List Char) : parts text = some (check text) := by
  have same : (fun c => !isT c) = notT := by
    funext c
    simp [isT,notT]
  unfold parts check
  refine refuse_if (fun _ => ?_)
  rcases stopped : text.dropWhile notT with _ | ⟨letter,timeZone⟩
  · have through := stopped
    rw [← same] at through
    rw [find_none through]
    rfl
  · have one : letter.utf8Size = 1 := by
      have head := dropWhile_head stopped
      simp only [notT,Bool.and_eq_false_iff,decide_eq_false_iff_not,not_not] at head
      rcases head with rfl | rfl <;> decide
    have found := stopped
    rw [← same] at found
    obtain ⟨date,rest⟩ := found_cuts found
    rw [find_some found]
    rw [one] at rest
    simp only [date,rest,Option.bind_eq_bind,Option.bind_some,date_parts,zone_parts]
    rw [same]
    cases parseDate (text.takeWhile notT) with
    | error details => rfl
    | ok value =>
        cases split : splitZone timeZone with
        | none => rfl
        | some zone =>
            obtain ⟨time,offset⟩ := zone
            have offsets : offsetParts offset = some (checkOffset offset) := by
              unfold splitZone at split
              split at split
              · cases split
                rfl
              · obtain ⟨_,c,tail,rfl,sign⟩ := lastSign_spelled split
                exact offset_parts sign
            dsimp only
            rw [offsets]
            cases checked : checkOffset offset with
            | error details => rfl
            | ok done =>
                dsimp only [Option.bind_some]
                exact time_parts time

theorem validate_same (field value : String) : validate field value = some (validateRfc3339 field value) := by
  unfold validate
  rw [parts_check]
  rfl

end ZkNote.TimestampCuts
