import ZkNote.Fallible
import ZkNote.Instants
namespace ZkNote.TimestampGrammar
open Fallible Rfc3339 Instants

variable {part date time offset timeZone text : List Char}

theorem digits_bytes (all : ∀ c ∈ part, c.isDigit) : byteLen part = part.length := by
  induction part with
  | nil => rfl
  | cons c rest ih =>
      have low := ih (fun d inside => all d (List.mem_cons_of_mem c inside))
      unfold byteLen at low ⊢
      rw [List.map_cons,List.sum_cons,low,digit_size (all c List.mem_cons_self),List.length_cons]
      omega

theorem wide_digits {n : Nat} (is : wide n part = true) : Digits n part := by
  simp only [wide,Bool.and_eq_true,decide_eq_true_eq,List.all_eq_true] at is
  exact ⟨(digits_bytes is.2).symm.trans is.1,is.2⟩

theorem parse_value {value : Nat} (parsed : parse part = some value) : value = number part := by
  unfold parse at parsed
  split at parsed
  · exact (Option.some.inj parsed).symm
  · cases parsed

theorem split_three {sep : Char} {x y z : List Char} (cut : part.splitOn sep = [x,y,z]) : part = x ++ sep :: (y ++ sep :: z) := by
  have whole : [sep].intercalate (part.splitOn sep) = part := List.intercalate_splitOn sep
  rw [cut] at whole
  rw [← whole]
  simp [List.intercalate]

-- A number that was read.
theorem readNumber {α : Type} {details : String} {next : Nat → Except String α} {value : α}
    (ok : (match parse part with | none => Except.error details | some n => next n) = .ok value) : next (number part) = .ok value := by
  split at ok
  · cases ok
  · rename_i n parsed
    rwa [parse_value parsed] at ok

theorem wide_passed {n : Nat} (fails : ¬(!wide n part) = true) : Digits n part :=
  wide_digits (by simpa using fails)

theorem date_spelled {value : Nat × Nat × Nat} (ok : parseDate date = .ok value) :
    ∃ y m d, date = y ++ '-' :: (m ++ '-' :: d) ∧ (Digits 4 y ∧ 1 ≤ number y) ∧ (Digits 2 m ∧ 1 ≤ number m ∧ number m ≤ 12) ∧
      (Digits 2 d ∧ 1 ≤ number d ∧ number d ≤ daysInMonth (number y) (number m)) := by
  unfold parseDate at ok
  split at ok
  · rename_i y m d cut
    obtain ⟨yWide,ok⟩ := passed ok
    have ok := readNumber ok
    obtain ⟨positive,ok⟩ := passed ok
    obtain ⟨mWide,ok⟩ := passed ok
    have ok := readNumber ok
    obtain ⟨range,ok⟩ := passed ok
    obtain ⟨dWide,ok⟩ := passed ok
    have ok := readNumber ok
    obtain ⟨fits,ok⟩ := passed ok
    exact ⟨y,m,d,split_three cut,⟨wide_passed yWide,by omega⟩,⟨wide_passed mWide,by omega,by omega⟩,
      ⟨wide_passed dWide,by omega,by omega⟩⟩
  · cases ok

theorem lastSign_spelled {front back : List Char} (found : lastSign part = some (front,back)) :
    part = front ++ back ∧ ∃ c rest, back = c :: rest ∧ (c = '+' ∨ c = '-') := by
  induction part generalizing front with
  | nil => cases found
  | cons c rest ih =>
      unfold lastSign at found
      split at found
      · rename_i inner outer deeper
        obtain ⟨rfl,rfl⟩ := Prod.mk.inj (Option.some.inj found)
        obtain ⟨same,sign⟩ := ih deeper
        exact ⟨by rw [same]; rfl,sign⟩
      · split at found
        · rename_i sign
          obtain ⟨rfl,rfl⟩ := Prod.mk.inj (Option.some.inj found)
          exact ⟨rfl,c,rest,rfl,sign⟩
        · cases found

theorem offset_spelled {c : Char} {rest : List Char} (sign : c = '+' ∨ c = '-') (ok : checkOffset (c :: rest) = .ok ()) :
    ∃ zone : Zone, zone.Fit ∧ c :: rest = zone.text := by
  unfold checkOffset at ok
  rw [if_neg (fun utc => absurd ((List.cons.inj utc).1 ▸ sign) (by decide))] at ok
  obtain ⟨colon,cut⟩ := passed (passed ok).2
  split at cut
  · rename_i _ h1 h2 colonChar m1 m2 same
    obtain ⟨rfl,rfl⟩ := List.cons.inj same
    obtain ⟨digits,read⟩ := passed cut
    obtain ⟨⟨d1,d2⟩,d3,d4⟩ : (h1.isDigit ∧ h2.isDigit) ∧ m1.isDigit ∧ m2.isDigit := by simpa using digits
    split at read
    · cases read
    · cases read
    · rename_i offH offM hParsed mParsed
      obtain ⟨range,_⟩ := passed read
      rw [parse_value hParsed,parse_value mParsed] at range
      have at3 : charAtByte (c :: h1 :: h2 :: colonChar :: [m1,m2]) 3 = some colonChar := by
        have one : c.utf8Size = 1 := by rcases sign with rfl | rfl <;> decide
        simp [charAtByte,one,digit_size d1,digit_size d2]
      rw [not_not,at3] at colon
      obtain rfl := Option.some.inj colon
      have fit : (Zone.offset (c = '-') [h1,h2] [m1,m2]).Fit :=
        ⟨⟨rfl,by simp [d1,d2]⟩,⟨rfl,by simp [d3,d4]⟩,by omega,by omega⟩
      refine ⟨_,fit,?_⟩
      rcases sign with rfl | rfl <;> rfl
  · cases cut

theorem zone_spelled (split : splitZone timeZone = some (time,offset)) (ok : checkOffset offset = .ok ()) :
    ∃ zone : Zone, zone.Fit ∧ timeZone = time ++ zone.text := by
  unfold splitZone at split
  split at split
  · rename_i last
    obtain ⟨rfl,rfl⟩ := Prod.mk.inj (Option.some.inj split)
    rcases last with last | last
    · exact ⟨.utc false,trivial,(List.dropLast_append_getLast? _ last).symm⟩
    · exact ⟨.utc true,trivial,(List.dropLast_append_getLast? _ last).symm⟩
  · obtain ⟨same,c,rest,rfl,sign⟩ := lastSign_spelled split
    obtain ⟨zone,fit,spelled⟩ := offset_spelled sign ok
    exact ⟨zone,fit,by rw [same,spelled]⟩

-- What `find` stops at.
theorem dropWhile_head {p : Char → Bool} {c : Char} {rest : List Char} (stopped : part.dropWhile p = c :: rest) : p c = false := by
  have head := List.head_dropWhile_not (p := p) (l := part) (by rw [stopped]; simp)
  simpa [stopped] using head

theorem time_spelled (ok : checkTime time = .ok ()) :
    ∃ h m s f, time = h ++ ':' :: (m ++ ':' :: (s ++ (if f = [] then [] else '.' :: f))) ∧ (Digits 2 h ∧ number h ≤ 23) ∧
      (Digits 2 m ∧ number m ≤ 59) ∧ (Digits 2 s ∧ number s ≤ 60) ∧ ∀ c ∈ f, c.isDigit := by
  have whole := List.takeWhile_append_dropWhile (p := fun c => decide (c ≠ '.')) (l := time)
  unfold checkTime at ok
  split at ok
  · rename_i h m s cut
    rw [split_three cut] at whole
    obtain ⟨hWide,ok⟩ := passed ok
    obtain ⟨mWide,ok⟩ := passed ok
    obtain ⟨sWide,ok⟩ := passed ok
    split at ok
    · cases ok
    · cases ok
    · cases ok
    · rename_i hour minute second hParsed mParsed sParsed
      rw [parse_value hParsed,parse_value mParsed,parse_value sParsed] at ok
      obtain ⟨hourFit,ok⟩ := passed ok
      obtain ⟨minuteFit,ok⟩ := passed ok
      obtain ⟨secondFit,ok⟩ := passed ok
      split at ok
      · rename_i none
        refine ⟨h,m,s,[],?_,⟨wide_passed hWide,by omega⟩,⟨wide_passed mWide,by omega⟩,⟨wide_passed sWide,by omega⟩,by simp⟩
        rw [← whole,none]
        simp
      · rename_i dot frac some
        obtain ⟨digits,_⟩ := passed ok
        have digits : frac ≠ [] ∧ ∀ c ∈ frac, c.isDigit := by simpa using digits
        refine ⟨h,m,s,frac,?_,⟨wide_passed hWide,by omega⟩,⟨wide_passed mWide,by omega⟩,⟨wide_passed sWide,by omega⟩,digits.2⟩
        have isDot : dot = '.' := by simpa using dropWhile_head some
        rw [← whole,some,if_neg digits.1,isDot]
        simp
  · cases ok

-- What the validator accepts is a stamp of the grammar.
theorem validated_spelled {field value : String} (ok : validateRfc3339 field value = .ok ()) : ∃ stamp, Spells stamp value := by
  unfold validateRfc3339 at ok
  have ok : check value.toList = .ok () := by
    cases checked : check value.toList with
    | ok u => rfl
    | error e =>
        rw [checked] at ok
        cases ok
  have whole := List.takeWhile_append_dropWhile (p := notT) (l := value.toList)
  unfold check at ok
  obtain ⟨_,ok⟩ := passed ok
  split at ok
  · cases ok
  · rename_i letter timeZone rest
    split at ok
    · cases ok
    · rename_i dated
      split at ok
      · cases ok
      · rename_i time offset split
        split at ok
        · cases ok
        · rename_i zoned
          obtain ⟨y,m,d,dateIs,yFit,mFit,dFit⟩ := date_spelled dated
          obtain ⟨zone,zoneFit,zoneIs⟩ := zone_spelled split zoned
          obtain ⟨h,mi,s,f,timeIs,hFit,miFit,sFit,fFit⟩ := time_spelled ok
          have letterIs : letter = if decide (letter = 't') then 't' else 'T' := by
            have stopped := dropWhile_head rest
            simp only [notT,Bool.and_eq_false_iff,decide_eq_false_iff_not,not_not] at stopped
            rcases stopped with rfl | rfl <;> rfl
          refine ⟨⟨y,m,d,decide (letter = 't'),h,mi,s,f,zone,yFit,mFit,dFit,hFit,miFit,sFit,fFit,zoneFit⟩,?_⟩
          unfold Spells Stamp.text Stamp.tail
          rw [← whole,rest,dateIs,zoneIs,timeIs,← letterIs]
          simp
end ZkNote.TimestampGrammar
