import Mathlib.Tactic.IntervalCases
import ZkNote.TimestampCuts

namespace ZkNote.TimestampAcceptance
open Fallible Rfc3339 Instants TimestampGrammar

-- The calendar and the grammar, said without the validator.
def Leap (year : Nat) : Prop := 4 ∣ year ∧ (100 ∣ year → 400 ∣ year)

def monthLengths : List Nat := [31,28,31,30,31,30,31,31,30,31,30,31]

structure InCalendar (y m d : Nat) : Prop where
  firstYear : 1 ≤ y
  firstMonth : 1 ≤ m
  firstDay : 1 ≤ d
  lastDay : ∃ days, monthLengths[m-1]? = some days ∧ (d ≤ days ∨ m = 2 ∧ Leap y ∧ d = 29)

def FractionText (text : List Char) : Prop :=
  text = [] ∨ ∃ digits, text = '.' :: digits ∧ digits ≠ [] ∧ ∀ c ∈ digits, c.isDigit

def ZoneText (text : List Char) : Prop :=
  text = ['Z'] ∨ text = ['z'] ∨ ∃ sign hours minutes, text = sign :: (hours ++ ':' :: minutes) ∧ (sign = '+' ∨ sign = '-') ∧
    Digits 2 hours ∧ Digits 2 minutes ∧ number hours ≤ 23 ∧ number minutes ≤ 59

def dateText (y m d : List Char) : List Char := y ++ '-' :: (m ++ '-' :: d)

def clockText (h mi s : List Char) : List Char := h ++ ':' :: (mi ++ ':' :: s)

structure Spelled (y m d h mi s fraction zone : List Char) (letter : Char) : Prop where
  date : Digits 4 y ∧ Digits 2 m ∧ Digits 2 d ∧ InCalendar (number y) (number m) (number d)
  letter : letter = 'T' ∨ letter = 't'
  hour : Digits 2 h ∧ number h ≤ 23
  minute : Digits 2 mi ∧ number mi ≤ 59
  second : Digits 2 s ∧ number s ≤ 60
  fraction : FractionText fraction
  zone : ZoneText zone

def InGrammar (value : String) : Prop :=
  ∃ y m d h mi s fraction zone letter, Spelled y m d h mi s fraction zone letter ∧
    value.toList = dateText y m d ++ letter :: (clockText h mi s ++ fraction ++ zone)

variable {y m d h mi s fraction zone part front back : List Char} {letter c : Char}

theorem leap_year (year : Nat) : isLeapYear year = true ↔ Leap year := by
  simp only [isLeapYear,Leap,Bool.or_eq_true,Bool.and_eq_true,decide_eq_true_eq]
  omega

theorem month_days (year month day : Nat) : (month ≤ 12 ∧ day ≤ daysInMonth year month) ∧ 1 ≤ month ↔
    1 ≤ month ∧ ∃ days, monthLengths[month-1]? = some days ∧ (day ≤ days ∨ month = 2 ∧ Leap year ∧ day = 29) := by
  rw [← leap_year]
  by_cases small : 1 ≤ month ∧ month ≤ 12
  · obtain ⟨low,high⟩ := small
    interval_cases month <;> simp [monthLengths,daysInMonth]
    split
    · simp [*]
      omega
    · simp [*]
  · have outside : 1 ≤ month → monthLengths[month-1]? = none := fun low =>
      List.getElem?_eq_none (by simp only [monthLengths,List.length_cons,List.length_nil]; omega)
    constructor
    · rintro ⟨⟨high,_⟩,low⟩
      exact absurd ⟨low,high⟩ small
    · rintro ⟨low,days,is,_⟩
      rw [outside low] at is
      cases is

theorem apart_of_digits {n : Nat} {sep : Char} (other : sep.isDigit = false) (digits : Digits n part) : sep ∉ part := by
  intro inside
  have digit := digits.all sep inside
  rw [other] at digit
  cases digit

theorem wide_of_digits {n : Nat} (digits : Digits n part) : wide n part = true := by
  unfold wide
  rw [digits_bytes digits.all,digits.length,Bool.and_eq_true,List.all_eq_true]
  exact ⟨decide_eq_true rfl,digits.all⟩

theorem parse_of_digits {n : Nat} (digits : Digits (n+1) part) : parse part = some (number part) := by
  unfold parse
  rw [if_pos]
  refine ⟨?_,List.all_eq_true.mpr digits.all⟩
  rintro rfl
  exact absurd digits.length (by simp)

theorem split_of_three {sep : Char} {x y z : List Char} (apartX : sep ∉ x) (apartY : sep ∉ y) (apartZ : sep ∉ z) :
    (x ++ sep :: (y ++ sep :: z)).splitOn sep = [x,y,z] := by
  rw [List.splitOn_append_cons_self_of_not_mem apartX,List.splitOn_append_cons_self_of_not_mem apartY,List.splitOn_eq_singleton apartZ]

theorem date_accepted (yFit : Digits 4 y) (mFit : Digits 2 m) (dFit : Digits 2 d) (date : InCalendar (number y) (number m) (number d)) :
    parseDate (dateText y m d) = .ok (number y,number m,number d) := by
  have dash : ∀ {n part}, Digits n part → '-' ∉ part := fun digits => apart_of_digits (by decide) digits
  obtain ⟨⟨lastMonth,lastDay⟩,_⟩ := (month_days (number y) (number m) (number d)).mpr ⟨date.firstMonth,date.lastDay⟩
  have firstYear := date.firstYear
  have firstMonth := date.firstMonth
  have firstDay := date.firstDay
  unfold parseDate dateText
  rw [split_of_three (dash yFit) (dash mFit) (dash dFit)]
  simp only [wide_of_digits yFit,wide_of_digits mFit,wide_of_digits dFit,parse_of_digits yFit,parse_of_digits mFit,parse_of_digits dFit,
    Bool.not_true,Bool.false_eq_true,if_false]
  rw [if_neg (by omega),if_neg (by omega),if_neg (by omega)]

theorem last_sign_plain (plain : ∀ c ∈ back, c ≠ '+' ∧ c ≠ '-') : lastSign back = none := by
  induction back with
  | nil => rfl
  | cons c rest ih =>
      have here := plain c List.mem_cons_self
      rw [lastSign,ih (fun d inside => plain d (List.mem_cons_of_mem c inside))]
      exact if_neg (by tauto)

theorem last_sign_append (sign : c = '+' ∨ c = '-') (plain : ∀ d ∈ back, d ≠ '+' ∧ d ≠ '-') :
    lastSign (front ++ c :: back) = some (front,c :: back) := by
  induction front with
  | nil =>
      rw [List.nil_append,lastSign,last_sign_plain plain]
      exact if_pos sign
  | cons d rest ih =>
      rw [List.cons_append,lastSign,ih]

theorem offset_accepted {hours minutes : List Char} (sign : c = '+' ∨ c = '-') (hFit : Digits 2 hours) (mFit : Digits 2 minutes)
    (hLast : number hours ≤ 23) (mLast : number minutes ≤ 59) : checkOffset (c :: (hours ++ ':' :: minutes)) = .ok () := by
  obtain ⟨h1,h2,rfl⟩ := List.length_eq_two.mp hFit.length
  obtain ⟨m1,m2,rfl⟩ := List.length_eq_two.mp mFit.length
  have one : c.utf8Size = 1 := by rcases sign with rfl | rfl <;> decide
  have size1 : h1.utf8Size = 1 := digit_size (hFit.all h1 (by simp))
  have size2 : h2.utf8Size = 1 := digit_size (hFit.all h2 (by simp))
  have size3 : m1.utf8Size = 1 := digit_size (mFit.all m1 (by simp))
  have size4 : m2.utf8Size = 1 := digit_size (mFit.all m2 (by simp))
  have colon : ':'.utf8Size = 1 := by decide
  have six : byteLen (c :: ([h1,h2] ++ ':' :: [m1,m2])) = 6 := by simp [byteLen,one,size1,size2,size3,size4,colon]
  have at3 : charAtByte (c :: ([h1,h2] ++ ':' :: [m1,m2])) 3 = some ':' := by simp [charAtByte,one,size1,size2]
  have hAll : [h1,h2].all Char.isDigit = true := List.all_eq_true.mpr hFit.all
  have mAll : [m1,m2].all Char.isDigit = true := List.all_eq_true.mpr mFit.all
  unfold checkOffset
  rw [if_neg (fun utc => absurd ((List.cons.inj utc).1 ▸ sign) (by decide)),six,at3,if_neg (by simp),if_neg (by simp)]
  dsimp only [List.cons_append,List.nil_append]
  rw [hAll,mAll,parse_of_digits hFit,parse_of_digits mFit]
  dsimp only
  rw [if_neg (by simp),if_neg (by omega)]

theorem zone_accepted (time : List Char) (fit : ZoneText zone) : ∃ offset, splitZone (time ++ zone) = some (time,offset) ∧ checkOffset offset = .ok () := by
  unfold splitZone
  rcases fit with rfl | rfl | ⟨c,hours,minutes,rfl,sign,hFit,mFit,hLast,mLast⟩
  · refine ⟨['Z'],?_,rfl⟩
    rw [if_pos (.inl (by simp)),List.dropLast_concat]
  · refine ⟨['Z'],?_,rfl⟩
    rw [if_pos (.inr (by simp)),List.dropLast_concat]
  · refine ⟨_,?_,offset_accepted sign hFit mFit hLast mLast⟩
    obtain ⟨m1,m2,rfl⟩ := List.length_eq_two.mp mFit.length
    have digit : m2.isDigit := mFit.all m2 (by simp)
    have last : (time ++ c :: (hours ++ ':' :: [m1,m2])).getLast? = some m2 := by
      rw [show time ++ c :: (hours ++ ':' :: [m1,m2]) = (time ++ c :: (hours ++ [':',m1])) ++ [m2] by simp]
      exact List.getLast?_concat
    rw [last,if_neg]
    · refine last_sign_append sign (fun d inside => ?_)
      have plain : d.isDigit = true ∨ d = ':' := by
        rcases List.mem_append.mp inside with hour | minute
        · exact .inl (hFit.all d hour)
        · rcases List.mem_cons.mp minute with colon | minute
          · exact .inr colon
          · exact .inl (mFit.all d minute)
      constructor <;> (rintro rfl; revert plain; decide)
    · rintro (letter | letter) <;> (cases letter; revert digit; decide)

theorem plain_of_digits {n : Nat} (digits : Digits n part) : ∀ c ∈ part, c ≠ '.' ∧ notT c = true := by
  intro c inside
  have digit := digits.all c inside
  constructor
  · rintro rfl
    revert digit
    decide
  · unfold notT
    rw [Bool.and_eq_true,decide_eq_true_eq,decide_eq_true_eq]
    constructor <;> (rintro rfl; revert digit; decide)

theorem clock_plain (hFit : Digits 2 h) (miFit : Digits 2 mi) (sFit : Digits 2 s) : ∀ c ∈ clockText h mi s, c ≠ '.' := by
  intro c inside
  unfold clockText at inside
  simp only [List.mem_append,List.mem_cons] at inside
  rcases inside with hour | rfl | minute | rfl | second
  · exact (plain_of_digits hFit c hour).1
  · decide
  · exact (plain_of_digits miFit c minute).1
  · decide
  · exact (plain_of_digits sFit c second).1

theorem time_accepted (hFit : Digits 2 h ∧ number h ≤ 23) (miFit : Digits 2 mi ∧ number mi ≤ 59) (sFit : Digits 2 s ∧ number s ≤ 60)
    (fFit : FractionText fraction) : checkTime (clockText h mi s ++ fraction) = .ok () := by
  have colon : ∀ {n part}, Digits n part → ':' ∉ part := fun digits => apart_of_digits (by decide) digits
  have clock : ∀ c ∈ clockText h mi s, decide (c ≠ '.') = true := fun c inside =>
    decide_eq_true (clock_plain hFit.1 miFit.1 sFit.1 c inside)
  -- The fraction is what `find('.')` stops at.
  have stop : fraction.takeWhile (fun c => decide (c ≠ '.')) = [] ∧ fraction.dropWhile (fun c => decide (c ≠ '.')) = fraction := by
    rcases fFit with rfl | ⟨digits,rfl,_⟩
    · exact ⟨rfl,rfl⟩
    · exact ⟨List.takeWhile_cons_of_neg (by simp),List.dropWhile_cons_of_neg (by simp)⟩
  unfold checkTime
  rw [List.takeWhile_append_of_pos clock,List.dropWhile_append_of_pos clock,stop.1,stop.2,List.append_nil]
  unfold clockText
  rw [split_of_three (colon hFit.1) (colon miFit.1) (colon sFit.1)]
  simp only [wide_of_digits hFit.1,wide_of_digits miFit.1,wide_of_digits sFit.1,parse_of_digits hFit.1,parse_of_digits miFit.1,
    parse_of_digits sFit.1,Bool.not_true,Bool.false_eq_true,if_false]
  rw [if_neg (by omega),if_neg (by omega),if_neg (by omega)]
  rcases fFit with rfl | ⟨digits,rfl,some_,all⟩
  · rfl
  · exact if_neg (by simpa [some_] using all)

theorem date_plain (yFit : Digits 4 y) (mFit : Digits 2 m) (dFit : Digits 2 d) : ∀ c ∈ dateText y m d, notT c = true := by
  intro c inside
  unfold dateText at inside
  simp only [List.mem_append,List.mem_cons] at inside
  rcases inside with year | rfl | month | rfl | day
  · exact (plain_of_digits yFit c year).2
  · decide
  · exact (plain_of_digits mFit c month).2
  · decide
  · exact (plain_of_digits dFit c day).2

theorem zone_bytes (fit : ZoneText zone) : 1 ≤ byteLen zone := by
  rcases fit with rfl | rfl | ⟨c,hours,minutes,rfl,_⟩
  · decide
  · decide
  · unfold byteLen
    rw [List.map_cons,List.sum_cons]
    have positive := c.utf8Size_pos
    omega

theorem bytes_append (front back : List Char) : byteLen (front ++ back) = byteLen front+byteLen back := ByteOffsets.size_append front back

theorem bytes_cons (c : Char) (rest : List Char) : byteLen (c :: rest) = c.utf8Size+byteLen rest := ByteOffsets.size_cons c rest

theorem long_enough (fit : Spelled y m d h mi s fraction zone letter) :
    20 ≤ byteLen (dateText y m d ++ letter :: (clockText h mi s ++ fraction ++ zone)) := by
  obtain ⟨yFit,mFit,dFit,_⟩ := fit.date
  have sized : ∀ {n part}, Digits n part → byteLen part = n := fun digits => (digits_bytes digits.all).trans digits.length
  have last := zone_bytes fit.zone
  have dash : '-'.utf8Size = 1 := by decide
  have colon : ':'.utf8Size = 1 := by decide
  have positive := letter.utf8Size_pos
  simp only [dateText,clockText,bytes_append,bytes_cons,sized yFit,sized mFit,sized dFit,sized fit.hour.1,sized fit.minute.1,sized fit.second.1,
    dash,colon]
  omega

theorem check_accepted (fit : Spelled y m d h mi s fraction zone letter) :
    check (dateText y m d ++ letter :: (clockText h mi s ++ fraction ++ zone)) = .ok () := by
  obtain ⟨yFit,mFit,dFit,date⟩ := fit.date
  have plain := date_plain yFit mFit dFit
  have stop : notT letter = false := by
    rcases fit.letter with rfl | rfl <;> decide
  obtain ⟨offset,split,offsets⟩ := zone_accepted (clockText h mi s ++ fraction) fit.zone
  have long := long_enough fit
  unfold check
  rw [if_neg (by omega),List.dropWhile_append_of_pos plain,List.dropWhile_cons_of_neg (by simp [stop]),List.takeWhile_append_of_pos plain,
    List.takeWhile_cons_of_neg (by simp [stop]),List.append_nil]
  dsimp only
  rw [date_accepted yFit mFit dFit date]
  dsimp only
  rw [split]
  dsimp only
  rw [offsets]
  exact time_accepted fit.hour fit.minute fit.second fit.fraction

-- A stamp of the validator's own parts is one of the grammar.
theorem stamp_grammar {stamp : Stamp} {value : String} (spells : Spells stamp value) : InGrammar value := by
  obtain ⟨y,m,d,smallT,h,mi,s,f,zone,yFit,mFit,dFit,hFit,miFit,sFit,fFit,zoneFit⟩ := stamp
  have last := (month_days (number y) (number m) (number d)).mp ⟨⟨mFit.2.2,dFit.2.2⟩,mFit.2.1⟩
  have fraction : FractionText (if f = [] then [] else '.' :: f) := by
    split
    · exact .inl rfl
    · rename_i some_
      exact .inr ⟨f,rfl,some_,fFit⟩
  have zoned : ZoneText zone.text := by
    cases zone with
    | utc small => cases small <;> simp [ZoneText,Zone.text]
    | offset west hours minutes =>
        obtain ⟨hours,minutes,hLast,mLast⟩ := zoneFit
        refine .inr (.inr ⟨_,_,_,rfl,?_,hours,minutes,hLast,mLast⟩)
        cases west <;> decide
  refine ⟨y,m,d,h,mi,s,_,_,if smallT then 't' else 'T',
    ⟨⟨yFit.1,mFit.1,dFit.1,yFit.2,mFit.2.1,dFit.2.1,last.2⟩,?_,hFit,miFit,sFit,fraction,zoned⟩,?_⟩
  · cases smallT <;> decide
  · rw [show value.toList = _ from spells]
    simp [Stamp.text,Stamp.tail,dateText,clockText]

theorem validated_iff (field value : String) : validateRfc3339 field value = .ok () ↔ InGrammar value := by
  constructor
  · intro ok
    obtain ⟨stamp,spells⟩ := validated_spelled ok
    exact stamp_grammar spells
  · rintro ⟨y,m,d,h,mi,s,fraction,zone,letter,fit,spelled⟩
    unfold validateRfc3339
    rw [spelled,check_accepted fit]
    rfl

-- The validator returns on every text, and accepts just the grammar.
theorem grammar_accepted (field value : String) :
    (TimestampCuts.validate field value).isSome = true ∧ (TimestampCuts.validate field value = some (.ok ()) ↔ InGrammar value) := by
  rw [TimestampCuts.validate_same]
  exact ⟨rfl,Option.some_inj.trans (validated_iff field value)⟩

end ZkNote.TimestampAcceptance
