import Mathlib.Tactic.Ring
import ZkNote.Rfc3339

namespace ZkNote.Instants
open Rfc3339

structure Digits (width : Nat) (part : List Char) : Prop where
  length : part.length = width
  all : ∀ c ∈ part, c.isDigit

inductive Zone where
  | utc (small : Bool)
  | offset (west : Bool) (hours minutes : List Char)

def Zone.text : Zone → List Char
  | .utc false => ['Z']
  | .utc true => ['z']
  | .offset west hours minutes => (if west then '-' else '+') :: hours ++ ':' :: minutes

def Zone.Fit : Zone → Prop
  | .utc _ => True
  | .offset _ hours minutes => Digits 2 hours ∧ Digits 2 minutes ∧ number hours ≤ 23 ∧ number minutes ≤ 59

-- How far the zone's clocks are ahead of UTC, in minutes.
def Zone.ahead : Zone → Int
  | .utc _ => 0
  | .offset west hours minutes => (if west then -1 else 1)*(number hours*60+number minutes : Nat)

-- A timestamp of the grammar, part by part as it is spelled. An empty fraction is
-- no fraction.
structure Stamp where
  year : List Char
  month : List Char
  day : List Char
  smallT : Bool
  hour : List Char
  minute : List Char
  second : List Char
  fraction : List Char
  zone : Zone
  yearFit : Digits 4 year ∧ 1 ≤ number year
  monthFit : Digits 2 month ∧ 1 ≤ number month ∧ number month ≤ 12
  dayFit : Digits 2 day ∧ 1 ≤ number day ∧ number day ≤ daysInMonth (number year) (number month)
  hourFit : Digits 2 hour ∧ number hour ≤ 23
  minuteFit : Digits 2 minute ∧ number minute ≤ 59
  secondFit : Digits 2 second ∧ number second ≤ 60
  fractionFit : ∀ c ∈ fraction, c.isDigit
  zoneFit : zone.Fit

-- Days before a month of a year, and before a year.
def monthStart (year : Nat) : Nat → Nat
  | 0 => 0
  | month+1 => monthStart year month+daysInMonth year month

def yearStart : Nat → Nat
  | 0 => 0
  | year+1 => yearStart year+monthStart year 13

namespace Stamp

def tail (stamp : Stamp) : List Char := (if stamp.fraction = [] then [] else '.' :: stamp.fraction) ++ stamp.zone.text

def text (stamp : Stamp) : List Char :=
  stamp.year ++ '-' :: (stamp.month ++ '-' :: (stamp.day ++ (if stamp.smallT then 't' else 'T') ::
    (stamp.hour ++ ':' :: (stamp.minute ++ ':' :: (stamp.second ++ stamp.tail)))))

def days (stamp : Stamp) : Nat :=
  yearStart (number stamp.year)+monthStart (number stamp.year) (number stamp.month)+number stamp.day

def clock (stamp : Stamp) : Nat := number stamp.hour*60+number stamp.minute

-- The minute of UTC, then the second within it. Second 60 is the leap second at
-- the end of its minute, before the minute that follows.
def instant (stamp : Stamp) : Int ×ₗ Rat :=
  toLex ((stamp.days*1440+stamp.clock : Nat)-stamp.zone.ahead,number stamp.second+number stamp.fraction/10^stamp.fraction.length)

end Stamp

def Spells (stamp : Stamp) (value : String) : Prop := value.toList = stamp.text

instance (stamp : Stamp) (value : String) : Decidable (Spells stamp value) := by
  unfold Spells
  infer_instance

theorem append_lt {xs ys s t : List Char} (wide : xs.length = ys.length) :
    xs ++ s < ys ++ t ↔ xs < ys ∨ xs = ys ∧ s < t := by
  induction xs generalizing ys with
  | nil =>
      obtain rfl := List.length_eq_zero_iff.mp wide.symm
      simp
  | cons x xs ih =>
      cases ys with
      | nil => simp at wide
      | cons y ys =>
          rw [List.cons_append,List.cons_append,List.cons_lt_cons_iff,List.cons_lt_cons_iff,ih (by simpa using wide),List.cons.injEq]
          tauto

theorem digit_value {c : Char} (digit : c.isDigit) : 48 ≤ c.toNat ∧ c.toNat ≤ 57 := by
  simp only [Char.isDigit,Bool.and_eq_true,decide_eq_true_eq] at digit
  exact ⟨by simpa [UInt32.le_iff_toNat_le] using digit.1,by simpa [UInt32.le_iff_toNat_le] using digit.2⟩

theorem digit_size {c : Char} (digit : c.isDigit) : c.utf8Size = 1 := by
  have small := (digit_value digit).2
  unfold Char.utf8Size
  rw [if_pos]
  rw [UInt32.le_iff_toNat_le]
  exact le_trans small (by decide)

theorem char_lt {c d : Char} : c < d ↔ c.toNat < d.toNat := by
  rw [Char.lt_def,UInt32.lt_iff_toNat_lt]
  rfl

theorem char_toNat {c d : Char} (same : c.toNat = d.toNat) : c = d := Char.ext (UInt32.toNat_inj.mp same)

-- The digits read so far, times ten to the number of digits still to come.
theorem fold_number (part : List Char) (start : Nat) :
    part.foldl (fun n c => 10*n+(c.toNat - '0'.toNat)) start = start*10^part.length+number part := by
  induction part generalizing start with
  | nil => simp [number]
  | cons c rest ih =>
      have apart : number (c :: rest) = (10*0+(c.toNat - '0'.toNat))*10^rest.length+number rest := ih _
      rw [List.foldl_cons,ih,apart,List.length_cons,pow_succ]
      ring

theorem number_cons (c : Char) (rest : List Char) : number (c :: rest) = (c.toNat-48)*10^rest.length+number rest := by
  rw [number,List.foldl_cons,fold_number]
  simp

theorem number_bound {n : Nat} {part : List Char} (digits : Digits n part) : number part < 10^n := by
  obtain ⟨rfl,all⟩ := digits
  induction part with
  | nil => simp [number]
  | cons c rest ih =>
      rw [number_cons,List.length_cons,pow_succ]
      have value := digit_value (all c List.mem_cons_self)
      have low := ih (fun d inside => all d (List.mem_cons_of_mem c inside))
      nlinarith [Nat.sub_le_sub_right value.2 48]

theorem Digits.tail {n : Nat} {c : Char} {rest : List Char} (digits : Digits (n+1) (c :: rest)) : Digits n rest :=
  ⟨by simpa using digits.length,fun d inside => digits.all d (List.mem_cons_of_mem c inside)⟩

theorem digits_order {n : Nat} {xs ys : List Char} (left : Digits n xs) (right : Digits n ys) :
    (xs < ys ↔ number xs < number ys) ∧ (xs = ys ↔ number xs = number ys) := by
  induction xs generalizing n ys with
  | nil =>
      obtain rfl := left.length
      obtain rfl := List.length_eq_zero_iff.mp right.length
      simp
  | cons x xs ih =>
      obtain rfl := left.length
      cases ys with
      | nil => exact absurd right.length (by simp)
      | cons y ys =>
          obtain ⟨less,same⟩ := ih left.tail right.tail
          have leftLow := number_bound left.tail
          have rightLow := number_bound right.tail
          have leftValue := digit_value (left.all x List.mem_cons_self)
          have rightValue := digit_value (right.all y List.mem_cons_self)
          have wide : ys.length = xs.length := by simpa using right.length
          rw [List.cons_lt_cons_iff,List.cons.injEq,number_cons,number_cons,less,same,char_lt,wide]
          have top : 0 < 10^xs.length := by positivity
          rcases lt_trichotomy x.toNat y.toNat with order | order | order
          · have step : (x.toNat-48)*10^xs.length+10^xs.length ≤ (y.toNat-48)*10^xs.length := by
              rw [← Nat.succ_mul]
              exact Nat.mul_le_mul_right _ (by omega)
            have other : x ≠ y := fun is => absurd (is ▸ order) (lt_irrefl _)
            simp only [order,other,true_or,false_and,true_iff,false_iff]
            omega
          · obtain rfl := char_toNat order
            simp
          · have step : (y.toNat-48)*10^xs.length+10^xs.length ≤ (x.toNat-48)*10^xs.length := by
              rw [← Nat.succ_mul]
              exact Nat.mul_le_mul_right _ (by omega)
            have other : x ≠ y := fun is => absurd (is ▸ order) (lt_irrefl _)
            simp only [not_lt_of_gt order,other,false_and,or_self,false_iff]
            omega

theorem monthStart_le {year m n : Nat} (order : m < n) : monthStart year m+daysInMonth year m ≤ monthStart year n := by
  induction n with
  | zero => omega
  | succ n ih =>
      rw [monthStart]
      rcases Nat.lt_succ_iff_lt_or_eq.mp order with less | rfl
      · have := ih less
        omega
      · rfl

theorem yearStart_le {x y : Nat} (order : x < y) : yearStart x+monthStart x 13 ≤ yearStart y := by
  induction y with
  | zero => omega
  | succ y ih =>
      rw [yearStart]
      rcases Nat.lt_succ_iff_lt_or_eq.mp order with less | rfl
      · have := ih less
        omega
      · rfl

variable {a b : Stamp}

theorem monthStart_last {year month : Nat} (last : month ≤ 12) : monthStart year month+daysInMonth year month ≤ monthStart year 13 :=
  monthStart_le (Nat.lt_succ_of_le last)

theorem days_grow (before : number a.year < number b.year ∨ number a.year = number b.year ∧
    (number a.month < number b.month ∨ number a.month = number b.month ∧ number a.day < number b.day)) : a.days < b.days := by
  have fitA := a.dayFit.2
  have fitB := b.dayFit.2
  unfold Stamp.days
  rcases before with years | ⟨years,months | ⟨months,days⟩⟩
  · have start := yearStart_le years
    have month : monthStart (number a.year) (number a.month)+daysInMonth (number a.year) (number a.month) ≤ monthStart (number a.year) 13 :=
      monthStart_last a.monthFit.2.2
    omega
  · have start : monthStart (number a.year) (number a.month)+daysInMonth (number a.year) (number a.month) ≤
        monthStart (number a.year) (number b.month) := monthStart_le months
    rw [← years]
    omega
  · rw [years,months]
    omega

-- Dates read in order are days in order.
theorem days_order (R : Prop) : (a.days < b.days ∨ a.days = b.days ∧ R) ↔
    (a.year < b.year ∨ a.year = b.year ∧ (a.month < b.month ∨ a.month = b.month ∧ (a.day < b.day ∨ a.day = b.day ∧ R))) := by
  rw [(digits_order a.yearFit.1 b.yearFit.1).1,(digits_order a.yearFit.1 b.yearFit.1).2,(digits_order a.monthFit.1 b.monthFit.1).1,
    (digits_order a.monthFit.1 b.monthFit.1).2,(digits_order a.dayFit.1 b.dayFit.1).1,(digits_order a.dayFit.1 b.dayFit.1).2]
  rcases lt_trichotomy (number a.year) (number b.year) with years | years | years
  · simp only [years,true_or,days_grow (.inl years)]
  · rcases lt_trichotomy (number a.month) (number b.month) with months | months | months
    · simp only [years,months,true_or,and_true,or_true,days_grow (.inr ⟨years,.inl months⟩)]
    · have apart : a.days+number b.day = b.days+number a.day := by
        unfold Stamp.days
        rw [years,months]
        omega
      have less : a.days < b.days ↔ number a.day < number b.day := by omega
      have same : a.days = b.days ↔ number a.day = number b.day := by omega
      rw [less,same]
      simp [years,months]
    · have later := days_grow (.inr ⟨years.symm,.inl months⟩)
      simp [years,not_lt_of_gt months,months.ne',not_lt_of_gt later,later.ne']
  · have later := days_grow (.inl years)
    simp [not_lt_of_gt years,years.ne',not_lt_of_gt later,later.ne']

theorem clock_order (R : Prop) : (a.clock < b.clock ∨ a.clock = b.clock ∧ R) ↔
    (a.hour < b.hour ∨ a.hour = b.hour ∧ (a.minute < b.minute ∨ a.minute = b.minute ∧ R)) := by
  rw [(digits_order a.hourFit.1 b.hourFit.1).1,(digits_order a.hourFit.1 b.hourFit.1).2,(digits_order a.minuteFit.1 b.minuteFit.1).1,
    (digits_order a.minuteFit.1 b.minuteFit.1).2]
  have left := a.minuteFit.2
  have right := b.minuteFit.2
  unfold Stamp.clock
  rcases lt_trichotomy (number a.hour) (number b.hour) with hours | hours | hours
  · have less : number a.hour*60+number a.minute < number b.hour*60+number b.minute := by omega
    simp [less,hours]
  · simp [hours]
  · have less : number b.hour*60+number b.minute < number a.hour*60+number a.minute := by omega
    simp [not_lt_of_gt less,less.ne',not_lt_of_gt hours,hours.ne']

-- The order in which two stamps are read: the date, the letter between date and
-- time, the clock without the zone, the second, then fraction and zone as spelled.
def Reads (a b : Stamp) : Prop :=
  a.days < b.days ∨ a.days = b.days ∧ (a.smallT < b.smallT ∨ a.smallT = b.smallT ∧
    (a.clock < b.clock ∨ a.clock = b.clock ∧ (number a.second < number b.second ∨ number a.second = number b.second ∧ a.tail < b.tail)))

theorem part_lt {n : Nat} {c : Char} {xs ys s t : List Char} (left : Digits n xs) (right : Digits n ys) :
    xs ++ c :: s < ys ++ c :: t ↔ xs < ys ∨ xs = ys ∧ s < t := by
  rw [append_lt (left.length.trans right.length.symm),List.cons_lt_cons_iff]
  simp

theorem letter_lt {x y : Bool} {s t : List Char} :
    (if x then 't' else 'T') :: s < (if y then 't' else 'T') :: t ↔ x < y ∨ x = y ∧ s < t := by
  rw [List.cons_lt_cons_iff]
  cases x <;> cases y <;> simp

theorem text_order : a.text < b.text ↔ Reads a b := by
  unfold Stamp.text Reads
  rw [part_lt a.yearFit.1 b.yearFit.1,part_lt a.monthFit.1 b.monthFit.1,append_lt (a.dayFit.1.length.trans b.dayFit.1.length.symm),
    letter_lt,part_lt a.hourFit.1 b.hourFit.1,part_lt a.minuteFit.1 b.minuteFit.1,
    append_lt (a.secondFit.1.length.trans b.secondFit.1.length.symm),days_order,clock_order,
    (digits_order a.secondFit.1 b.secondFit.1).1,(digits_order a.secondFit.1 b.secondFit.1).2]

theorem spelled_order {x y : String} (left : Spells a x) (right : Spells b y) : x < y ↔ Reads a b := by
  rw [String.lt_iff,left,right,text_order]

-- The fraction as written, for fractions of one length.
theorem fraction_order {n : Nat} (left : Digits n a.fraction) (right : Digits n b.fraction) (zone : a.zone.text = b.zone.text) :
    (a.tail < b.tail ↔ number a.fraction < number b.fraction) := by
  unfold Stamp.tail
  rw [← (digits_order left right).1,zone]
  by_cases empty : a.fraction = []
  · have other : b.fraction = [] := List.length_eq_zero_iff.mp (by rw [right.length,← left.length,empty]; rfl)
    simp [empty,other]
  · have other : b.fraction ≠ [] := fun is => empty (List.length_eq_zero_iff.mp (by rw [left.length,← right.length,is]; rfl))
    rw [if_neg empty,if_neg other,List.cons_append,List.cons_append,List.cons_lt_cons_iff,append_lt (left.length.trans right.length.symm)]
    simp

theorem zone_ahead {x y : Zone} (same : x.text = y.text) (left : x.Fit) (right : y.Fit) : x.ahead = y.ahead := by
  cases x with
  | utc small =>
      cases y with
      | utc other => rfl
      | offset west hours minutes =>
          cases small <;> cases west <;> simp [Zone.text] at same
  | offset west hours minutes =>
      cases y with
      | utc small =>
          cases small <;> cases west <;> simp [Zone.text] at same
      | offset west' hours' minutes' =>
          obtain ⟨sign,rest⟩ := List.cons.inj same
          obtain ⟨hour,rest⟩ := List.append_inj rest (left.1.length.trans right.1.length.symm)
          obtain rfl := (List.cons.inj rest).2
          subst hour
          cases west <;> cases west' <;> first | rfl | exact absurd sign (by decide)

theorem zone_head (zone : Zone) : ∃ c rest, zone.text = c :: rest ∧ c.isDigit = false ∧ c ≠ '.' := by
  cases zone with
  | utc small => cases small <;> exact ⟨_,_,rfl,by decide,by decide⟩
  | offset west hours minutes => cases west <;> exact ⟨_,_,rfl,by decide,by decide⟩

theorem tail_parts (same : a.tail = b.tail) : a.fraction = b.fraction ∧ a.zone.text = b.zone.text := by
  obtain ⟨c,rest,left,cDigit,cDot⟩ := zone_head a.zone
  obtain ⟨d,last,right,dDigit,dDot⟩ := zone_head b.zone
  unfold Stamp.tail at same
  by_cases aEmpty : a.fraction = [] <;> by_cases bEmpty : b.fraction = []
  · simpa [aEmpty,bEmpty] using same
  · rw [if_pos aEmpty,if_neg bEmpty,left] at same
    exact absurd (List.cons.inj same).1 cDot
  · rw [if_neg aEmpty,if_pos bEmpty,right] at same
    exact absurd (List.cons.inj same).1.symm dDot
  · rw [if_neg aEmpty,if_neg bEmpty] at same
    have same : a.fraction ++ a.zone.text = b.fraction ++ b.zone.text := (List.cons.inj same).2
    -- The digits in front are the fraction on both sides.
    have digits := congrArg (List.takeWhile Char.isDigit) same
    rw [List.takeWhile_append_of_pos a.fractionFit,List.takeWhile_append_of_pos b.fractionFit,left,right,
      List.takeWhile_cons_of_neg (by simp [cDigit]),List.takeWhile_cons_of_neg (by simp [dDigit]),List.append_nil,List.append_nil] at digits
    rw [digits] at same
    exact ⟨digits,List.append_cancel_left same⟩

-- A text is read in one way.
theorem text_instant (same : a.text = b.text) : a.instant = b.instant := by
  obtain ⟨year,rest⟩ := List.append_inj same (a.yearFit.1.length.trans b.yearFit.1.length.symm)
  obtain ⟨month,rest⟩ := List.append_inj (List.cons.inj rest).2 (a.monthFit.1.length.trans b.monthFit.1.length.symm)
  obtain ⟨day,rest⟩ := List.append_inj (List.cons.inj rest).2 (a.dayFit.1.length.trans b.dayFit.1.length.symm)
  obtain ⟨hour,rest⟩ := List.append_inj (List.cons.inj rest).2 (a.hourFit.1.length.trans b.hourFit.1.length.symm)
  obtain ⟨minute,rest⟩ := List.append_inj (List.cons.inj rest).2 (a.minuteFit.1.length.trans b.minuteFit.1.length.symm)
  obtain ⟨second,rest⟩ := List.append_inj (List.cons.inj rest).2 (a.secondFit.1.length.trans b.secondFit.1.length.symm)
  obtain ⟨fraction,zone⟩ := tail_parts rest
  unfold Stamp.instant Stamp.days Stamp.clock
  rw [year,month,day,hour,minute,second,fraction,zone_ahead zone a.zoneFit b.zoneFit]

theorem within_minute (date : a.year = b.year ∧ a.month = b.month ∧ a.day = b.day) (time : a.hour = b.hour ∧ a.minute = b.minute ∧ a.zone = b.zone)
    (second : (number a.second+number a.fraction/10^a.fraction.length : Rat) < number b.second+number b.fraction/10^b.fraction.length) :
    a.instant < b.instant := by
  unfold Stamp.instant Stamp.days Stamp.clock
  rw [date.1,date.2.1,date.2.2,time.1,time.2.1,time.2.2]
  exact Prod.Lex.toLex_lt_toLex.mpr (.inr ⟨rfl,second⟩)

-- Stamps in one spelling: the order in which they are read is the order in time.
theorem alike_order (letter : a.smallT = b.smallT) (zone : a.zone.text = b.zone.text) (fraction : a.fraction.length = b.fraction.length) :
    a.instant < b.instant ↔ Reads a b := by
  have left : Digits b.fraction.length a.fraction := ⟨fraction,a.fractionFit⟩
  have right : Digits b.fraction.length b.fraction := ⟨rfl,b.fractionFit⟩
  unfold Reads
  rw [fraction_order left right zone]
  have ahead := zone_ahead zone a.zoneFit b.zoneFit
  have aClock : a.clock < 1440 := by have := a.hourFit.2; have := a.minuteFit.2; unfold Stamp.clock; omega
  have bClock : b.clock < 1440 := by have := b.hourFit.2; have := b.minuteFit.2; unfold Stamp.clock; omega
  have aSmall : (number a.fraction : Rat) < 10^b.fraction.length := by exact_mod_cast number_bound left
  have bSmall : (number b.fraction : Rat) < 10^b.fraction.length := by exact_mod_cast number_bound right
  have top : (0 : Rat) < 10^b.fraction.length := by positivity
  unfold Stamp.instant
  rw [Prod.Lex.toLex_lt_toLex,ahead,fraction]
  have seconds : ((number a.second : Rat)+number a.fraction/10^b.fraction.length < number b.second+number b.fraction/10^b.fraction.length) ↔
      number a.second < number b.second ∨ number a.second = number b.second ∧ number a.fraction < number b.fraction := by
    rcases lt_trichotomy (number a.second) (number b.second) with order | order | order
    · simp only [order,true_or,iff_true]
      have step : (number a.second : Rat)+1 ≤ number b.second := by exact_mod_cast order
      have low : (number a.fraction : Rat)/10^b.fraction.length < 1 := (div_lt_one top).mpr aSmall
      have high : 0 ≤ (number b.fraction : Rat)/10^b.fraction.length := by positivity
      linarith
    · simp only [order,lt_irrefl,false_or,true_and,add_lt_add_iff_left]
      rw [div_lt_div_iff_of_pos_right top]
      exact_mod_cast Iff.rfl
    · simp only [not_lt_of_gt order,order.ne',false_and,or_self,iff_false,not_lt]
      have step : (number b.second : Rat)+1 ≤ number a.second := by exact_mod_cast order
      have low : (number b.fraction : Rat)/10^b.fraction.length < 1 := (div_lt_one top).mpr bSmall
      have high : 0 ≤ (number a.fraction : Rat)/10^b.fraction.length := by positivity
      linarith
  rw [seconds]
  simp only [letter,lt_irrefl,false_or,true_and]
  have less : ((a.days*1440+a.clock : Nat)-b.zone.ahead < (b.days*1440+b.clock : Nat)-b.zone.ahead) ↔
      a.days < b.days ∨ a.days = b.days ∧ a.clock < b.clock := by omega
  have same : ((a.days*1440+a.clock : Nat)-b.zone.ahead = (b.days*1440+b.clock : Nat)-b.zone.ahead) ↔
      a.days = b.days ∧ a.clock = b.clock := by omega
  rw [less,same]
  constructor
  · rintro ((day | ⟨day,clock⟩) | ⟨⟨day,clock⟩,rest⟩)
    · exact .inl day
    · exact .inr ⟨day,.inl clock⟩
    · exact .inr ⟨day,.inr ⟨clock,rest⟩⟩
  · rintro (day | ⟨day,clock | ⟨clock,rest⟩⟩)
    · exact .inl (.inl day)
    · exact .inl (.inr ⟨day,clock⟩)
    · exact .inr ⟨⟨day,clock⟩,rest⟩

end ZkNote.Instants
