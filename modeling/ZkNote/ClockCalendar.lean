import ZkNote.ClockText
import ZkNote.TimestampAcceptance

namespace ZkNote.ClockCalendar
open Rfc3339 Instants TimestampAcceptance ClockText

instance (year : Nat) : Decidable (Leap year) := inferInstanceAs (Decidable (_ ∧ (_ → _)))

-- The calendar a day at a time, said without the algorithm.
def lastDay (y m : Nat) : Nat := if m = 2 ∧ Leap y then 29 else monthLengths.getD (m-1) 0

structure Date where
  year : Nat
  month : Nat
  day : Nat
  deriving DecidableEq

def nextDay (date : Date) : Date :=
  if date.day < lastDay date.year date.month then ⟨date.year,date.month,date.day+1⟩
  else if date.month < 12 then ⟨date.year,date.month+1,1⟩
  else ⟨date.year+1,1,1⟩

def epoch : Date := ⟨1970,1,1⟩

def daysAfterEpoch (n : Nat) : Date := nextDay^[n] epoch

def dayNumber (date : Date) : Nat := yearStart date.year+monthStart date.year date.month+date.day

-- A month of the year and a day of the month.
structure Dated (date : Date) : Prop where
  firstMonth : 1 ≤ date.month
  lastMonth : date.month ≤ 12
  firstDay : 1 ≤ date.day
  lastDay : date.day ≤ daysInMonth date.year date.month

variable {date other : Date}

theorem last_day {y m : Nat} (low : 1 ≤ m) (high : m ≤ 12) : lastDay y m = daysInMonth y m := by
  have leap := leap_year y
  rw [lastDay]
  interval_cases m <;> simp [monthLengths,daysInMonth,leap]

theorem days_positive {y m : Nat} (low : 1 ≤ m) (high : m ≤ 12) : 1 ≤ daysInMonth y m := by
  interval_cases m <;> simp [daysInMonth]
  split <;> decide

theorem next_dated (dated : Dated date) : Dated (nextDay date) := by
  obtain ⟨low,high,first,last⟩ := dated
  rw [nextDay,last_day low high]
  split
  · rename_i less
    exact ⟨low,high,Nat.le_add_left 1 _,less⟩
  · split
    · rename_i more
      exact ⟨Nat.le_add_left 1 _,more,Nat.le_refl 1,days_positive (Nat.le_add_left 1 _) more⟩
    · exact ⟨Nat.le_refl 1,by simp,Nat.le_refl 1,days_positive (Nat.le_refl 1) (by simp)⟩

theorem next_number (dated : Dated date) : dayNumber (nextDay date) = dayNumber date+1 := by
  obtain ⟨low,high,first,last⟩ := dated
  rw [nextDay,last_day low high]
  split
  · rfl
  · rename_i full
    have whole : date.day = daysInMonth date.year date.month := Nat.le_antisymm last (Nat.le_of_not_lt full)
    split
    · dsimp only [dayNumber]
      rw [monthStart,whole]
      omega
    · have twelve : date.month = 12 := by omega
      have year : monthStart date.year 13 = monthStart date.year 12+daysInMonth date.year 12 := rfl
      have january : monthStart (date.year+1) 1 = 0 := rfl
      dsimp only [dayNumber]
      rw [yearStart,january,whole,twelve,year]
      omega

theorem number_grows (dated : Dated date) (dated' : Dated other)
    (before : date.year < other.year ∨ date.year = other.year ∧ (date.month < other.month ∨ date.month = other.month ∧ date.day < other.day)) :
    dayNumber date < dayNumber other := by
  have last := dated.lastDay
  have first := dated'.firstDay
  rw [dayNumber,dayNumber]
  rcases before with years | ⟨years,months | ⟨months,days⟩⟩
  · have start := yearStart_le years
    have month : monthStart date.year date.month+daysInMonth date.year date.month ≤ monthStart date.year 13 := monthStart_last dated.lastMonth
    omega
  · have start : monthStart date.year date.month+daysInMonth date.year date.month ≤ monthStart date.year other.month := monthStart_le months
    rw [← years]
    omega
  · rw [years,months]
    omega

-- A day has one date.
theorem number_inj (dated : Dated date) (dated' : Dated other) (same : dayNumber date = dayNumber other) : date = other := by
  have forth : ¬(date.year < other.year ∨ date.year = other.year ∧ (date.month < other.month ∨ date.month = other.month ∧ date.day < other.day)) :=
    fun before => absurd same (Nat.ne_of_lt (number_grows dated dated' before))
  have back : ¬(other.year < date.year ∨ other.year = date.year ∧ (other.month < date.month ∨ other.month = date.month ∧ other.day < date.day)) :=
    fun before => absurd same.symm (Nat.ne_of_lt (number_grows dated' dated before))
  obtain ⟨y,m,d⟩ := date
  obtain ⟨y',m',d'⟩ := other
  dsimp only at forth back
  rw [Date.mk.injEq]
  omega

theorem next_days (dated : Dated date) (n : Nat) : Dated (nextDay^[n] date) ∧ dayNumber (nextDay^[n] date) = dayNumber date+n := by
  induction n with
  | zero => exact ⟨dated,rfl⟩
  | succ n ih =>
      rw [Function.iterate_succ_apply']
      exact ⟨next_dated ih.1,by rw [next_number ih.1,ih.2,Nat.add_assoc]⟩

theorem epoch_days (n : Nat) : Dated (daysAfterEpoch n) ∧ dayNumber (daysAfterEpoch n) = dayNumber epoch+n :=
  next_days ⟨by decide,by decide,by decide,by decide⟩ n

-- The leap days up to a year.
theorem leap_count (y : Nat) :
    (y+1)/4+(y+1)/400+(if isLeapYear (y+1) then 0 else 1)+y/100 = y/4+y/400+1+(y+1)/100 := by
  have leap := leap_year (y+1)
  by_cases four : 4 ∣ y+1
  · rw [Nat.succ_div_of_dvd four]
    by_cases hundred : 100 ∣ y+1
    · rw [Nat.succ_div_of_dvd hundred]
      by_cases era : 400 ∣ y+1
      · rw [Nat.succ_div_of_dvd era,if_pos (leap.mpr ⟨four,fun _ => era⟩)]
        omega
      · rw [Nat.succ_div_of_not_dvd era,if_neg (fun is => era ((leap.mp is).2 hundred))]
        omega
    · have era : ¬400 ∣ y+1 := fun is => hundred (Nat.dvd_trans (by decide) is)
      rw [Nat.succ_div_of_not_dvd hundred,Nat.succ_div_of_not_dvd era,if_pos (leap.mpr ⟨four,fun is => absurd is hundred⟩)]
      omega
  · have hundred : ¬100 ∣ y+1 := fun is => four (Nat.dvd_trans (by decide) is)
    have era : ¬400 ∣ y+1 := fun is => four (Nat.dvd_trans (by decide) is)
    rw [Nat.succ_div_of_not_dvd four,Nat.succ_div_of_not_dvd hundred,Nat.succ_div_of_not_dvd era,if_neg (fun is => four (leap.mp is).1)]

-- The first of March of a year, counted in days.
theorem march_first (y : Nat) : yearStart y+monthStart y 3+y/100 = 365*y+y/4+y/400+60 := by
  induction y with
  | zero => rfl
  | succ y ih =>
      have old : monthStart y 13 = monthStart y 3+306 := by simp [monthStart,daysInMonth]
      have new : monthStart (y+1) 3+(if isLeapYear (y+1) then 0 else 1) = 60 := by
        simp only [monthStart,daysInMonth]
        split <;> rfl
      have counts := leap_count y
      rw [yearStart,old]
      generalize (if isLeapYear (y+1) then 0 else 1) = common at new counts
      generalize (y+1)/4 = a at *
      generalize (y+1)/100 = b at *
      generalize (y+1)/400 = c at *
      omega

theorem quotient {a b q : Nat} (low : b*q ≤ a) (high : a < b*(q+1)) : a/b = q :=
  Nat.div_eq_of_lt_le (by rwa [Nat.mul_comm]) (by rwa [Nat.mul_comm])

theorem centuries {doe : Nat} (inside : doe < 146097) : ∃ c r, doe = 36524*c+r ∧ c ≤ 3 ∧ (r < 36524 ∨ c = 3 ∧ r = 36524) ∧
    doe/36524-doe/146096 = c ∧ doe/146096 ≤ doe/36524 := by
  by_cases last : doe = 146096
  · subst last
    exact ⟨3,36524,rfl,by decide,.inr ⟨rfl,rfl⟩,rfl,by decide⟩
  · have none : doe/146096 = 0 := Nat.div_eq_of_lt (by omega)
    refine ⟨doe/36524,doe%36524,(Nat.div_add_mod doe 36524).symm,?_,.inl (Nat.mod_lt _ (by decide)),by rw [none]; rfl,by rw [none]; exact Nat.zero_le _⟩
    exact Nat.lt_succ_iff.mp (Nat.div_lt_of_lt_mul (by omega))

theorem four_years {r : Nat} (inside : r ≤ 36524) : ∃ t u v, t ≤ 24 ∧ u ≤ 3 ∧ r = 1461*t+365*u+v ∧ (v ≤ 364 ∨ u = 3 ∧ v = 365) := by
  have whole := Nat.div_add_mod r 1461
  have small := Nat.mod_lt r (show 0 < 1461 by decide)
  have low : r/1461 ≤ 24 := Nat.lt_succ_iff.mp (Nat.div_lt_of_lt_mul (by omega))
  by_cases leap : r%1461 = 1460
  · exact ⟨r/1461,3,365,low,by decide,by omega,.inr ⟨rfl,rfl⟩⟩
  · have whole' := Nat.div_add_mod (r%1461) 365
    have small' := Nat.mod_lt (r%1461) (show 0 < 365 by decide)
    have low' : r%1461/365 ≤ 3 := Nat.lt_succ_iff.mp (Nat.div_lt_of_lt_mul (by omega))
    exact ⟨r/1461,r%1461/365,r%1461%365,low,low',by omega,.inl (by omega)⟩

-- A day of the 400-year era: its century, its four years, its year and its day.
theorem era_parts {doe : Nat} (inside : doe < 146097) :
    ∃ c t u v, c ≤ 3 ∧ t ≤ 24 ∧ u ≤ 3 ∧ doe = 36524*c+1461*t+365*u+v ∧ (v ≤ 364 ∨ u = 3 ∧ v = 365 ∧ (t < 24 ∨ c = 3)) ∧
      doe/1460 ≤ doe ∧ doe/146096 ≤ doe-doe/1460+doe/36524 ∧
      (doe-doe/1460+doe/36524-doe/146096)/365 = 100*c+4*t+u := by
  obtain ⟨c,r,whole,century,low,cut,order⟩ := centuries inside
  obtain ⟨t,u,v,t24,u3,rest,day⟩ := four_years (show r ≤ 36524 by omega)
  have parts : doe = 36524*c+1461*t+365*u+v := by omega
  have last : v ≤ 364 ∨ u = 3 ∧ v = 365 ∧ (t < 24 ∨ c = 3) := by omega
  obtain ⟨e,q,e1⟩ : ∃ e, doe/1460 = 25*c+t+e ∧ (e = 0 ∧ t+365*u+v+24*c < 1460 ∨ e = 1 ∧ 1460 ≤ t+365*u+v+24*c) := by
    by_cases big : 1460 ≤ t+365*u+v+24*c
    · exact ⟨1,quotient (by omega) (by omega),.inr ⟨rfl,big⟩⟩
    · exact ⟨0,quotient (by omega) (by omega),.inl ⟨rfl,by omega⟩⟩
  have taken : doe/1460 ≤ doe := Nat.div_le_self _ _
  have sum : doe-doe/1460+doe/36524-doe/146096 = doe-doe/1460+c := by omega
  refine ⟨c,t,u,v,century,t24,u3,parts,last,taken,by omega,?_⟩
  rw [sum]
  exact quotient (by omega) (by omega)

theorem year_of_era {doe c t u : Nat} (taken : doe/1460 ≤ doe) (left : doe/146096 ≤ doe-doe/1460+doe/36524) (inside : doe < 146097)
    (is : (doe-doe/1460+doe/36524-doe/146096)/365 = 100*c+4*t+u) : yearOfEra doe = some (100*c+4*t+u) := by
  have small : doe/36524 ≤ doe := Nat.div_le_self _ _
  rw [yearOfEra,sub32,if_pos taken,Option.bind_eq_bind,Option.bind_some,add32,if_pos (by omega),Option.bind_some,sub32,if_pos left,
    Option.bind_some,is]

theorem day_of_year {c t u : Nat} (v : Nat) (century : c ≤ 3) (four : t ≤ 24) (one : u ≤ 3) :
    dayOfYear (36524*c+1461*t+365*u+v) (100*c+4*t+u) = some v := by
  have quarters : (100*c+4*t+u)/4 = 25*c+t := quotient (by omega) (by omega)
  have hundreds : (100*c+4*t+u)/100 = c := quotient (by omega) (by omega)
  rw [dayOfYear,mul32,if_pos (by omega),Option.bind_eq_bind,Option.bind_some,add32,quarters,if_pos (by omega),Option.bind_some,
    sub32,hundreds,if_pos (by omega),Option.bind_some,sub32,if_pos (by omega)]
  exact congrArg some (by omega)

-- Where a month of the year that starts in March begins, and how long it is.
def marchStart (mp : Nat) : Nat := (153*mp+2)/5

def marchMonth (Y mp : Nat) : Nat × Nat := if mp < 10 then (Y,mp+3) else (Y+1,mp-9)

theorem march_month {Y mp : Nat} (months : mp ≤ 11) :
    monthOf mp = some (marchMonth Y mp).2 ∧ (marchMonth Y mp).1 = (if (marchMonth Y mp).2 ≤ 2 then Y+1 else Y) ∧
      1 ≤ (marchMonth Y mp).2 ∧ (marchMonth Y mp).2 ≤ 12 := by
  interval_cases mp <;> exact ⟨rfl,rfl,by simp [marchMonth],by simp [marchMonth]⟩

theorem march_start {Y mp : Nat} (months : mp ≤ 11) :
    yearStart (marchMonth Y mp).1+monthStart (marchMonth Y mp).1 (marchMonth Y mp).2 = yearStart Y+monthStart Y 3+marchStart mp := by
  interval_cases mp <;> simp [marchMonth,marchStart,monthStart,yearStart,daysInMonth] <;> omega

-- Five months in a row have 153 days; the last month is February.
theorem march_length {Y mp v : Nat} (months : mp ≤ 11) (low : 153*mp ≤ 5*v+2) (high : 5*v+2 < 153*(mp+1))
    (inside : v ≤ 364 ∨ v = 365 ∧ isLeapYear (Y+1) = true) :
    marchStart mp ≤ v ∧ v+1 ≤ marchStart mp+daysInMonth (marchMonth Y mp).1 (marchMonth Y mp).2 := by
  by_cases february : mp = 11
  · subst february
    have length : daysInMonth (marchMonth Y 11).1 (marchMonth Y 11).2 = if isLeapYear (Y+1) then 29 else 28 := rfl
    have start : marchStart 11 = 337 := rfl
    rw [length,start]
    rcases inside with less | ⟨last,leap⟩
    · split <;> omega
    · rw [if_pos leap]
      omega
  · have earlier : mp ≤ 10 := by omega
    have length : daysInMonth (marchMonth Y mp).1 (marchMonth Y mp).2 = marchStart (mp+1)-marchStart mp := by
      interval_cases mp <;> rfl
    have start := Nat.div_mul_le_self (153*mp+2) 5
    rw [length,marchStart,marchStart]
    omega

theorem march_date {Y mp v : Nat} (months : mp ≤ 11) (low : 153*mp ≤ 5*v+2) (high : 5*v+2 < 153*(mp+1))
    (inside : v ≤ 364 ∨ v = 365 ∧ isLeapYear (Y+1) = true) :
    ∃ date, Dated date ∧ dayNumber date = yearStart Y+monthStart Y 3+1+v ∧ monthOf mp = some date.month ∧ dayOfMonth v mp = some date.day ∧
      date.year = if date.month ≤ 2 then Y+1 else Y := by
  obtain ⟨month,year,first,last⟩ := march_month (Y := Y) months
  obtain ⟨start,finish⟩ := march_length months low high inside
  have begins := march_start (Y := Y) months
  refine ⟨⟨(marchMonth Y mp).1,(marchMonth Y mp).2,v-marchStart mp+1⟩,⟨first,last,Nat.le_add_left 1 _,?_⟩,?_,month,?_,year⟩
  · dsimp only
    omega
  · rw [dayNumber]
    dsimp only
    rw [begins]
    omega
  · rw [dayOfMonth,mul32,if_pos (by omega),Option.bind_eq_bind,Option.bind_some,add32,if_pos (by omega),Option.bind_some,sub32,
      if_pos (show (153*mp+2)/5 ≤ v from start),Option.bind_some,add32,if_pos (by omega)]
    rfl

theorem new_year {y : Nat} (common : isLeapYear y = false) : dayNumber ⟨y,1,1⟩+y/100 = 365*y+y/4+y/400+2 := by
  have march := march_first y
  have january : monthStart y 1 = 0 := rfl
  have spring : monthStart y 3 = 59 := by simp [monthStart,daysInMonth,common]
  dsimp only [dayNumber]
  rw [january]
  omega

-- The year stays a variable, or the kernel counts the days one by one.
theorem year_1970 {y : Nat} (is : y = 1970) : dayNumber ⟨y,1,1⟩ = 719529 := by
  have start := new_year (show isLeapYear y = false by rw [is]; rfl)
  omega

theorem epoch_number : dayNumber epoch = 719529 := year_1970 rfl

-- The year of an era ends in a leap day where the calendar has one.
theorem era_leap {e c t : Nat} (last : t < 24 ∧ c ≤ 3 ∨ t = 24 ∧ c = 3) : isLeapYear (100*c+4*t+3+400*e+1) = true := by
  rw [leap_year]
  refine ⟨by omega,fun hundred => ?_⟩
  rcases last with ⟨less,_⟩ | ⟨rfl,rfl⟩
  · exact absurd hundred (by omega)
  · omega

theorem cast32 {k : Nat} (small : k < 2^31) : toU32 k = k ∧ toI32 k = k := by
  constructor
  · rw [toU32,Int.emod_eq_of_lt (by omega) (by omega),Int.toNat_natCast]
  · rw [toI32,Int.bmod_eq_of_le (by omega) (by omega)]

theorem month_place {v : Nat} (inside : v ≤ 365) :
    ∃ mp, monthPlace v = some mp ∧ mp ≤ 11 ∧ 153*mp ≤ 5*v+2 ∧ 5*v+2 < 153*(mp+1) := by
  have division := Nat.div_add_mod (5*v+2) 153
  have remainder := Nat.mod_lt (5*v+2) (by decide : 0 < 153)
  refine ⟨(5*v+2)/153,?_,by omega,by omega,by omega⟩
  rw [monthPlace,mul32,if_pos (by omega),Option.bind_eq_bind,Option.bind_some,add32,if_pos (by omega),Option.bind_some]

-- The first of March of a year of an era.
theorem era_march {e c t u : Nat} (century : c ≤ 3) (four : t ≤ 24) (one : u ≤ 3) :
    yearStart (100*c+4*t+u+400*e)+monthStart (100*c+4*t+u+400*e) 3 = 146097*e+36524*c+1461*t+365*u+60 := by
  have march := march_first (100*c+4*t+u+400*e)
  have hundreds : (100*c+4*t+u+400*e)/100 = c+4*e := quotient (by omega) (by omega)
  have fours : (100*c+4*t+u+400*e)/4 = 25*c+t+100*e := quotient (by omega) (by omega)
  have turns : (100*c+4*t+u+400*e)/400 = e := quotient (by omega) (by omega)
  rw [hundreds,fours,turns] at march
  omega

theorem year_of {Y year month : Nat} (small : Y < 2^31-1) (is : year = if month ≤ 2 then Y+1 else Y) : yearOf month (Y : Int) = some (year : Int) := by
  rw [yearOf,is]
  split
  · rw [if_pos (by omega)]
    rfl
  · rfl

-- The day of the era, and then the date it has there.
theorem ymd_from_era {e doe : Nat} (small : doe < 146097) (eras : e ≤ 24) :
    ∃ date, Dated date ∧ dayNumber date = 146097*e+doe+61 ∧
      daysToYmd (((146097*e+doe : Nat) : Int)-719468) = some ((date.year : Int),date.month,date.day) := by
  obtain ⟨c,t,u,v,century,four,one,parts,day,taken,left,is⟩ := era_parts small
  have leap : v ≤ 364 ∨ v = 365 ∧ isLeapYear (100*c+4*t+u+400*e+1) = true := by
    rcases day with less | ⟨rfl,last,tail⟩
    · exact .inl less
    · exact .inr ⟨last,era_leap (by omega)⟩
  obtain ⟨mp,place,months,low,high⟩ := month_place (v := v) (by omega)
  obtain ⟨date,dated,number,month,dayIs,yearIs⟩ := march_date months low high leap
  have doy : dayOfYear doe (100*c+4*t+u) = some v := parts ▸ day_of_year v century four one
  have cut : (146097*e+doe)/146097 = e := quotient (by omega) (by omega)
  have era : ((146097*e+doe : Nat) : Int).tdiv 146097 = (e : Int) := by
    rw [Int.tdiv_eq_ediv_of_nonneg (Int.natCast_nonneg _)]
    exact_mod_cast cut
  have rest : ((146097*e+doe : Nat) : Int)-(e : Int)*146097 = (doe : Int) := by
    push_cast
    ring
  have year : ((100*c+4*t+u : Nat) : Int)+(e : Int)*400 = ((100*c+4*t+u+400*e : Nat) : Int) := by
    push_cast
    ring
  refine ⟨date,dated,?_,?_⟩
  · rw [number,era_march century four one,parts]
    ring
  · simp only [daysToYmd,Int.sub_add_cancel]
    rw [if_pos (Int.natCast_nonneg _),era,rest,(cast32 (k := doe) (by omega)).1,year_of_era taken left small is,Option.bind_eq_bind,Option.bind_some,
      year,(cast32 (k := 100*c+4*t+u+400*e) (by omega)).2,doy,Option.bind_some,place,Option.bind_some,dayIs,Option.bind_some,month,Option.bind_some,
      year_of (by omega) yearIs]
    rfl

theorem days_to_ymd {n : Nat} (inside : n ≤ 2932896) :
    daysToYmd n = some (((daysAfterEpoch n).year : Int),(daysAfterEpoch n).month,(daysAfterEpoch n).day) := by
  have whole := Nat.div_add_mod (n+719468) 146097
  have small := Nat.mod_lt (n+719468) (by decide : 0 < 146097)
  obtain ⟨date,dated,number,done⟩ := ymd_from_era (e := (n+719468)/146097) small (by omega)
  rw [whole] at number done
  have days : ((n+719468 : Nat) : Int)-719468 = n := by omega
  rw [days] at done
  have found : daysAfterEpoch n = date := by
    obtain ⟨reached,counted⟩ := epoch_days n
    apply number_inj reached dated
    rw [counted,number,epoch_number]
    omega
  rw [found]
  exact done

end ZkNote.ClockCalendar
