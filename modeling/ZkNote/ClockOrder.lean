import ZkNote.ClockCalendar

namespace ZkNote.ClockOrder
open Rfc3339 Instants TimestampAcceptance ClockText ClockCalendar

variable {width n s ms : Nat}

theorem padded_digits (some_ : 0 < width) (small : n < 10^width) : Digits width (padded width n) ∧ number (padded width n) = n := by
  have short := (Nat.length_toDigits_le_iff (n := n) (by decide : 1 < 10) some_).mpr small
  refine ⟨⟨?_,?_⟩,?_⟩
  · rw [padded,List.length_append,List.length_replicate]
    omega
  · intro c inside
    rcases List.mem_append.mp inside with zero | digit
    · rw [(List.mem_replicate.mp zero).2]
      rfl
    · exact Nat.isDigit_of_mem_toDigits (by decide) (by decide) digit
  · show Nat.ofDigitChars 10 (padded width n) 0 = n
    rw [padded,Nat.ofDigitChars_append,Nat.ofDigitChars_replicate_zero,Nat.mul_zero,Nat.ofDigitChars_ten_toDigits]

theorem first_day {y : Nat} (is : y = 10000) : yearStart y = 3652425 := by
  have march := march_first y
  have spring : monthStart y 3 = 60 := by rw [is]; rfl
  omega

theorem year_bounds {date : Date} (dated : Dated date) (low : 719529 ≤ dayNumber date) (high : dayNumber date ≤ 719529+2932896) :
    1 ≤ date.year ∧ date.year ≤ 9999 := by
  have month : monthStart date.year date.month+daysInMonth date.year date.month ≤ monthStart date.year 13 := monthStart_last dated.lastMonth
  have day := dated.lastDay
  have firstDay := dated.firstDay
  rw [dayNumber] at low high
  constructor
  · by_contra zero
    have year : date.year = 0 := by omega
    have length : monthStart 0 13 = 366 := rfl
    have start : yearStart 0 = 0 := rfl
    rw [year] at low month day
    omega
  · by_contra beyond
    have later : yearStart 10000 ≤ yearStart date.year := by
      rcases Nat.eq_or_lt_of_le (show 10000 ≤ date.year by omega) with same | less
      · rw [← same]
      · exact (Nat.le_add_right _ _).trans (yearStart_le less)
    rw [first_day rfl] at later
    omega

theorem days_limit {y m : Nat} (low : 1 ≤ m) (high : m ≤ 12) : daysInMonth y m ≤ 31 := by
  interval_cases m <;> simp [daysInMonth]
  split <;> decide

-- Seconds are in the order of their days, and of the minutes and seconds in a day.
theorem clock_order (d d' : Nat) {h h' m m' c c' : Nat} (minute : m < 60) (minute' : m' < 60) (second : c < 60) (second' : c' < 60)
    (time : h*3600+m*60+c < 86400) (time' : h'*3600+m'*60+c' < 86400) :
    (86400*d+(h*3600+m*60+c) < 86400*d'+(h'*3600+m'*60+c') ↔
      d < d' ∨ d = d' ∧ (h*60+m < h'*60+m' ∨ h*60+m = h'*60+m' ∧ c < c')) ∧
    (86400*d+(h*3600+m*60+c) = 86400*d'+(h'*3600+m'*60+c') ↔ d = d' ∧ h*60+m = h'*60+m' ∧ c = c') := by
  constructor <;> omega

-- A reading of the clock: a date of four digits and a time of day.
structure Reading where
  date : Date
  hour : Nat
  minute : Nat
  second : Nat
  millis : Nat
  dated : Dated date
  years : 1 ≤ date.year ∧ date.year ≤ 9999
  hours : hour < 24
  minutes : minute < 60
  seconds : second < 60
  thousandths : millis < 1000

namespace Reading

variable (r : Reading)

theorem year_digits : Digits 4 (padded 4 r.date.year) ∧ number (padded 4 r.date.year) = r.date.year :=
  padded_digits (by decide) (Nat.lt_succ_of_le r.years.2)

theorem month_digits : Digits 2 (padded 2 r.date.month) ∧ number (padded 2 r.date.month) = r.date.month :=
  padded_digits (by decide) (lt_of_le_of_lt r.dated.lastMonth (by decide))

theorem day_digits : Digits 2 (padded 2 r.date.day) ∧ number (padded 2 r.date.day) = r.date.day := by
  apply padded_digits (by decide)
  exact lt_of_le_of_lt (r.dated.lastDay.trans (days_limit r.dated.firstMonth r.dated.lastMonth)) (by decide)

theorem hour_digits : Digits 2 (padded 2 r.hour) ∧ number (padded 2 r.hour) = r.hour :=
  padded_digits (by decide) (r.hours.trans (by decide))

theorem minute_digits : Digits 2 (padded 2 r.minute) ∧ number (padded 2 r.minute) = r.minute :=
  padded_digits (by decide) (r.minutes.trans (by decide))

theorem second_digits : Digits 2 (padded 2 r.second) ∧ number (padded 2 r.second) = r.second :=
  padded_digits (by decide) (r.seconds.trans (by decide))

theorem millis_digits : Digits 3 (padded 3 r.millis) ∧ number (padded 3 r.millis) = r.millis :=
  padded_digits (by decide) r.thousandths

def stamp : Stamp where
  year := padded 4 r.date.year
  month := padded 2 r.date.month
  day := padded 2 r.date.day
  smallT := false
  hour := padded 2 r.hour
  minute := padded 2 r.minute
  second := padded 2 r.second
  fraction := padded 3 r.millis
  zone := .utc false
  yearFit := ⟨r.year_digits.1,r.year_digits.2.symm ▸ r.years.1⟩
  monthFit := ⟨r.month_digits.1,r.month_digits.2.symm ▸ ⟨r.dated.firstMonth,r.dated.lastMonth⟩⟩
  dayFit := by
    rw [r.year_digits.2,r.month_digits.2,r.day_digits.2]
    exact ⟨r.day_digits.1,r.dated.firstDay,r.dated.lastDay⟩
  hourFit := ⟨r.hour_digits.1,r.hour_digits.2.symm ▸ Nat.le_of_lt_succ r.hours⟩
  minuteFit := ⟨r.minute_digits.1,r.minute_digits.2.symm ▸ Nat.le_of_lt_succ r.minutes⟩
  secondFit := ⟨r.second_digits.1,r.second_digits.2.symm ▸ Nat.le_of_lt_succ (r.seconds.trans (by decide))⟩
  fractionFit := r.millis_digits.1.all
  zoneFit := trivial

def text : String :=
  String.ofList (padded 4 r.date.year ++ '-' :: (padded 2 r.date.month ++ '-' :: (padded 2 r.date.day ++ 'T' ::
    (padded 2 r.hour ++ ':' :: (padded 2 r.minute ++ ':' :: (padded 2 r.second ++ '.' :: (padded 3 r.millis ++ ['Z'])))))))

theorem spells : Spells r.stamp r.text := by
  have some_ : padded 3 r.millis ≠ [] := by
    intro none
    have length := r.millis_digits.1.length
    rw [none] at length
    cases length
  rw [Spells,text,String.toList_ofList,Stamp.text,Stamp.tail,stamp,if_neg some_]
  rfl

theorem stamp_days : r.stamp.days = dayNumber r.date := by
  show yearStart (number (padded 4 r.date.year))+monthStart (number (padded 4 r.date.year)) (number (padded 2 r.date.month))+
    number (padded 2 r.date.day) = dayNumber r.date
  rw [r.year_digits.2,r.month_digits.2,r.day_digits.2,dayNumber]

theorem stamp_clock : r.stamp.clock = r.hour*60+r.minute := by
  show number (padded 2 r.hour)*60+number (padded 2 r.minute) = _
  rw [r.hour_digits.2,r.minute_digits.2]

-- Two readings are spelled in the order in which they come.
theorem text_order (r r' : Reading) : r.text < r'.text ↔
    dayNumber r.date < dayNumber r'.date ∨ dayNumber r.date = dayNumber r'.date ∧
      (r.hour*60+r.minute < r'.hour*60+r'.minute ∨ r.hour*60+r.minute = r'.hour*60+r'.minute ∧
        (r.second < r'.second ∨ r.second = r'.second ∧ r.millis < r'.millis)) := by
  have fractions := fraction_order (a := r.stamp) (b := r'.stamp) r.millis_digits.1 r'.millis_digits.1 rfl
  have left : number r.stamp.fraction = r.millis := r.millis_digits.2
  have right : number r'.stamp.fraction = r'.millis := r'.millis_digits.2
  have second : number r.stamp.second = r.second := r.second_digits.2
  have second' : number r'.stamp.second = r'.second := r'.second_digits.2
  have letters : r.stamp.smallT = r'.stamp.smallT := rfl
  rw [spelled_order r.spells r'.spells,Reads,r.stamp_days,r'.stamp_days,r.stamp_clock,r'.stamp_clock,fractions,left,right,second,second',letters]
  simp only [lt_irrefl,false_or,true_and]

end Reading

theorem reading_at (seconds : s ≤ 253402300799) (millis : ms < 1000) :
    ∃ r : Reading, formatRfc3339Parts s ms = some r.text ∧ r.date = daysAfterEpoch (s/86400) ∧
      r.hour*3600+r.minute*60+r.second = s%86400 ∧ r.millis = ms := by
  have inside : s/86400 ≤ 2932896 := Nat.lt_succ_iff.mp (Nat.div_lt_of_lt_mul (by omega))
  have ymd := days_to_ymd inside
  obtain ⟨dated,counted⟩ := epoch_days (s/86400)
  rw [epoch_number] at counted
  have daySecs := Nat.mod_lt s (by decide : 0 < 86400)
  have minSecs := Nat.mod_lt (s%86400) (by decide : 0 < 3600)
  have hourParts := Nat.div_add_mod (s%86400) 3600
  have minuteParts := Nat.div_add_mod (s%86400%3600) 60
  have sameSecond : s%86400%3600%60 = s%86400%60 := Nat.mod_mod_of_dvd _ (by decide)
  refine ⟨⟨daysAfterEpoch (s/86400),s%86400/3600,s%86400%3600/60,s%86400%60,ms,dated,year_bounds dated (by omega) (by omega),
    Nat.div_lt_of_lt_mul (by omega),Nat.div_lt_of_lt_mul (by omega),Nat.mod_lt _ (by decide),millis⟩,?_,rfl,?_,rfl⟩
  · simp only [formatRfc3339Parts]
    rw [ymd,Option.bind_eq_bind,Option.bind_some]
    rfl
  · dsimp only
    omega

theorem clock_text_right (seconds : s ≤ 253402300799) (millis : ms < 1000) :
    (InCalendar (daysAfterEpoch (s/86400)).year (daysAfterEpoch (s/86400)).month (daysAfterEpoch (s/86400)).day ∧
      daysToYmd ((s/86400 : Nat) : Int) =
        some (((daysAfterEpoch (s/86400)).year : Int),(daysAfterEpoch (s/86400)).month,(daysAfterEpoch (s/86400)).day)) ∧
    ∃ text, formatRfc3339Parts s ms = some text ∧ (∀ field, validateRfc3339 field text = .ok ()) ∧
      ∀ s' ms', s' ≤ 253402300799 → ms' < 1000 → ∃ text', formatRfc3339Parts s' ms' = some text' ∧
        (text < text' ↔ s < s' ∨ s = s' ∧ ms < ms') := by
  obtain ⟨r,done,date,time,milli⟩ := reading_at seconds millis
  have counted := (epoch_days (s/86400)).2
  refine ⟨⟨?_,days_to_ymd (Nat.lt_succ_iff.mp (Nat.div_lt_of_lt_mul (by omega)))⟩,r.text,done,?_,?_⟩
  · rw [← date]
    have last := (month_days r.date.year r.date.month r.date.day).mp ⟨⟨r.dated.lastMonth,r.dated.lastDay⟩,r.dated.firstMonth⟩
    exact ⟨r.years.1,r.dated.firstMonth,r.dated.firstDay,last.2⟩
  · intro field
    exact (validated_iff field r.text).mpr (stamp_grammar r.spells)
  · intro s' ms' seconds' millis'
    obtain ⟨r',done',date',time',milli'⟩ := reading_at seconds' millis'
    have counted' := (epoch_days (s'/86400)).2
    refine ⟨r'.text,done',?_⟩
    rw [r.text_order r',date,date',counted,counted',milli,milli']
    have daySecs := Nat.mod_lt s (by decide : 0 < 86400)
    have daySecs' := Nat.mod_lt s' (by decide : 0 < 86400)
    rw [← time] at daySecs
    rw [← time'] at daySecs'
    obtain ⟨less,same⟩ := clock_order (s/86400) (s'/86400) r.minutes r'.minutes r.seconds r'.seconds daySecs daySecs'
    rw [time,time',Nat.div_add_mod,Nat.div_add_mod] at less same
    rw [less,same]
    simp only [Nat.add_lt_add_iff_left,Nat.add_right_inj,and_or_left,or_assoc,and_assoc]

-- Five milliseconds into the leap day of 2000.
theorem leap_day_written : (InCalendar (daysAfterEpoch (951782400/86400)).year (daysAfterEpoch (951782400/86400)).month (daysAfterEpoch (951782400/86400)).day ∧
      daysToYmd ((951782400/86400 : Nat) : Int) =
        some (((daysAfterEpoch (951782400/86400)).year : Int),(daysAfterEpoch (951782400/86400)).month,(daysAfterEpoch (951782400/86400)).day)) ∧
    ∃ text, formatRfc3339Parts 951782400 5 = some text ∧ (∀ field, validateRfc3339 field text = .ok ()) ∧
      ∀ s' ms', s' ≤ 253402300799 → ms' < 1000 → ∃ text', formatRfc3339Parts s' ms' = some text' ∧
        (text < text' ↔ 951782400 < s' ∨ 951782400 = s' ∧ 5 < ms') :=
  clock_text_right (by decide) (by decide)

end ZkNote.ClockOrder
