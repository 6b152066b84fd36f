import Mathlib.Tactic

/-!
Setting and reading the clock. `_gmtime` takes a time apart by loops over the years and the months;
`to_unix_time` puts it together as if every fourth year had 366 days (`clock_round_trip_iff`).
-/
namespace Netbas.Clock
structure Tm where
 sec : Nat
 min : Nat
 hour : Nat
 day : Nat
 month : Nat
 year : Nat
 dayofweek : Nat
 yday : Nat
 isdst : Nat
 tm_gmtoff : Int
deriving DecidableEq
def YEAR0 : Nat := 1900
def EPOCH_YR : Nat := 1970
def SECS_DAY : Nat := 24 * 60 * 60
def LEAPYEAR (year : Nat) : Bool := year % 4 = 0 ∧ (year % 100 ≠ 0 ∨ year % 400 = 0)
def YEARSIZE (year : Nat) : Nat := if LEAPYEAR year then 366 else 365
variable (leap : Bool)
def ytab (month : Nat) : Nat :=
 (if leap then [31,29,31,30,31,30,31,31,30,31,30,31] else [31,28,31,30,31,30,31,31,30,31,30,31]).getD month 0

/-- The first loop of `_gmtime`. Every turn takes a year from `dayno`, so that `dayno` turns are enough. -/
def peel_years : Nat -> Nat -> Nat -> Nat × Nat
 | 0, year, dayno => (year,dayno)
 | fuel + 1, year, dayno =>
  if YEARSIZE year ≤ dayno then peel_years fuel (year + 1) (dayno - YEARSIZE year) else (year,dayno)
def peel_months (leap : Bool) : Nat -> Nat -> Nat -> Nat × Nat
 | 0, month, dayno => (month,dayno)
 | fuel + 1, month, dayno =>
  if ytab leap month ≤ dayno then peel_months leap fuel (month + 1) (dayno - ytab leap month) else (month,dayno)

/-- The day of the month goes to `yday`; `day`, and the offset, are not set. -/
def gmtime (time : Nat) (tmbuf : Tm) : Tm :=
 let dayclock := time % SECS_DAY
 let dayno := time / SECS_DAY
 let (year,dayno') := peel_years dayno EPOCH_YR dayno
 let (month,dayno'') := peel_months (LEAPYEAR year) 12 0 dayno'
 { tmbuf with
   sec := dayclock % 60
   min := dayclock % 3600 / 60
   hour := dayclock / 3600
   dayofweek := (dayno + 4) % 7
   year := year - YEAR0
   month := month
   yday := dayno'' + 1
   isdst := 0 }
abbrev Cmos := Nat -> UInt8
variable (cmos : Cmos)
def write_bcd_cmos_reg (reg val : Nat) : Cmos :=
 let val := val % 256
 Function.update cmos reg (UInt8.ofNat (((val / 10) <<< 4) + val % 10))
def set_cmos_time (tm : Tm) : Cmos :=
 let cmos := write_bcd_cmos_reg cmos 0x09 (tm.year % 100)
 let cmos := write_bcd_cmos_reg cmos 0x32 ((tm.year + 1900) / 100)
 let cmos := write_bcd_cmos_reg cmos 0x08 (tm.month + 1)
 let cmos := write_bcd_cmos_reg cmos 0x07 tm.yday
 let cmos := write_bcd_cmos_reg cmos 0x04 tm.hour
 let cmos := write_bcd_cmos_reg cmos 0x02 tm.min
 write_bcd_cmos_reg cmos 0x00 tm.sec
def zeroed : Tm := ⟨0,0,0,0,0,0,0,0,0,0⟩
def set_time (tv_sec : Nat) : Cmos := set_cmos_time cmos (gmtime tv_sec zeroed)
def BCD2BIN (var : Nat) : Nat := ((var >>> 4) &&& 0x0f) * 10 + (var &&& 0x0f)
def cmos_read (pos : Nat) : Nat := (cmos pos).toNat
def get_date (time : Tm) : Tm :=
 { time with
   tm_gmtoff := BCD2BIN (cmos_read cmos 0x32)
   dayofweek := BCD2BIN (cmos_read cmos 6)
   day := BCD2BIN (cmos_read cmos 7)
   month := BCD2BIN (cmos_read cmos 8)
   year := BCD2BIN (cmos_read cmos 9) }
def get_time (time : Tm) : Tm :=
 { time with
   sec := BCD2BIN (cmos_read cmos 0)
   min := BCD2BIN (cmos_read cmos 2)
   hour := BCD2BIN (cmos_read cmos 4) }
def do_gettime (toget : Tm) : Tm := get_time cmos (get_date cmos toget)
def get_gmtoff : Nat := BCD2BIN (cmos_read cmos 0x32)
def MINUTE : Int := 60
def HOUR : Int := MINUTE * 60
def DAY : Int := HOUR * 24
def YEAR : Int := DAY * 365
def monthDays (month : Nat) : Int := [0,31,60,91,121,152,182,213,244,274,305,335].getD month 0
def to_unix_time (time : Tm) : Int :=
 let n := time.tm_gmtoff
 let n := if n < 0 then (get_gmtoff cmos : Int) else n
 let year := (time.year + n * 100 - 1970) % 2^32
 let ret := year * YEAR + DAY * ((year + 1) % 2^32 / 4)
 let ret := ret + DAY * monthDays (time.month - 1)
 let ret := if 2 < time.month ∧ (year + 2) % 2^32 % 4 ≠ 0 then ret - DAY else ret
 (ret + DAY * (time.day - 1) + HOUR * time.hour + MINUTE * time.min + time.sec) % 2^32
def get_unix_time : Int := to_unix_time cmos (do_gettime cmos zeroed)
def daysBefore (year : Nat) : Nat := 365 * (year - 1970) + (year - 1969) / 4 - (if 2100 < year then 1 else 0)

variable {year : Nat}
lemma leapyear_iff (low : 1970 ≤ year) (high : year < 2200) :
 LEAPYEAR year = true ↔ year % 4 = 0 ∧ year ≠ 2100 := by
 rw [LEAPYEAR,decide_eq_true_eq]
 omega
lemma daysBefore_succ (low : 1970 ≤ year) (high : year < 2200) :
 daysBefore (year + 1) = daysBefore year + YEARSIZE year := by
 have leap := leapyear_iff low high
 rw [daysBefore,daysBefore,YEARSIZE]
 split_ifs <;> simp_all <;> omega
lemma year_lt (early : daysBefore year < daysBefore 2200) : year < 2200 := by
 rw [daysBefore,show daysBefore 2200 = 84006 by decide] at early
 split_ifs at early <;> omega
lemma yearsize_pos (year : Nat) : 0 < YEARSIZE year := by
 rw [YEARSIZE]
 split_ifs <;> decide
lemma peel_years_spec (fuel : Nat) : ∀ (year dayno : Nat), 1970 ≤ year -> dayno ≤ fuel ->
 daysBefore year + dayno < daysBefore 2200 ->
 ∃ year' dayno', peel_years fuel year dayno = (year',dayno') ∧ 1970 ≤ year' ∧ year' < 2200 ∧
  dayno' < YEARSIZE year' ∧ daysBefore year' + dayno' = daysBefore year + dayno := by
 induction fuel with
 | zero =>
  intro year dayno low enough bound
  have pos := yearsize_pos year
  exact ⟨year,dayno,rfl,low,year_lt (by omega),by omega,rfl⟩
 | succ fuel ih =>
  intro year dayno low enough bound
  have pos := yearsize_pos year
  have high : year < 2200 := year_lt (by omega)
  rw [peel_years]
  by_cases whole : YEARSIZE year ≤ dayno
  · have next := daysBefore_succ low high
    rw [if_pos whole]
    obtain ⟨year',dayno',peeled,low',high',rest,eq⟩ := ih (year + 1) (dayno - YEARSIZE year) (by omega) (by omega) (by omega)
    exact ⟨year',dayno',peeled,low',high',rest,by omega⟩
  rw [if_neg whole]
  exact ⟨year,dayno,rfl,low,high,by omega,rfl⟩
def daysBeforeMonth (month : Nat) : Nat := ((List.range month).map (ytab leap)).sum
lemma daysBeforeMonth_succ (month : Nat) :
 daysBeforeMonth leap (month + 1) = daysBeforeMonth leap month + ytab leap month := by
 simp [daysBeforeMonth,List.range_succ]
lemma peel_months_spec (fuel : Nat) : ∀ (month dayno : Nat), month + fuel = 12 ->
 daysBeforeMonth leap month + dayno < daysBeforeMonth leap 12 ->
 ∃ month' dayno', peel_months leap fuel month dayno = (month',dayno') ∧ month' < 12 ∧ dayno' < ytab leap month' ∧
  daysBeforeMonth leap month' + dayno' = daysBeforeMonth leap month + dayno := by
 induction fuel with
 | zero =>
  intro month dayno all bound
  obtain rfl : month = 12 := all
  omega
 | succ fuel ih =>
  intro month dayno all bound
  rw [peel_months]
  by_cases whole : ytab leap month ≤ dayno
  · have next := daysBeforeMonth_succ leap month
    rw [if_pos whole]
    obtain ⟨month',dayno',peeled,mem,rest,eq⟩ := ih (month + 1) (dayno - ytab leap month) (by omega) (by omega)
    exact ⟨month',dayno',peeled,mem,rest,by omega⟩
  rw [if_neg whole]
  exact ⟨month,dayno,rfl,by omega,by omega,rfl⟩
lemma yearsize_eq (year : Nat) : YEARSIZE year = daysBeforeMonth (LEAPYEAR year) 12 := by
 rw [YEARSIZE]
 cases LEAPYEAR year <;> decide
lemma ytab_le (month : Nat) (mem : month < 12) : ytab leap month ≤ 31 := by
 cases leap <;> interval_cases month <;> decide

variable {month : Nat}
lemma monthDays_eq (mem : month < 12) :
 monthDays month = daysBeforeMonth leap month + if 2 ≤ month ∧ leap = false then 1 else 0 := by
 cases leap <;> interval_cases month <;> decide
structure Parts (time year month day : Nat) : Prop where
 low : 1970 ≤ year
 high : year < 2200
 inYear : month < 12
 inMonth : day < ytab (LEAPYEAR year) month
 within : daysBeforeMonth (LEAPYEAR year) month + day < YEARSIZE year
 days : time / SECS_DAY = daysBefore year + daysBeforeMonth (LEAPYEAR year) month + day

variable {time : Nat}
lemma gmtime_spec (small : time < 2^32) (tmbuf : Tm) :
  ∃ year month day, Parts time year month day ∧ gmtime time tmbuf =
   { tmbuf with
     sec := time % SECS_DAY % 60
     min := time % SECS_DAY % 3600 / 60
     hour := time % SECS_DAY / 3600
     dayofweek := (time / SECS_DAY + 4) % 7
     year := year - YEAR0
     month := month
     yday := day + 1
     isdst := 0 } := by
 have few : daysBefore EPOCH_YR + time / SECS_DAY < daysBefore 2200 := by
  rw [show daysBefore 2200 = 84006 by decide,show daysBefore EPOCH_YR = 0 by decide,SECS_DAY]
  omega
 obtain ⟨year,dayno,years,low,high,inYear,eq⟩ :=
  peel_years_spec (time / SECS_DAY) EPOCH_YR (time / SECS_DAY) (by decide) le_rfl few
 rw [yearsize_eq] at inYear
 obtain ⟨month,day,months,mem,inMonth,same'⟩ :=
  peel_months_spec (LEAPYEAR year) 12 0 dayno rfl (by simpa [daysBeforeMonth] using inYear)
 rw [show daysBefore EPOCH_YR = 0 by decide] at eq
 rw [show daysBeforeMonth (LEAPYEAR year) 0 = 0 by rfl] at same'
 refine ⟨year,month,day,⟨low,high,mem,inMonth,by rw [yearsize_eq]; omega,by omega⟩,?_⟩
 simp only [gmtime,years,months]
lemma bcd_round_trip {val : Nat} (small : val < 100) :
 BCD2BIN (UInt8.ofNat (((val % 256 / 10) <<< 4) + val % 256 % 10)).toNat = val := by
 interval_cases val <;> decide
lemma read_written (reg : Nat) {val : Nat} (small : val < 100) :
 BCD2BIN (cmos_read (write_bcd_cmos_reg cmos reg val) reg) = val := by
 rw [cmos_read,write_bcd_cmos_reg,Function.update_self]
 exact bcd_round_trip small
lemma read_other {reg other : Nat} (val : Nat) (ne : other ≠ reg) :
 cmos_read (write_bcd_cmos_reg cmos reg val) other = cmos_read cmos other := by
 rw [cmos_read,cmos_read,write_bcd_cmos_reg,Function.update_of_ne ne]
lemma do_gettime_set (tm : Tm) (sec : tm.sec < 60) (min : tm.min < 60) (hour : tm.hour < 24)
  (day : tm.yday ≤ 31) (month : tm.month < 12) (year : tm.year < 300) :
  ∃ dayofweek, do_gettime (set_cmos_time cmos tm) zeroed =
   { zeroed with
     sec := tm.sec
     min := tm.min
     hour := tm.hour
     day := tm.yday
     month := tm.month + 1
     year := tm.year % 100
     dayofweek := dayofweek
     tm_gmtoff := ((tm.year + 1900) / 100 : Nat) } := by
 refine ⟨BCD2BIN (cmos_read cmos 6),?_⟩
 simp only [do_gettime,get_time,get_date,set_cmos_time]
 -- each register is read through the writes that came after its own
 have seconds : BCD2BIN (cmos_read (set_cmos_time cmos tm) 0) = tm.sec := by
  rw [set_cmos_time,read_written _ _ (by omega)]
 have minutes : BCD2BIN (cmos_read (set_cmos_time cmos tm) 2) = tm.min := by
  rw [set_cmos_time,read_other _ _ (by decide),read_written _ _ (by omega)]
 have hours : BCD2BIN (cmos_read (set_cmos_time cmos tm) 4) = tm.hour := by
  rw [set_cmos_time,read_other _ _ (by decide),read_other _ _ (by decide),read_written _ _ (by omega)]
 have days : BCD2BIN (cmos_read (set_cmos_time cmos tm) 7) = tm.yday := by
  rw [set_cmos_time]
  iterate 3 rw [read_other _ _ (by decide)]
  rw [read_written _ _ (by omega)]
 have months : BCD2BIN (cmos_read (set_cmos_time cmos tm) 8) = tm.month + 1 := by
  rw [set_cmos_time]
  iterate 4 rw [read_other _ _ (by decide)]
  rw [read_written _ _ (by omega)]
 have century : BCD2BIN (cmos_read (set_cmos_time cmos tm) 0x32) = (tm.year + 1900) / 100 := by
  rw [set_cmos_time]
  iterate 5 rw [read_other _ _ (by decide)]
  rw [read_written _ _ (by omega)]
 have years : BCD2BIN (cmos_read (set_cmos_time cmos tm) 9) = tm.year % 100 := by
  rw [set_cmos_time]
  iterate 6 rw [read_other _ _ (by decide)]
  rw [read_written _ _ (by omega)]
 have weekday : cmos_read (set_cmos_time cmos tm) 6 = cmos_read cmos 6 := by
  rw [set_cmos_time]
  iterate 7 rw [read_other _ _ (by decide)]
 rw [set_cmos_time] at seconds minutes hours days months century years weekday
 rw [seconds,minutes,hours,days,months,century,years,weekday]
def ahead (year month : Nat) : Int := if 2100 < year ∨ year = 2100 ∧ 2 ≤ month then 1 else 0
lemma closed_form {day : Nat} (parts : Parts time year month day) :
 365 * ((year : Int) - 1970) + ((year : Int) - 1970 + 1) / 4 + monthDays month -
  (if 2 ≤ month ∧ ((year : Int) - 1970 + 2) % 4 ≠ 0 then 1 else 0) + day =
  (time / SECS_DAY : Nat) + ahead year month := by
 have leap := leapyear_iff parts.low parts.high
 have low := parts.low
 rw [parts.days,monthDays_eq (LEAPYEAR year) parts.inYear,daysBefore,ahead]
 generalize daysBeforeMonth (LEAPYEAR year) month = pre
 cases kind : LEAPYEAR year with
 | true =>
  obtain ⟨fourth,ne⟩ := leap.mp kind
  rw [if_neg (by omega : ¬ (2 ≤ month ∧ ((year : Int) - 1970 + 2) % 4 ≠ 0)),if_neg (by simp : ¬ (2 ≤ month ∧ true = false))]
  split_ifs <;> omega
 | false =>
  have fourth : ¬ (year % 4 = 0 ∧ year ≠ 2100) := by
   rw [<- leap,kind]
   decide
  simp only [and_true]
  split_ifs <;> omega
lemma get_unix_time_set (small : time < 2^32) :
 ∃ year month day, Parts time year month day ∧
  get_unix_time (set_time cmos time) = (time + DAY * ahead year month) % 2^32 := by
 obtain ⟨year,month,day,parts,ne⟩ := gmtime_spec small zeroed
 refine ⟨year,month,day,parts,?_⟩
 have low := parts.low
 have high := parts.high
 have clock : time % SECS_DAY < 86400 := Nat.mod_lt _ (by decide)
 obtain ⟨dayofweek,read⟩ := do_gettime_set cmos (gmtime time zeroed)
  (by rw [ne]; exact Nat.mod_lt _ (by decide))
  (by rw [ne]; show time % SECS_DAY % 3600 / 60 < 60; omega)
  (by rw [ne]; show time % SECS_DAY / 3600 < 24; omega)
  (by rw [ne]; exact parts.inMonth.trans_le (ytab_le _ month parts.inYear))
  (by rw [ne]; exact parts.inYear)
  (by rw [ne]; show year - 1900 < 300; omega)
 rw [ne] at read
 simp only at read
 rw [get_unix_time,set_time,ne,read,to_unix_time]
 -- the two registers of the year give it back
 have year_eq : (((year - YEAR0) % 100 : Nat) : Int) + (((year - YEAR0 + 1900) / 100 : Nat) : Int) * 100 - 1970 =
   (year : Int) - 1970 := by
  rw [YEAR0]
  omega
 have century : ¬ (((year - YEAR0 + 1900) / 100 : Nat) : Int) < 0 := by omega
 simp only [century,if_false,year_eq]
 rw [Int.emod_eq_of_lt (by omega : 0 ≤ (year : Int) - 1970) (by omega),
  Int.emod_eq_of_lt (by omega : 0 ≤ (year : Int) - 1970 + 1) (by omega),
  Int.emod_eq_of_lt (by omega : 0 ≤ (year : Int) - 1970 + 2) (by omega)]
 have days := closed_form parts
 have whole : (time : Int) = 86400 * (time / SECS_DAY : Nat) + (time % SECS_DAY : Nat) := by
  have := Nat.div_add_mod time SECS_DAY
  rw [SECS_DAY] at *
  omega
 congr 1
 rw [whole]
 have later : 2 < month + 1 ↔ 2 ≤ month := by omega
 simp only [Nat.add_sub_cancel,DAY,HOUR,MINUTE,YEAR,later]
 split_ifs at days ⊢ <;> push_cast <;> omega
lemma daysBefore_mono {later : Nat} (order : year ≤ later) : daysBefore year ≤ daysBefore later := by
 rw [daysBefore,daysBefore]
 split_ifs <;> omega
lemma ahead_iff {day : Nat} (parts : Parts time year month day) :
 2100 < year ∨ year = 2100 ∧ 2 ≤ month ↔ 47541 ≤ time / SECS_DAY := by
 have days := parts.days
 have within := parts.within
 have day := parts.inMonth
 have fst : daysBefore 2100 = 47482 := by decide
 rcases lt_trichotomy year 2100 with pre | rfl | after
 · have next := daysBefore_succ parts.low parts.high
   have := daysBefore_mono (show year + 1 ≤ 2100 from pre)
   constructor
   · rintro (late | ⟨eq,_⟩) <;> omega
   intro late
   omega
 · rw [show LEAPYEAR 2100 = false by decide] at days day
   have mem := parts.inYear
   constructor
   · rintro (late | ⟨_,march⟩)
     · omega
     have spring : 59 ≤ daysBeforeMonth false month := by
      clear days day
      interval_cases month <;> decide
     omega
   intro late
   by_contra early
   obtain rfl | rfl : month = 0 ∨ month = 1 := by omega
   · rw [show daysBeforeMonth false 0 = 0 by rfl] at days
     rw [show ytab false 0 = 31 by rfl] at day
     omega
   rw [show daysBeforeMonth false 1 = 31 by rfl] at days
   rw [show ytab false 1 = 28 by rfl] at day
   omega
 have := daysBefore_mono (show 2101 ≤ year from after)
 have snd : daysBefore 2101 = 47847 := by decide
 constructor
 · intro _
   omega
 intro _
 exact .inl after

/-- The times that come back from the clock are those before 1 March 2100. -/
theorem clock_round_trip_iff (time : UInt32) :
 get_unix_time (set_time cmos time.toNat) = time.toNat ↔ time.toNat < 4107542400 := by
 obtain ⟨year,month,day,parts,back⟩ := get_unix_time_set cmos time.toNat_lt
 have late := ahead_iff parts
 have small := time.toNat_lt
 rw [SECS_DAY] at late
 rw [back,ahead,show DAY = 86400 by decide]
 by_cases after : 2100 < year ∨ year = 2100 ∧ 2 ≤ month
 · have := late.mp after
   rw [if_pos after]
   omega
 have := mt late.mpr after
 rw [if_neg after]
 omega
theorem march_2100 : get_unix_time (set_time (fun _ => 0) 4107542400) = 4107628800 := by
 decide +kernel

end Netbas.Clock
