import EfiLvgl.Lib.Calendar
import Mathlib.Data.UInt

/-!
# EfiLvgl.Time.Timeutils — seconds since 2000 and back

`EFI_TIME`, and the functions of `timeutils.c` on words of 64 bits. Divisions of signed numbers
truncate, as in C, and what comes out is mended afterwards.

`secondsToStructTime_eq`: the seconds of a real day are turned back into it.
-/

namespace EfiLvgl.Time

open EfiLvgl.Calendar

/-! ## Data -/

/-- `EFI_TIME`, the fields that are read. -/
structure EfiTime where
  year : UInt16
  month : UInt8
  day : UInt8
  hour : UInt8
  minute : UInt8
  second : UInt8
  nanosecond : UInt32
  deriving DecidableEq, Repr

/-- What `GetTime` hands back: a day that the calendar has, and a time of it. -/
structure EfiTime.Valid (t : EfiTime) : Prop where
  year_ge : 1900 ≤ t.year.toNat
  year_le : t.year.toNat ≤ 9999
  real : RealDay t.year.toNat t.month.toNat t.day.toNat
  hour_lt : t.hour.toNat < 24
  minute_lt : t.minute.toNat < 60
  second_lt : t.second.toNat < 60
  nanosecond_lt : t.nanosecond.toNat < 1000000000

/-- `mp_uint_t`. -/
def mpUint (z : Int) : Int := z % 2 ^ 64

/-- A word as `mp_int_t`. -/
def mpInt (z : Int) : Int := if mpUint z < 2 ^ 63 then mpUint z else mpUint z - 2 ^ 64

/-- `timeutils_struct_time_t`. -/
structure StructTime where
  tmYear : UInt16
  tmMon : UInt8
  tmMday : UInt8
  tmHour : UInt8
  tmMin : UInt8
  tmSec : UInt8
  tmWday : UInt8
  tmYday : UInt16
  deriving DecidableEq, Repr

/-! ## `timeutils.c` -/

def leapoch : Int := (31 + 29) * 86400

def daysPer400Y : Int := 365 * 400 + 97
def daysPer100Y : Int := 365 * 100 + 24
def daysPer4Y : Int := 365 * 4 + 1

def daysSinceJan1 : List Int := [0, 31, 59, 90, 120, 151, 181, 212, 243, 273, 304, 334, 365]

/-- `timeutils_is_leap_year`. -/
def timeutilsIsLeapYear (year : Int) : Bool :=
  (year % 4 = 0 && year % 100 ≠ 0) || year % 400 = 0

/-- `timeutils_year_day`. -/
def timeutilsYearDay (year month date : Int) : Int :=
  let yday := daysSinceJan1.getD (month - 1).toNat 0 + date
  if 3 ≤ month ∧ timeutilsIsLeapYear year then mpUint (yday + 1) else mpUint yday

/-- `timeutils_seconds_since_2000`; only differences and quotients are cut to a word on the way. -/
def timeutilsSecondsSince2000 (year month date hour minute second : Int) : Int :=
  mpUint (second + minute * 60 + hour * 3600 +
    (timeutilsYearDay year month date - 1 + mpUint (year - 2000 + 3) / 4 -
      mpUint (year - 2000 + 99) / 100 + mpUint (year - 2000 + 399) / 400) * 86400 +
    (year - 2000) * 31536000)

/-- A truncating division, after which a negative remainder is mended. -/
def divMod (x n : Int) : Int × Int :=
  if x.tmod n < 0 then (x.tdiv n - 1, x.tmod n + n) else (x.tdiv n, x.tmod n)

/-- A number of cycles and what is left; one cycle too many is given back. -/
def cappedDiv (x n cap : Int) : Int × Int :=
  let cycles := if x.tdiv n = cap then x.tdiv n - 1 else x.tdiv n
  (cycles, x - cycles * n)

/-- `days_in_month`; March is 0. -/
def daysInMonth : List Int := [31, 30, 31, 30, 31, 31, 30, 31, 30, 31, 31, 29]

/-- The loop over the months: the month, and the days that are left. -/
def monthLoop (month : Int) (days : Int) : List Int → Int × Int
  | [] => (month, days)
  | n :: table => if n ≤ days then monthLoop (month + 1) (days - n) table else (month, days)

/-- The year that begins in March, and the day of it. -/
def yearOfDays (days : Int) : Int × Int :=
  let (qcCycles, days) := divMod days daysPer400Y
  let (cCycles, days) := cappedDiv days daysPer100Y 4
  let (qCycles, days) := cappedDiv days daysPer4Y 25
  let (years, days) := cappedDiv days 365 4
  (2000 + years + 4 * qCycles + 100 * cCycles + 400 * qcCycles, days)

/-- `timeutils_seconds_since_2000_to_struct_time`. -/
def secondsToStructTime (t : Int) : StructTime :=
  let (days, seconds) := divMod (mpInt (t - leapoch)) 86400
  let (_, wday) := divMod (days + 2) 7
  let (year, yearDays) := yearOfDays days
  let (month, monthDays) := monthLoop 0 yearDays daysInMonth
  let (mon, year) := if 12 ≤ month + 2 then (month + 2 - 12, year + 1) else (month + 2, year)
  let tmYear := UInt16.ofInt year
  let tmMon := UInt8.ofInt (mon + 1)
  let tmMday := UInt8.ofInt (monthDays + 1)
  { tmYear := tmYear
    tmMon := tmMon
    tmMday := tmMday
    tmHour := UInt8.ofInt (seconds.tdiv 3600)
    tmMin := UInt8.ofInt ((seconds.tdiv 60).tmod 60)
    tmSec := UInt8.ofInt (seconds.tmod 60)
    tmWday := UInt8.ofInt wday
    tmYday := UInt16.ofInt
      (timeutilsYearDay tmYear.toNat tmMon.toNat tmMday.toNat) }

/-! ## Divisions -/

theorem divMod_eq (x : Int) {n : Int} (hn : 0 < n) : divMod x n = (x / n, x % n) := by
  have hnonneg := Int.emod_nonneg x (Int.ne_of_gt hn)
  have hlt := Int.emod_lt_of_pos x hn
  have habs : (n.natAbs : Int) = n := Int.natAbs_of_nonneg hn.le
  rw [divMod, Int.tdiv_eq_ediv, Int.tmod_eq_emod, Int.sign_eq_one_of_pos hn]
  by_cases hexact : 0 ≤ x ∨ n ∣ x
  · rw [if_pos hexact, if_pos hexact, Int.natCast_zero, Int.sub_zero, Int.add_zero,
      if_neg (Int.not_lt.mpr hnonneg)]
  · rw [if_neg hexact, if_neg hexact, habs, if_pos (by omega), Int.add_sub_cancel,
      Int.sub_add_cancel]

/-- So many cycles, the last of which may be one longer. -/
theorem cappedDiv_eq {n cap c r : Int} (hn : 0 < n) (hc : 0 ≤ c) (hlt : c < cap) (hr : 0 ≤ r)
    (hlast : r < n ∨ r = n ∧ c + 1 = cap) : cappedDiv (n * c + r) n cap = (c, r) := by
  have hnonneg : 0 ≤ n * c + r := Int.add_nonneg (Int.mul_nonneg hn.le hc) hr
  have hrest : n * c + r - c * n = r := by
    rw [Int.mul_comm c n, add_sub_cancel_left]
  have hdiv : (n * c + r) / n = c + r / n := by
    rw [Int.add_comm, Int.add_mul_ediv_left r c hn.ne', Int.add_comm]
  rw [cappedDiv, Int.tdiv_eq_ediv_of_nonneg hnonneg, hdiv]
  rcases hlast with hshort | ⟨hlong, hcap⟩
  · rw [Int.ediv_eq_zero_of_lt hr hshort, Int.add_zero, if_neg hlt.ne, hrest]
  · have hone : r / n = 1 := by rw [hlong, Int.ediv_self hn.ne']
    rw [hone, if_pos hcap, Int.add_sub_cancel, hrest]

/-- The cycles of a year, and the day of it; only the last year of a cycle has a day more. -/
theorem yearOfDays_eq {years q c b a day : Nat} (h : Cycles years q c b a) (hday : day ≤ 365)
    (hlong : day = 365 → Leap (years + 1)) :
    yearOfDays ((146097 * q + 36524 * c + 1461 * b + 365 * a + day : Nat) - 730485) =
      ((years : Int), (day : Int)) := by
  have hlast : day = 365 → a = 3 ∧ (b = 24 → c = 3) := fun heq => h.leap_succ.mp (hlong heq)
  rcases h with ⟨heq, hc, hb, ha⟩
  have hqc : divMod ((146097 * q + 36524 * c + 1461 * b + 365 * a + day : Nat) - 730485)
      daysPer400Y = ((q : Int) - 5, daysPer100Y * c + (1461 * b + 365 * a + day : Nat)) := by
    rw [divMod_eq _ (by decide), daysPer400Y, daysPer100Y, Prod.mk.injEq]
    constructor
    · omega
    · omega
  -- each cycle is divided out in turn; the cap keeps the leap day at its end inside
  have hcCycles : cappedDiv (daysPer100Y * c + (1461 * b + 365 * a + day : Nat)) daysPer100Y 4 =
      ((c : Int), daysPer4Y * b + (365 * a + day : Nat)) := by
    rw [cappedDiv_eq (by decide) (by omega) (by omega) (by omega)
      (by rw [daysPer100Y]; omega), daysPer4Y, Prod.mk.injEq]
    exact ⟨rfl, by omega⟩
  have hqCycles : cappedDiv (daysPer4Y * b + (365 * a + day : Nat)) daysPer4Y 25 =
      ((b : Int), 365 * (a : Int) + day) := by
    rw [cappedDiv_eq (by decide) (by omega) (by omega) (by omega)
      (by rw [daysPer4Y]; omega), Prod.mk.injEq]
    exact ⟨rfl, by omega⟩
  have hyears : cappedDiv (365 * (a : Int) + day) 365 4 = ((a : Int), (day : Int)) :=
    cappedDiv_eq (by decide) (by omega) (by omega) (by omega) (by omega)
  simp only [yearOfDays, hqc, hcCycles, hqCycles, hyears, Prod.mk.injEq, and_true]
  omega

/-- The month whose days are not all over. -/
theorem monthLoop_append (before : List Nat) (n : Nat) (rest : List Nat) (month : Int) {day : Nat}
    (hday : day < n) :
    monthLoop month ((before.sum + day : Nat) : Int) ((before ++ n :: rest).map Nat.cast) =
      (month + before.length, (day : Int)) := by
  induction before generalizing month with
  | nil =>
      simp only [List.sum_nil, Nat.zero_add, List.nil_append, List.map_cons, monthLoop]
      rw [if_neg (by omega), List.length_nil]
      simp
  | cons k before ih =>
      have hrest : ((k + before.sum + day : Nat) : Int) - k = ((before.sum + day : Nat) : Int) := by
        omega
      simp only [List.sum_cons, List.cons_append, List.map_cons, monthLoop]
      rw [if_pos (by omega), hrest, ih, List.length_cons]
      push_cast
      rw [Int.add_assoc, Int.add_comm 1]

theorem monthLoop_daysInMonth {month day : Nat} (hmonth : month < 12)
    (hday : day < marchDays.getD month 0) :
    monthLoop 0 ((daysBefore month + day : Nat) : Int) daysInMonth = ((month : Int), (day : Int)) := by
  have htable : daysInMonth = marchDays.map Nat.cast := by decide
  have hlt : month < marchDays.length := hmonth
  have hsplit : marchDays = marchDays.take month ++ marchDays.getD month 0 ::
      marchDays.drop (month + 1) := by
    rw [← List.getElem_eq_getD (h := hlt) 0, ← List.drop_eq_getElem_cons hlt, List.take_append_drop]
  have hloop := monthLoop_append (marchDays.take month) (marchDays.getD month 0)
    (marchDays.drop (month + 1)) 0 hday
  rw [htable, daysBefore_eq hmonth]
  rw [← hsplit, List.length_take, min_eq_left hlt.le, Int.zero_add] at hloop
  exact hloop

/-! ## Days since 2000 -/

theorem mpUint_of_lt {z : Int} (hz : 0 ≤ z) (hlt : z < 2 ^ 64) : mpUint z = z :=
  Int.emod_eq_of_lt hz hlt

theorem mpInt_of_lt {z : Int} (hz : -2 ^ 63 ≤ z) (hlt : z < 2 ^ 63) : mpInt z = z := by
  rw [mpInt, mpUint]
  split
  · omega
  · omega

theorem timeutilsIsLeapYear_eq (year : Nat) : timeutilsIsLeapYear year = decide (Leap year) := by
  rw [timeutilsIsLeapYear, Bool.eq_iff_iff, decide_eq_true_iff, Leap, Bool.or_eq_true,
    Bool.and_eq_true, decide_eq_true_iff, decide_eq_true_iff, decide_eq_true_iff]
  omega

/-- What the table says, in years that begin in March. -/
theorem daysSinceJan1_eq {month : Nat} (hpos : 1 ≤ month) (hle : month ≤ 12) :
    daysSinceJan1.getD ((month : Int) - 1).toNat 0 =
      if month ≤ 2 then (daysBefore (marchMonth month) : Int) - 306
      else (daysBefore (marchMonth month) : Int) + 59 := by
  interval_cases month <;> decide

theorem daysSinceJan1_le {month : Nat} (hpos : 1 ≤ month) (hle : month ≤ 12) :
    0 ≤ daysSinceJan1.getD ((month : Int) - 1).toNat 0 ∧
      daysSinceJan1.getD ((month : Int) - 1).toNat 0 ≤ 334 := by
  interval_cases month <;> decide

/-- The day of the year is no more than the table and the leap day add up to. -/
theorem timeutilsYearDay_eq {year month day : Nat} (h : RealDay year month day) :
    timeutilsYearDay year month day =
      daysSinceJan1.getD ((month : Int) - 1).toNat 0 + day +
        if 3 ≤ month ∧ Leap year then 1 else 0 := by
  have htable := daysSinceJan1_le h.month_pos h.month_le
  have hday := h.day_le_31
  have hmarch : 3 ≤ (month : Int) ↔ 3 ≤ month := by omega
  rw [timeutilsYearDay, timeutilsIsLeapYear_eq]
  simp only [hmarch, decide_eq_true_eq]
  split
  · rw [mpUint_of_lt (by omega) (by omega)]
  · rw [mpUint_of_lt (by omega) (by omega), Int.add_zero]

theorem timeutilsYearDay_bounds {year month day : Nat} (h : RealDay year month day) :
    0 ≤ timeutilsYearDay year month day ∧ timeutilsYearDay year month day ≤ 366 := by
  have htable := daysSinceJan1_le h.month_pos h.month_le
  have hday := h.day_le_31
  rw [timeutilsYearDay_eq h]
  split
  · omega
  · omega

/-- The days that the formula adds are those of the leap years that are over. -/
theorem leapDays_eq {year : Nat} (hyear : 2000 ≤ year) (hle : year ≤ 9999) :
    mpUint (year - 2000 + 3) / 4 - mpUint (year - 2000 + 99) / 100 +
        mpUint (year - 2000 + 399) / 400 =
      (leaps (year - 1) : Int) - 484 := by
  rw [mpUint_of_lt (by omega) (by omega), mpUint_of_lt (by omega) (by omega),
    mpUint_of_lt (by omega) (by omega), leaps]
  omega

/-- The number of a day, counted from 1 January 2000 on. -/
theorem daysSince2000_eq {year month day : Nat} (h : RealDay year month day)
    (hyear : 2000 ≤ year) :
    timeutilsYearDay year month day - 1 + ((leaps (year - 1) : Int) - 484) +
        ((year : Int) - 2000) * 365 =
      (dayNumber year month day : Int) - 730425 := by
  have hpos := h.day_pos
  rw [timeutilsYearDay_eq h, daysSinceJan1_eq h.month_pos h.month_le, dayNumber, dayInYear,
    marchYear]
  by_cases hmonth : month ≤ 2
  · -- the year has begun in March of the one before
    rw [if_pos hmonth, if_neg (by omega), if_pos hmonth]
    omega
  · -- a leap day of this year is over
    have hleaps := (cycles_of (year - 1)).leaps_succ
    rw [Nat.sub_add_cancel (by omega)] at hleaps
    rw [if_neg hmonth, if_neg hmonth, hleaps]
    by_cases hleap : Leap year
    · rw [if_pos hleap, if_pos ⟨by omega, hleap⟩]
      omega
    · rw [if_neg hleap, if_neg fun hboth => hleap hboth.2]
      omega

/-- 1 January 2000 is the first day. -/
theorem dayNumber_bounds {year month day : Nat} (h : RealDay year month day)
    (hyear : 2000 ≤ year) (hle : year ≤ 9999) :
    730425 ≤ dayNumber year month day ∧ dayNumber year month day ≤ 4000000 := by
  have hlast := dayInYear_le h
  have hleaps : ∀ years, 1999 ≤ years → years ≤ 9999 →
      484 ≤ leaps years ∧ leaps years ≤ 2500 := by
    intro years hpos hmax
    rw [leaps]
    omega
  have hyears := hleaps (marchYear year month)
  rw [dayNumber]
  -- January and February of 2000 belong to the March year 1999
  by_cases hmonth : month ≤ 2
  · have hmarch : marchYear year month = year - 1 := if_pos hmonth
    have hwinter : 306 ≤ dayInYear month day := by
      have hpos := h.month_pos
      have hbefore : 306 ≤ daysBefore (marchMonth month) := by
        interval_cases month <;> decide
      rw [dayInYear]
      omega
    rw [hmarch] at hyears ⊢
    have hbounds := hyears (by omega) (by omega)
    omega
  · have hmarch : marchYear year month = year := if_neg hmonth
    rw [hmarch] at hyears ⊢
    have hbounds := hyears (by omega) hle
    omega

section RealTime

variable {year month day hour minute second : Nat} (h : RealDay year month day)
  (hyear : 2000 ≤ year) (hle : year ≤ 9999)

include h hyear hle in
theorem timeutilsSecondsSince2000_eq (hhour : hour < 24) (hminute : minute < 60)
    (hsecond : second < 60) :
    timeutilsSecondsSince2000 year month day hour minute second =
      ((dayNumber year month day : Int) - 730425) * 86400 +
        (hour * 3600 + minute * 60 + second : Nat) := by
  have hdays := daysSince2000_eq h hyear
  have hleaps := leapDays_eq hyear hle
  have hnumber := dayNumber_bounds h hyear hle
  rw [timeutilsSecondsSince2000, mpUint_of_lt]
  · omega
  · omega
  · omega

/-- Days and seconds, counted from 1 March 2000 on. -/
theorem divMod_seconds {number seconds : Nat} (hnumber : number ≤ 4000000)
    (hseconds : seconds < 86400) :
    divMod (mpInt (((number : Int) - 730425) * 86400 + seconds - leapoch)) 86400 =
      ((number : Int) - 730485, (seconds : Int)) := by
  have hleapoch : leapoch = 5184000 := by decide
  rw [hleapoch, mpInt_of_lt (by omega) (by omega), divMod_eq _ (by decide), Prod.mk.injEq]
  constructor
  · omega
  · omega

include h hyear in
theorem yearOfDays_dayNumber :
    yearOfDays ((dayNumber year month day : Int) - 730485) =
      ((marchYear year month : Int), (dayInYear month day : Int)) := by
  have hcycles := cycles_of (marchYear year month)
  rw [dayNumber, hcycles.days]
  apply yearOfDays_eq hcycles (dayInYear_le h)
  intro hlong
  by_contra hcommon
  have hnoLeapDay : ¬ (month = 2 ∧ Leap year) := by
    rintro ⟨rfl, hleap⟩
    apply hcommon
    rw [marchYear, if_pos (by decide), Nat.sub_add_cancel (by omega)]
    exact hleap
  exact absurd hlong (dayInYear_lt h hnoLeapDay).ne

include h in
theorem monthLoop_dayInYear :
    monthLoop 0 (dayInYear month day : Int) daysInMonth =
      ((marchMonth month : Int), ((day - 1 : Nat) : Int)) := by
  have hdays := h.day_le.trans (monthDays_le year h.month_pos h.month_le)
  have hpos := h.day_pos
  exact monthLoop_daysInMonth (marchMonth_lt h.month_pos h.month_le) (by omega)

include h hyear in
/-- January and February belong to the year after. -/
theorem month_of_march :
    (if 12 ≤ (marchMonth month : Int) + 2 then
        ((marchMonth month : Int) + 2 - 12, (marchYear year month : Int) + 1)
      else ((marchMonth month : Int) + 2, (marchYear year month : Int))) =
      ((month : Int) - 1, (year : Int)) := by
  have hpos := h.month_pos
  have hmonth := h.month_le
  rw [marchMonth, marchYear]
  by_cases hwinter : month ≤ 2
  · rw [if_pos hwinter, if_pos hwinter, if_pos (by omega), Prod.mk.injEq]
    constructor
    · omega
    · omega
  · rw [if_neg hwinter, if_neg hwinter, if_neg (by omega), Prod.mk.injEq]
    exact ⟨by omega, rfl⟩

theorem toNat_ofInt_uint8 {z : Int} (hz : 0 ≤ z) (hlt : z < 256) :
    ((UInt8.ofInt z).toNat : Int) = z := by
  rw [UInt8.ofInt, UInt8.toNat_ofNat']
  omega

theorem toNat_ofInt_uint16 {z : Int} (hz : 0 ≤ z) (hlt : z < 65536) :
    ((UInt16.ofInt z).toNat : Int) = z := by
  rw [UInt16.ofInt, UInt16.toNat_ofNat']
  omega

include h hyear hle in
/-- The seconds are turned back into the day and the time; 1 March 2000 is a Wednesday. -/
theorem secondsToStructTime_eq {seconds : Nat} (hseconds : seconds < 86400) :
    secondsToStructTime (((dayNumber year month day : Int) - 730425) * 86400 + seconds) =
      { tmYear := UInt16.ofInt year
        tmMon := UInt8.ofInt month
        tmMday := UInt8.ofInt day
        tmHour := UInt8.ofInt ((seconds : Int) / 3600)
        tmMin := UInt8.ofInt ((seconds : Int) / 60 % 60)
        tmSec := UInt8.ofInt ((seconds : Int) % 60)
        tmWday := UInt8.ofInt (((dayNumber year month day : Int) + 2) % 7)
        tmYday := UInt16.ofInt (timeutilsYearDay year month day) } := by
  have hdays := divMod_seconds (dayNumber_bounds h hyear hle).2 hseconds
  have hwday : divMod ((dayNumber year month day : Int) - 730485 + 2) 7 =
      (((dayNumber year month day : Int) - 730485 + 2) / 7,
        ((dayNumber year month day : Int) + 2) % 7) := by
    rw [divMod_eq _ (by decide), Prod.mk.injEq]
    exact ⟨rfl, by omega⟩
  have hmday : ((day - 1 : Nat) : Int) + 1 = day := by
    have hpos := h.day_pos
    omega
  have hday31 := h.day_le_31
  have hmonth12 := h.month_le
  unfold secondsToStructTime
  simp only [hdays, hwday, yearOfDays_dayNumber h hyear, monthLoop_dayInYear h,
    month_of_march h hyear, hmday, Int.sub_add_cancel,
    toNat_ofInt_uint16 (z := year) (by omega) (by omega),
    toNat_ofInt_uint8 (z := month) (by omega) (by omega),
    toNat_ofInt_uint8 (z := day) (by omega) (by omega),
    Int.tdiv_eq_ediv_of_nonneg (Int.natCast_nonneg seconds),
    Int.tmod_eq_emod_of_nonneg (Int.natCast_nonneg seconds)]
  rw [Int.tmod_eq_emod_of_nonneg (by omega)]

end RealTime

end EfiLvgl.Time
