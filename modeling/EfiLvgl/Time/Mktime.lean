import EfiLvgl.Time.LocalTime

/-!
# EfiLvgl.Time.Mktime — `mktime()`

`timeutils_mktime` takes fields of any size and sign: it carries what is too much from one field
to the next, and walks month by month until the day is one of the month. Signed additions are cut
to a word, as are those of the unsigned year.

`timeutilsMktime_eq`: what it comes to is the number of seconds the fields add up to.
`mktime_of_localtime`: `mktime()` undoes `localtime()`.
-/

namespace EfiLvgl.Time

open EfiLvgl.Calendar

/-! ## `timeutils_mktime` -/

/-- `timeutils_days_in_month`. -/
def timeutilsDaysInMonth (year month : Int) : Int :=
  let mdays := daysSinceJan1.getD month.toNat 0 - daysSinceJan1.getD (month - 1).toNat 0
  if month = 2 ∧ timeutilsIsLeapYear year then mdays + 1 else mdays

/-- The month before, `--month`. -/
def monthBefore (year month : Int) : Int × Int :=
  if month - 1 = 0 then (mpUint (year - 1), 12) else (year, month - 1)

/-- The month after, `++month`. -/
def monthAfter (year month : Int) : Int × Int :=
  if month + 1 = 13 then (mpUint (year + 1), 1) else (year, month + 1)

/-- `while (mday < 1)`, for so many rounds. -/
def monthsBack : Nat → Int → Int → Int → Option (Int × Int × Int)
  | 0, _, _, _ => none
  | fuel + 1, year, month, mday =>
      if mday < 1 then
        let (year, month) := monthBefore year month
        monthsBack fuel year month (mpInt (mday + timeutilsDaysInMonth year month))
      else some (year, month, mday)

/-- `while ((mp_uint_t)mday > timeutils_days_in_month(year, month))`, for so many rounds. -/
def monthsOn : Nat → Int → Int → Int → Option (Int × Int × Int)
  | 0, _, _, _ => none
  | fuel + 1, year, month, mday =>
      if timeutilsDaysInMonth year month < mpUint mday then
        let (nextYear, nextMonth) := monthAfter year month
        monthsOn fuel nextYear nextMonth (mpInt (mday - timeutilsDaysInMonth year month))
      else some (year, month, mday)

/-- `timeutils_mktime`; `none` if a loop has not ended after as many rounds as there are days. -/
def timeutilsMktime (year month mday hours minutes seconds : Int) : Option Int := do
  let (carry, seconds) := divMod seconds 60
  let (carry, minutes) := divMod (mpInt (minutes + carry)) 60
  let (carry, hours) := divMod (mpInt (hours + carry)) 24
  let mday := mpInt (mday + carry)
  let (carry, month) := divMod (mpInt (month - 1)) 12
  let year := mpUint (year + carry)
  let month := month + 1
  let (year, month, mday) ← monthsBack (mday.natAbs + 2) year month mday
  let (year, month, mday) ← monthsOn (mday.natAbs + 1) year month mday
  return timeutilsSecondsSince2000 year month mday hours minutes seconds

/-- `time_mktime`, of a tuple of integers. -/
def modTimeMktime (elem : List Int) : Uefi.Res (Option Int) := do
  if elem.length < 8 ∨ 9 < elem.length then
    .error (.raise .typeError "invalid argument(s) num/type")
  else
    let year ← Uefi.getInt .x64 (elem.getD 0 0)
    let month ← Uefi.getInt .x64 (elem.getD 1 0)
    let mday ← Uefi.getInt .x64 (elem.getD 2 0)
    let hours ← Uefi.getInt .x64 (elem.getD 3 0)
    let minutes ← Uefi.getInt .x64 (elem.getD 4 0)
    let seconds ← Uefi.getInt .x64 (elem.getD 5 0)
    return timeutilsMktime (mpUint year) month mday hours minutes seconds

/-! ## Months -/

theorem timeutilsDaysInMonth_bounds (year : Int) {month : Int} (hpos : 1 ≤ month)
    (hle : month ≤ 12) :
    28 ≤ timeutilsDaysInMonth year month ∧ timeutilsDaysInMonth year month ≤ 31 := by
  have htable : 28 ≤ daysSinceJan1.getD month.toNat 0 - daysSinceJan1.getD (month - 1).toNat 0 ∧
      daysSinceJan1.getD month.toNat 0 - daysSinceJan1.getD (month - 1).toNat 0 ≤ 31 ∧
      (month = 2 → daysSinceJan1.getD month.toNat 0 -
        daysSinceJan1.getD (month - 1).toNat 0 = 28) := by
    interval_cases month <;> decide
  rw [timeutilsDaysInMonth]
  split
  · next hleap =>
      have hfebruary := htable.2.2 hleap.1
      omega
  · exact ⟨htable.1, htable.2.1⟩

theorem timeutilsDaysInMonth_eq (year : Nat) {month : Nat} (hpos : 1 ≤ month) (hle : month ≤ 12) :
    timeutilsDaysInMonth year month = monthDays year month := by
  by_cases hfebruary : month = 2
  · subst hfebruary
    have htable : daysSinceJan1.getD (2 : Int).toNat 0 -
        daysSinceJan1.getD ((2 : Int) - 1).toNat 0 = 28 := by decide
    rw [timeutilsDaysInMonth, monthDays, if_pos rfl, timeutilsIsLeapYear_eq]
    by_cases hleap : Leap year
    · rw [if_pos hleap, if_pos ⟨rfl, decide_eq_true hleap⟩, Nat.cast_ofNat, htable]
      rfl
    · rw [if_neg hleap, if_neg fun hboth => hleap (of_decide_eq_true hboth.2), Nat.cast_ofNat,
        htable]
      rfl
  · have hnot : ¬ (month : Int) = 2 := by omega
    rw [timeutilsDaysInMonth, monthDays, if_neg hfebruary, if_neg fun hboth => hnot hboth.1]
    interval_cases month <;> first | omega | decide

theorem monthBefore_bounds (year : Int) {month : Int} (hpos : 1 ≤ month) (hle : month ≤ 12) :
    1 ≤ (monthBefore year month).2 ∧ (monthBefore year month).2 ≤ 12 := by
  rw [monthBefore]
  split
  · exact ⟨(by decide : (1 : Int) ≤ 12), le_refl (12 : Int)⟩
  · exact ⟨by omega, by omega⟩

theorem monthAfter_bounds (year : Int) {month : Int} (hpos : 1 ≤ month) (hle : month ≤ 12) :
    1 ≤ (monthAfter year month).2 ∧ (monthAfter year month).2 ≤ 12 := by
  rw [monthAfter]
  split
  · exact ⟨le_refl (1 : Int), (by decide : (1 : Int) ≤ 12)⟩
  · exact ⟨by omega, by omega⟩

/-! ## The loops -/

section Loops

variable {I : Int → Int → Int → Prop}

/-- The first loop ends, and keeps what each of its rounds keeps. -/
theorem monthsBack_spec
    (hround : ∀ year month mday, I year month mday → 1 ≤ month → month ≤ 12 → mday < 1 →
      I (monthBefore year month).1 (monthBefore year month).2
        (mday + timeutilsDaysInMonth (monthBefore year month).1 (monthBefore year month).2))
    (fuel : Nat) {year month mday : Int} (h : I year month mday) (hpos : 1 ≤ month)
    (hle : month ≤ 12) (hge : -2 ^ 63 ≤ mday) (hlt : mday < 2 ^ 63) (hsome : 0 < fuel)
    (hfuel : 1 - mday < fuel) :
    ∃ year' month' mday', monthsBack fuel year month mday = some (year', month', mday') ∧
      I year' month' mday' ∧ 1 ≤ month' ∧ month' ≤ 12 ∧ 1 ≤ mday' ∧ mday' < 2 ^ 63 := by
  induction fuel generalizing year month mday with
  | zero => omega
  | succ fuel ih =>
      rw [monthsBack]
      split
      · next hbefore =>
          have hmonth := monthBefore_bounds year hpos hle
          have hdays := timeutilsDaysInMonth_bounds (monthBefore year month).1 hmonth.1 hmonth.2
          have hkeep := hround year month mday h hpos hle hbefore
          simp only
          rw [mpInt_of_lt (by omega) (by omega)]
          exact ih hkeep hmonth.1 hmonth.2 (by omega) (by omega) (by omega) (by omega)
      · next hday => exact ⟨year, month, mday, rfl, h, hpos, hle, by omega, hlt⟩

/-- The second loop ends, with a day of the month. -/
theorem monthsOn_spec
    (hround : ∀ year month mday, I year month mday → 1 ≤ month → month ≤ 12 →
      timeutilsDaysInMonth year month < mday →
      I (monthAfter year month).1 (monthAfter year month).2
        (mday - timeutilsDaysInMonth year month))
    (fuel : Nat) {year month mday : Int} (h : I year month mday) (hpos : 1 ≤ month)
    (hle : month ≤ 12) (hge : 1 ≤ mday) (hlt : mday < 2 ^ 63) (hfuel : mday < fuel) :
    ∃ year' month' mday', monthsOn fuel year month mday = some (year', month', mday') ∧
      I year' month' mday' ∧ 1 ≤ month' ∧ month' ≤ 12 ∧ 1 ≤ mday' ∧
      mday' ≤ timeutilsDaysInMonth year' month' := by
  induction fuel generalizing year month mday with
  | zero => omega
  | succ fuel ih =>
      have hdays := timeutilsDaysInMonth_bounds year hpos hle
      rw [monthsOn, mpUint_of_lt (by omega) (by omega)]
      split
      · next hover =>
          have hmonth := monthAfter_bounds year hpos hle
          have hkeep := hround year month mday h hpos hle hover
          simp only
          rw [mpInt_of_lt (by omega) (by omega)]
          exact ih hkeep hmonth.1 hmonth.2 (by omega) (by omega) (by omega)
      · next hday => exact ⟨year, month, mday, rfl, h, hpos, hle, hge, by omega⟩

end Loops

/-! ## The number of the day -/

/-- The day that both loops leave as it is, numbered as the calendar does. -/
def SameDay (number : Int) (year month mday : Int) : Prop :=
  ∃ y m : Nat, year = y ∧ month = m ∧ 1 ≤ y ∧ y < 2 ^ 64 ∧
    (dayNumber y m 1 : Int) + mday - 1 = number

theorem dayNumber_first (year month day : Nat) :
    dayNumber year month day = dayNumber year month 1 + (day - 1) := by
  rw [dayNumber, dayNumber, dayInYear, dayInYear]
  omega

/-- The days of 2000 are late enough for the month before to have a year. -/
theorem SameDay.back {number : Int} (hnumber : 730425 ≤ number) {year month mday : Int}
    (h : SameDay number year month mday) (hpos : 1 ≤ month) (hle : month ≤ 12)
    (hday : mday < 1) :
    SameDay number (monthBefore year month).1 (monthBefore year month).2
      (mday + timeutilsDaysInMonth (monthBefore year month).1 (monthBefore year month).2) := by
  obtain ⟨y, m, rfl, rfl, hy, hylt, hsame⟩ := h
  by_cases hjanuary : m = 1
  · subst hjanuary
    -- in year 1 a day with that number is far behind January, not in front of it
    have hyear : 2 ≤ y := by
      by_contra hfirst
      have hone : y = 1 := by omega
      have hnone : dayNumber 1 1 1 = 306 := by decide
      rw [hone, hnone] at hsame
      exact absurd hday (by omega)
    have hbefore : monthBefore (y : Int) ((1 : Nat) : Int) =
        (((y - 1 : Nat) : Int), ((12 : Nat) : Int)) := by
      rw [monthBefore, if_pos (by decide), mpUint_of_lt (by omega) (by omega), Prod.mk.injEq]
      exact ⟨by omega, rfl⟩
    have hnext := dayNumber_nextMonth (Nat.le_sub_one_of_lt hyear) (by decide : 1 ≤ 12)
      (by decide : 12 ≤ 12)
    have hmonth : nextMonth (y - 1) 12 = (y, 1) := by
      rw [nextMonth, if_pos rfl, Nat.sub_add_cancel hy]
    simp only [hmonth] at hnext
    rw [hbefore, timeutilsDaysInMonth_eq _ (by decide) (by decide)]
    exact ⟨y - 1, 12, rfl, rfl, by omega, by omega, by omega⟩
  · have hbefore : monthBefore (y : Int) (m : Int) = ((y : Int), ((m - 1 : Nat) : Int)) := by
      rw [monthBefore, if_neg (by omega), Prod.mk.injEq]
      exact ⟨rfl, by omega⟩
    have hnext := dayNumber_nextMonth hy (by omega : 1 ≤ m - 1) (by omega)
    have hmonth : nextMonth y (m - 1) = (y, m) := by
      rw [nextMonth, if_neg (by omega), Nat.sub_add_cancel (by omega)]
    simp only [hmonth] at hnext
    rw [hbefore, timeutilsDaysInMonth_eq _ (by omega) (by omega)]
    exact ⟨y, m - 1, rfl, rfl, hy, hylt, by omega⟩

/-- A year that is not over before the day is far from the end of the word. -/
theorem SameDay.on {number : Int} (hnumber : number ≤ 3652364) {year month mday : Int}
    (h : SameDay number year month mday) (hpos : 1 ≤ month) (hle : month ≤ 12)
    (hday : timeutilsDaysInMonth year month < mday) :
    SameDay number (monthAfter year month).1 (monthAfter year month).2
      (mday - timeutilsDaysInMonth year month) := by
  obtain ⟨y, m, rfl, rfl, hy, hylt, hsame⟩ := h
  have hdays := timeutilsDaysInMonth_bounds (y : Int) hpos hle
  -- the day number bounds the year, so `mpUint` does not wrap
  have hyear : y ≤ 20000 := by
    have hmarch : y ≤ marchYear y m + 1 := by
      rw [marchYear]
      split
      · omega
      · omega
    rw [dayNumber] at hsame
    omega
  have hnext := dayNumber_nextMonth hy (by omega : 1 ≤ m) (by omega)
  have hafter : monthAfter (y : Int) (m : Int) =
      (((nextMonth y m).1 : Int), ((nextMonth y m).2 : Int)) := by
    rw [monthAfter, nextMonth]
    split
    · next hdecember =>
        rw [if_pos (by omega), mpUint_of_lt (by omega) (by omega)]
        rfl
    · next hdecember =>
        rw [if_neg (by omega)]
        rfl
  have hnextYear : y ≤ (nextMonth y m).1 ∧ (nextMonth y m).1 ≤ y + 1 := by
    rw [nextMonth]
    split
    · exact ⟨Nat.le_succ y, Nat.le_refl _⟩
    · exact ⟨Nat.le_refl y, Nat.le_succ y⟩
  rw [hafter]
  rw [timeutilsDaysInMonth_eq y (by omega) (by omega)] at hday ⊢
  exact ⟨_, _, rfl, rfl, by omega, by omega, by omega⟩

/-! ## Seconds -/

/-- The number of seconds that the fields add up to: a month of any number is one of some year, and
days, hours, minutes and seconds are counted from its first day on. -/
def secondsOf (year month mday hours minutes seconds : Int) : Int :=
  ((dayNumber (year + (month - 1) / 12).toNat ((month - 1) % 12 + 1).toNat 1 : Int) - 730425 +
    mday - 1) * 86400 + hours * 3600 + minutes * 60 + seconds

/-- The seconds up to the end of 9999. -/
def lastSecond : Int := 252455615999

section Mktime

variable {year month mday hours minutes seconds : Int}

/-- Both loops, from a month of the calendar on, come to the day that it has. -/
theorem months_eq {y m : Nat} {number : Nat} (hy : 1 ≤ y) (hylt : y < 2 ^ 64) (hpos : 1 ≤ m)
    (hle : m ≤ 12) (hge : -2 ^ 63 ≤ mday) (hlt : mday < 2 ^ 63)
    (hnumber : (dayNumber y m 1 : Int) + mday - 1 = number) (hfirst : 730425 ≤ number)
    (hlast : number ≤ 3652364) :
    ∃ (year month day : Nat) (mid : Int × Int × Int),
      monthsBack (mday.natAbs + 2) y m mday = some mid ∧
      monthsOn (mid.2.2.natAbs + 1) mid.1 mid.2.1 mid.2.2 =
        some ((year : Int), (month : Int), (day : Int)) ∧
      RealDay year month day ∧ dayNumber year month day = number := by
  have hstart : SameDay number y m mday := ⟨y, m, rfl, rfl, hy, hylt, hnumber⟩
  obtain ⟨year₁, month₁, mday₁, hback, hsame₁, hpos₁, hle₁, hday₁, hlt₁⟩ :=
    monthsBack_spec (fun _ _ _ h hpos hle hday => h.back (by omega) hpos hle hday)
      (mday.natAbs + 2) hstart (by omega) (by omega) hge hlt (by omega) (by omega)
  obtain ⟨year₂, month₂, mday₂, hon, hsame₂, hpos₂, hle₂, hday₂, hdays₂⟩ :=
    monthsOn_spec (fun _ _ _ h hpos hle hday => h.on (by omega) hpos hle hday)
      (mday₁.natAbs + 1) hsame₁ hpos₁ hle₁ hday₁ hlt₁ (by omega)
  obtain ⟨y₂, m₂, rfl, rfl, hy₂, -, hnumber₂⟩ := hsame₂
  obtain ⟨d₂, rfl⟩ := Int.eq_ofNat_of_zero_le (by omega : 0 ≤ mday₂)
  rw [timeutilsDaysInMonth_eq y₂ (by omega) (by omega)] at hdays₂
  have hreal : RealDay y₂ m₂ d₂ := ⟨by omega, by omega, by omega, by omega⟩
  have hday := dayNumber_first y₂ m₂ d₂
  exact ⟨y₂, m₂, d₂, (year₁, month₁, mday₁), hback, hon, hreal, by omega⟩

/-- `mktime` of small integers: whatever the fields are, the seconds they add up to, if these are of
the years 2000 to 9999. -/
theorem timeutilsMktime_eq
    (hsmall : ∀ z ∈ [year, month, mday, hours, minutes, seconds], -2 ^ 62 ≤ z ∧ z < 2 ^ 62)
    (hyear : 1 ≤ year + (month - 1) / 12)
    (hfirst : 0 ≤ secondsOf year month mday hours minutes seconds)
    (hlast : secondsOf year month mday hours minutes seconds ≤ lastSecond) :
    timeutilsMktime (mpUint year) month mday hours minutes seconds =
      some (secondsOf year month mday hours minutes seconds) := by
  simp only [List.forall_mem_cons, List.not_mem_nil, false_implies, implies_true,
    and_true] at hsmall
  obtain ⟨hy, hmo, hd, hh, hmi, hs⟩ := hsmall
  rw [secondsOf] at hfirst hlast ⊢
  -- the seconds, minutes and hours that remain, and the days that are carried
  obtain ⟨sec, hsec⟩ := Int.eq_ofNat_of_zero_le
    (Int.emod_nonneg seconds (by decide : (60 : Int) ≠ 0))
  obtain ⟨min, hmin⟩ := Int.eq_ofNat_of_zero_le
    (Int.emod_nonneg (minutes + seconds / 60) (by decide : (60 : Int) ≠ 0))
  obtain ⟨hour, hhour⟩ := Int.eq_ofNat_of_zero_le
    (Int.emod_nonneg (hours + (minutes + seconds / 60) / 60) (by decide : (24 : Int) ≠ 0))
  obtain ⟨y, hyears⟩ := Int.eq_ofNat_of_zero_le (by omega : 0 ≤ year + (month - 1) / 12)
  obtain ⟨m, hmonths⟩ := Int.eq_ofNat_of_zero_le (by omega : 0 ≤ (month - 1) % 12 + 1)
  rw [hyears, hmonths, Int.toNat_natCast, Int.toNat_natCast] at hfirst hlast ⊢
  obtain ⟨number, hnumber⟩ := Int.eq_ofNat_of_zero_le
    (by omega : 0 ≤ (dayNumber y m 1 : Int) +
      (mday + (hours + (minutes + seconds / 60) / 60) / 24) - 1)
  have hlastSecond : lastSecond = 252455615999 := rfl
  obtain ⟨year', month', day', ⟨y₁, m₁, d₁⟩, hback, hon, hreal, hday⟩ :=
    months_eq (y := y) (m := m) (by omega) (by omega) (by omega) (by omega) (by omega)
      (by omega) hnumber (by omega) (by omega)
  have hyear' := year_of_dayNumber hreal (by omega) (by omega)
  have hyearWord : mpUint (mpUint year + (month - 1) / 12) = y := by
    rw [mpUint, mpUint, Int.emod_add_emod, hyears, Int.emod_eq_of_lt (by omega) (by omega)]
  have hresult := timeutilsSecondsSince2000_eq hreal hyear'.1 hyear'.2
    (by omega : hour < 24) (by omega : min < 60) (by omega : sec < 60)
  simp only [timeutilsMktime, divMod_eq _ (by decide : (0 : Int) < 60),
    divMod_eq _ (by decide : (0 : Int) < 24), divMod_eq _ (by decide : (0 : Int) < 12),
    mpInt_of_lt (z := minutes + seconds / 60) (by omega) (by omega),
    mpInt_of_lt (z := hours + (minutes + seconds / 60) / 60) (by omega) (by omega),
    mpInt_of_lt (z := mday + (hours + (minutes + seconds / 60) / 60) / 24) (by omega) (by omega),
    mpInt_of_lt (z := month - 1) (by omega) (by omega), hyearWord, hmonths, hback, hon, hsec, hmin,
    hhour, Option.bind_eq_bind, Option.bind_some, hresult, Option.pure_def, hday,
    Option.some.injEq]
  omega

/-- A tuple of eight or nine small integers, of which only the first six are looked at. -/
theorem modTimeMktime_eq {rest : List Int} (hrest : rest.length = 2 ∨ rest.length = 3)
    (hsmall : ∀ z ∈ [year, month, mday, hours, minutes, seconds], -2 ^ 62 ≤ z ∧ z < 2 ^ 62)
    (hyear : 1 ≤ year + (month - 1) / 12)
    (hfirst : 0 ≤ secondsOf year month mday hours minutes seconds)
    (hlast : secondsOf year month mday hours minutes seconds ≤ lastSecond) :
    modTimeMktime (year :: month :: mday :: hours :: minutes :: seconds :: rest) =
      .ok (some (secondsOf year month mday hours minutes seconds)) := by
  have hmktime := timeutilsMktime_eq hsmall hyear hfirst hlast
  have hint : ∀ z ∈ [year, month, mday, hours, minutes, seconds], Uefi.getInt .x64 z = .ok z := by
    intro z hz
    have hbounds := hsmall z hz
    exact getInt_x64 (by omega) (by omega)
  simp only [List.forall_mem_cons, List.not_mem_nil, false_implies, implies_true, and_true] at hint
  obtain ⟨hy, hmo, hd, hh, hmi, hs⟩ := hint
  rw [modTimeMktime, if_neg (by simp only [List.length_cons]; omega)]
  simp only [List.getD_cons_zero, List.getD_cons_succ, hy, hmo, hd, hh, hmi, hs, bind, Except.bind,
    hmktime]
  rfl

end Mktime

/-- 30 February 2023 is 2 March, and 24:59:59 is on the day after. -/
theorem modTimeMktime_february :
    modTimeMktime [2023, 2, 30, 24, 59, 59, 0, 0] = .ok (some 731120399) := by
  have hsmall : ∀ z ∈ [(2023 : Int), 2, 30, 24, 59, 59], -2 ^ 62 ≤ z ∧ z < 2 ^ 62 := by decide
  exact modTimeMktime_eq (.inl rfl) hsmall (by decide) (by decide) (by decide)

/-! ## `localtime()` and back -/

/-- Every second is one of a day that the calendar has. -/
theorem exists_time {t : Int} (hfirst : 0 ≤ t) (hlast : t ≤ lastSecond) :
    ∃ time : EfiTime, time.Valid ∧ 2000 ≤ time.year.toNat ∧
      ((dayNumber time.year.toNat time.month.toNat time.day.toNat : Int) - 730425) * 86400 +
        (time.hour.toNat * 3600 + time.minute.toNat * 60 + time.second.toNat : Nat) = t := by
  have hlastSecond : lastSecond = 252455615999 := rfl
  obtain ⟨t, rfl⟩ := Int.eq_ofNat_of_zero_le hfirst
  have hstart : (dayNumber 2000 1 1 : Int) = 730425 := by decide
  -- the day is the first one, and so many more
  have hnumber : (dayNumber 2000 1 1 : Int) + (t / 86400 + 1 : Nat) - 1 =
      (t / 86400 + 730425 : Nat) := by omega
  obtain ⟨year, month, day, -, -, -, hreal, hday⟩ :=
    months_eq (by decide) (by decide) (by decide) (by decide) (by omega) (by omega) hnumber
      (by omega) (by omega)
  have hyear := year_of_dayNumber hreal (by omega) (by omega)
  have hmonth := hreal.month_le
  have hday31 := hreal.day_le_31
  have hyear16 : (UInt16.ofNat year).toNat = year := by
    rw [UInt16.toNat_ofNat']
    omega
  have hword : ∀ n < 256, (UInt8.ofNat n).toNat = n := by
    intro n hn
    rw [UInt8.toNat_ofNat']
    omega
  have hmonth8 := hword month (by omega)
  have hday8 := hword day (by omega)
  have hhour8 := hword (t % 86400 / 3600) (by omega)
  have hminute8 := hword (t % 86400 / 60 % 60) (by omega)
  have hsecond8 := hword (t % 86400 % 60) (by omega)
  refine ⟨⟨UInt16.ofNat year, UInt8.ofNat month, UInt8.ofNat day, UInt8.ofNat (t % 86400 / 3600),
    UInt8.ofNat (t % 86400 / 60 % 60), UInt8.ofNat (t % 86400 % 60), 0⟩, ?_, ?_, ?_⟩
  · constructor
    · rw [hyear16]; omega
    · rw [hyear16]; omega
    · rw [hyear16, hmonth8, hday8]; exact hreal
    · rw [hhour8]; omega
    · rw [hminute8]; omega
    · rw [hsecond8]; omega
    · exact (by decide : (0 : UInt32).toNat < 1000000000)
  · simp only [hyear16]; omega
  · simp only [hyear16, hmonth8, hday8, hhour8, hminute8, hsecond8, hday]
    omega

/-- The seconds of the eight numbers are those of the clock. -/
theorem secondsOf_localTuple {time : EfiTime} (h : time.Valid) :
    secondsOf time.year.toNat time.month.toNat time.day.toNat time.hour.toNat time.minute.toNat
        time.second.toNat =
      ((dayNumber time.year.toNat time.month.toNat time.day.toNat : Int) - 730425) * 86400 +
        (time.hour.toNat * 3600 + time.minute.toNat * 60 + time.second.toNat : Nat) := by
  have hpos := h.real.month_pos
  have hle := h.real.month_le
  have hdayPos := h.real.day_pos
  have hyear : ((time.year.toNat : Int) + ((time.month.toNat : Int) - 1) / 12).toNat =
      time.year.toNat := by omega
  have hmonth : (((time.month.toNat : Int) - 1) % 12 + 1).toNat = time.month.toNat := by omega
  rw [secondsOf, hyear, hmonth, dayNumber_first time.year.toNat time.month.toNat time.day.toNat]
  omega

/-- `localtime()` of any second up to the end of 9999 is a day and a time of the calendar, and
`mktime()` of it is the second again. -/
theorem mktime_of_localtime (getTime : GetTime) {t : Int} (hfirst : 0 ≤ t)
    (hlast : t ≤ lastSecond) :
    ∃ time : EfiTime, time.Valid ∧
      modTimeLocaltime getTime (some t) = .ok (some (localTuple time)) ∧
      modTimeMktime (localTuple time) = .ok (some t) := by
  obtain ⟨time, hvalid, hyear, rfl⟩ := exists_time hfirst hlast
  have hseconds := secondsOf_localTuple hvalid
  have hyearLe := hvalid.year_le
  have hmonthPos := hvalid.real.month_pos
  have hmonth := hvalid.real.month_le
  have hday := hvalid.real.day_le_31
  have hhour := hvalid.hour_lt
  have hminute := hvalid.minute_lt
  have hsecond := hvalid.second_lt
  refine ⟨time, hvalid, localtime_seconds hvalid hyear getTime, ?_⟩
  have hsmall : ∀ z ∈ [(time.year.toNat : Int), (time.month.toNat : Int), (time.day.toNat : Int),
      (time.hour.toNat : Int), (time.minute.toNat : Int), (time.second.toNat : Int)],
      -2 ^ 62 ≤ z ∧ z < 2 ^ 62 := by
    simp only [List.forall_mem_cons, List.not_mem_nil, false_implies, implies_true, and_true]
    refine ⟨?_, ?_, ?_, ?_, ?_, ?_⟩ <;> constructor <;> omega
  rw [← hseconds] at hfirst hlast ⊢
  exact modTimeMktime_eq (.inl rfl) hsmall (by omega) hfirst hlast

theorem mktime_of_localtime_leap :
    ∃ time : EfiTime, time.Valid ∧
      modTimeLocaltime (.error .notFound) (some 5097600) = .ok (some (localTuple time)) ∧
      modTimeMktime (localTuple time) = .ok (some 5097600) :=
  mktime_of_localtime (.error .notFound) (by decide) (by decide)

end EfiLvgl.Time
