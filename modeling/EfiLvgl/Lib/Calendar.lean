import Mathlib.Tactic.IntervalCases
import Mathlib.Algebra.BigOperators.Group.List.Basic

/-!
# EfiLvgl.Lib.Calendar — the Gregorian calendar

Days are numbered from 1 March of the year 0 on, so that the day that only leap years have is
the last one of a year (`dayNumber`). Years go in cycles of 400, 100, 4 and 1, and the number
of a day is what these cycles and the day within the year add up to (`Cycles.days`).
Nothing here names a particular program.
-/

namespace EfiLvgl.Calendar

/-! ## Dates -/

def Leap (year : Nat) : Prop := year % 4 = 0 ∧ year % 100 ≠ 0 ∨ year % 400 = 0

instance (year : Nat) : Decidable (Leap year) := inferInstanceAs (Decidable (_ ∧ _ ∨ _))

/-- The days of a month; January is 1. -/
def monthDays (year month : Nat) : Nat :=
  if month = 2 then if Leap year then 29 else 28
  else if month = 4 ∨ month = 6 ∨ month = 9 ∨ month = 11 then 30
  else 31

/-- A day that the calendar has. -/
structure RealDay (year month day : Nat) : Prop where
  month_pos : 1 ≤ month
  month_le : month ≤ 12
  day_pos : 1 ≤ day
  day_le : day ≤ monthDays year month

/-! ## Years from March on -/

/-- The year that begins in March. -/
def marchYear (year month : Nat) : Nat := if month ≤ 2 then year - 1 else year

/-- March is 0. -/
def marchMonth (month : Nat) : Nat := if month ≤ 2 then month + 9 else month - 3

/-- The days from March on before the month. -/
def daysBefore (marchMonth : Nat) : Nat := (153 * marchMonth + 2) / 5

/-- The day of the year that begins in March, from 0 on. -/
def dayInYear (month day : Nat) : Nat := daysBefore (marchMonth month) + (day - 1)

/-- The number of leap years up to a year. -/
def leaps (years : Nat) : Nat := years / 4 - years / 100 + years / 400

/-- The number of a day. -/
def dayNumber (year month day : Nat) : Nat :=
  365 * marchYear year month + leaps (marchYear year month) + dayInYear month day

/-- The number of days of each month, from March on. -/
def marchDays : List Nat := [31, 30, 31, 30, 31, 31, 30, 31, 30, 31, 31, 29]

theorem daysBefore_eq {month : Nat} (h : month < 12) :
    daysBefore month = (marchDays.take month).sum := by
  revert month
  decide

theorem marchMonth_lt {month : Nat} (hpos : 1 ≤ month) (hle : month ≤ 12) :
    marchMonth month < 12 := by
  rw [marchMonth]
  split
  · omega
  · omega

/-- A month has as many days as are counted for it, but February in most years. -/
theorem monthDays_le (year : Nat) {month : Nat} (hpos : 1 ≤ month) (hle : month ≤ 12) :
    monthDays year month ≤ marchDays.getD (marchMonth month) 0 := by
  rw [monthDays]
  split
  · next hmonth =>
      subst hmonth
      split
      · decide
      · decide
  · next hmonth =>
      revert hmonth
      interval_cases month <;> decide

theorem RealDay.day_le_31 {year month day : Nat} (h : RealDay year month day) : day ≤ 31 := by
  have hlong : ∀ m < 12, marchDays.getD m 0 ≤ 31 := by decide
  exact h.day_le.trans ((monthDays_le year h.month_pos h.month_le).trans
    (hlong _ (marchMonth_lt h.month_pos h.month_le)))

theorem dayInYear_le {year month day : Nat} (h : RealDay year month day) :
    dayInYear month day ≤ 365 := by
  have hdays := h.day_le.trans (monthDays_le year h.month_pos h.month_le)
  have hlt := marchMonth_lt h.month_pos h.month_le
  have hpos := h.day_pos
  have hsum : ∀ m < 12, daysBefore m + marchDays.getD m 0 ≤ 366 := by decide
  have hmonth := hsum _ hlt
  rw [dayInYear]
  omega

/-- Only leap years have the last day. -/
theorem dayInYear_lt {year month day : Nat} (h : RealDay year month day)
    (hleap : ¬ (month = 2 ∧ Leap year)) : dayInYear month day < 365 := by
  have hdays := h.day_le
  have hpos := h.day_pos
  -- only February, the last month of this year, differs
  by_cases hfebruary : month = 2
  · have hcommon : ¬ Leap year := fun hyear => hleap ⟨hfebruary, hyear⟩
    subst hfebruary
    rw [monthDays, if_pos rfl, if_neg hcommon] at hdays
    have hbefore : daysBefore (marchMonth 2) = 337 := by decide
    rw [dayInYear, hbefore]
    omega
  · have hle := hdays.trans (monthDays_le year h.month_pos h.month_le)
    have hlt : marchMonth month < 11 := by
      have := h.month_pos
      have := h.month_le
      rw [marchMonth]
      split
      · omega
      · omega
    have hsum : ∀ m < 11, daysBefore m + marchDays.getD m 0 ≤ 337 := by decide
    have hmonth := hsum _ hlt
    rw [dayInYear]
    omega

/-! ## Cycles -/

/-- A number of years, in cycles. -/
structure Cycles (years q c b a : Nat) : Prop where
  eq : years = 400 * q + 100 * c + 4 * b + a
  c_lt : c < 4
  b_lt : b < 25
  a_lt : a < 4

theorem cycles_of (years : Nat) :
    Cycles years (years / 400) (years / 100 % 4) (years / 4 % 25) (years % 4) where
  eq := by omega
  c_lt := Nat.mod_lt _ (by decide)
  b_lt := Nat.mod_lt _ (by decide)
  a_lt := Nat.mod_lt _ (by decide)

/-- The days of whole years. -/
theorem Cycles.days {years q c b a : Nat} (h : Cycles years q c b a) :
    365 * years + leaps years = 146097 * q + 36524 * c + 1461 * b + 365 * a := by
  rcases h with ⟨heq, hc, hb, ha⟩
  rw [leaps]
  have hfour : years / 4 = 100 * q + 25 * c + b := by omega
  have hhundred : years / 100 = 4 * q + c := by omega
  have hfourHundred : years / 400 = q := by omega
  omega

/-- The year after is a leap year: the last of four, but not of a hundred, unless of four
hundred. -/
theorem Cycles.leap_succ {years q c b a : Nat} (h : Cycles years q c b a) :
    Leap (years + 1) ↔ a = 3 ∧ (b = 24 → c = 3) := by
  rcases h with ⟨heq, hc, hb, ha⟩
  rw [Leap]
  omega

/-- A leap year adds a day to the ones counted before. -/
theorem Cycles.leaps_succ {years q c b a : Nat} (h : Cycles years q c b a) :
    leaps (years + 1) = leaps years + if Leap (years + 1) then 1 else 0 := by
  have hleap := h.leap_succ
  rcases h with ⟨heq, hc, hb, ha⟩
  have hfour : years / 4 = 100 * q + 25 * c + b := by omega
  have hhundred : years / 100 = 4 * q + c := by omega
  have hfourHundred : years / 400 = q := by omega
  have hfour' : (years + 1) / 4 = 100 * q + 25 * c + b + (a + 1) / 4 := by omega
  have hhundred' : (years + 1) / 100 = 4 * q + c + (4 * b + a + 1) / 100 := by omega
  have hfourHundred' : (years + 1) / 400 = q + (100 * c + 4 * b + a + 1) / 400 := by omega
  rw [leaps, leaps, hfour, hhundred, hfourHundred, hfour', hhundred', hfourHundred']
  -- a carry goes up the cycles: of four years, of a hundred, of four hundred
  by_cases hlast : a = 3
  · subst hlast
    by_cases hcentury : b = 24
    · subst hcentury
      by_cases hend : c = 3
      · -- the last of four hundred years
        rw [if_pos (hleap.mpr ⟨rfl, fun _ => hend⟩), hend]
        omega
      · -- the last of a hundred years adds one and takes one away
        have hmore : (100 * c + 4 * 24 + 3 + 1) / 400 = 0 := by omega
        rw [if_neg fun hyear => hend ((hleap.mp hyear).2 rfl), hmore]
        omega
    · have hmore : (4 * b + 3 + 1) / 100 = 0 ∧ (100 * c + 4 * b + 3 + 1) / 400 = 0 := by omega
      rw [if_pos (hleap.mpr ⟨rfl, fun hend => absurd hend hcentury⟩), hmore.1, hmore.2]
      omega
  · have hnone : (a + 1) / 4 = 0 ∧ (4 * b + a + 1) / 100 = 0 ∧
        (100 * c + 4 * b + a + 1) / 400 = 0 := by omega
    rw [if_neg fun hyear => hlast (hleap.mp hyear).1, hnone.1, hnone.2.1, hnone.2.2]
    rfl

/-! ## Months one behind the other -/

/-- The year and the month after a month. -/
def nextMonth (year month : Nat) : Nat × Nat :=
  if month = 12 then (year + 1, 1) else (year, month + 1)

/-- A month is over when the next one begins. -/
theorem dayNumber_nextMonth {year month : Nat} (hyear : 1 ≤ year) (hpos : 1 ≤ month)
    (hle : month ≤ 12) :
    dayNumber year month 1 + monthDays year month =
      dayNumber (nextMonth year month).1 (nextMonth year month).2 1 := by
  -- the year from March on begins behind February, and only there
  by_cases hfebruary : month = 2
  · subst hfebruary
    have hleaps := (cycles_of (year - 1)).leaps_succ
    rw [Nat.sub_add_cancel hyear] at hleaps
    have hbefore : daysBefore (marchMonth 2) = 337 ∧ daysBefore (marchMonth 3) = 0 := by decide
    have hmarch : marchYear year 2 = year - 1 ∧ marchYear year 3 = year := ⟨rfl, rfl⟩
    rw [nextMonth, if_neg (by decide), monthDays, if_pos rfl]
    rw [dayNumber, dayNumber, dayInYear, dayInYear, hmarch.1, hmarch.2, hleaps, hbefore.1,
      hbefore.2]
    split
    · omega
    · omega
  · by_cases hdecember : month = 12
    · subst hdecember
      have hbefore : daysBefore (marchMonth 12) = 275 ∧ daysBefore (marchMonth 1) = 306 := by decide
      have hmarch : marchYear year 12 = year ∧ marchYear (year + 1) 1 = year := ⟨rfl, rfl⟩
      have hdays : monthDays year 12 = 31 := rfl
      rw [nextMonth, if_pos rfl, hdays, dayNumber, dayNumber, dayInYear, dayInYear, hmarch.1,
        hmarch.2, hbefore.1, hbefore.2]
    · have hdays : daysBefore (marchMonth month) + monthDays year month =
          daysBefore (marchMonth (month + 1)) := by
        rw [monthDays, if_neg hfebruary]
        interval_cases month <;> first | omega | decide
      have hsame : marchYear year (month + 1) = marchYear year month := by
        rw [marchYear, marchYear]
        split
        · next h => rw [if_pos (by omega)]
        · next h => rw [if_neg (by omega)]
      rw [nextMonth, if_neg hdecember, dayNumber, dayNumber, dayInYear, dayInYear, hsame, ← hdays]
      omega

/-- The days from 1 January 2000 to 31 December 9999 are those of the years between. -/
theorem year_of_dayNumber {year month day : Nat} (h : RealDay year month day)
    (hge : 730425 ≤ dayNumber year month day) (hle : dayNumber year month day ≤ 3652364) :
    2000 ≤ year ∧ year ≤ 9999 := by
  have hlast := dayInYear_le h
  rw [dayNumber] at hge hle
  -- January and February belong to the year from March on before
  by_cases hmonth : month ≤ 2
  · have hmarch : marchYear year month = year - 1 := if_pos hmonth
    have hwinter : 306 ≤ dayInYear month day := by
      have hpos := h.month_pos
      have hbefore : 306 ≤ daysBefore (marchMonth month) := by
        interval_cases month <;> decide
      rw [dayInYear]
      omega
    rw [hmarch, leaps] at hge hle
    omega
  · have hmarch : marchYear year month = year := if_neg hmonth
    have hsummer : dayInYear month day < 306 := by
      have hpos := h.day_pos
      have hdays := h.day_le.trans (monthDays_le year h.month_pos h.month_le)
      have hsum : ∀ m < 10, daysBefore m + marchDays.getD m 0 ≤ 306 := by decide
      have hbeforeJanuary : marchMonth month < 10 := by
        have hmonthLe := h.month_le
        rw [marchMonth, if_neg hmonth]
        omega
      have hmonths := hsum _ hbeforeJanuary
      rw [dayInYear]
      omega
    rw [hmarch] at hge hle
    constructor
    · by_contra hearly
      rcases Nat.lt_or_ge year 1999 with hlt | hlate
      · rw [leaps] at hge
        omega
      · -- the last summer before
        have hyear : year = 1999 := by omega
        subst hyear
        have hleaps : leaps 1999 = 484 := by decide
        omega
    · rw [leaps] at hle
      omega

end EfiLvgl.Calendar
