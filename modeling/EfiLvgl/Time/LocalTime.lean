import EfiLvgl.Efi.Status
import EfiLvgl.Time.Timeutils
import EfiLvgl.Uefi.Access

/-!
# EfiLvgl.Time.LocalTime — `time()` and `localtime()`

The functions of `modtime.c` for the time of day. `localtime()` takes the fields of the clock as
they are and reckons the weekday with Zeller's congruence; `localtime(seconds)` has everything
reckoned by `timeutils.c`.

`localtime_of_time`: both come to the same eight numbers.
-/

namespace EfiLvgl.Time

open EfiLvgl.Calendar

/-- What `gRT->GetTime` comes to. -/
abbrev GetTime := Except EfiStatus EfiTime

/-- `mod_time_time`; `none` stands for `None`. -/
def modTimeTime (getTime : GetTime) : Option Int :=
  match getTime with
  | .error _ => none
  | .ok time => some (timeutilsSecondsSince2000 time.year.toNat time.month.toNat time.day.toNat
      time.hour.toNat time.minute.toNat time.second.toNat)

/-- `dayofweek`; Sunday is 0. -/
def dayofweek (year month day : Int) : Int :=
  let january := month = 1 ∨ month = 2
  let m := if january then month + 12 else month
  let year := if january then year - 1 else year
  let c := year.tdiv 100
  let y := year.tmod 100
  let w := c.tdiv 4 - 2 * c + y + y.tdiv 4 + (26 * (m + 1)).tdiv 10 + day - 1
  if w < 0 then (w + ((-w).tdiv 7 + 1) * 7).tmod 7 else w.tmod 7

/-- `mod_time_localtime`, without an argument or with an integer. -/
def modTimeLocaltime (getTime : GetTime) (seconds : Option Int) :
    Uefi.Res (Option (List Int)) :=
  match seconds with
  | none =>
      match getTime with
      | .error _ => .ok none
      | .ok time =>
          let wday := dayofweek time.year.toNat time.month.toNat time.day.toNat - 1
          .ok (some [time.year.toNat, time.month.toNat, time.day.toNat, time.hour.toNat,
            time.minute.toNat, time.second.toNat, if wday < 0 then 6 else wday,
            timeutilsYearDay time.year.toNat time.month.toNat time.day.toNat])
  | some seconds => do
      let seconds ← Uefi.getInt .x64 seconds
      let tm := secondsToStructTime (mpUint seconds)
      .ok (some [tm.tmYear.toNat, tm.tmMon.toNat, tm.tmMday.toNat, tm.tmHour.toNat,
        tm.tmMin.toNat, tm.tmSec.toNat, tm.tmWday.toNat, tm.tmYday.toNat])

/-! ## Weekdays -/

/-- What is left of a number when sevens are taken away, also of a negative one. -/
theorem mended_tmod (w : Int) :
    (if w < 0 then (w + ((-w).tdiv 7 + 1) * 7).tmod 7 else w.tmod 7) = w % 7 := by
  by_cases hneg : w < 0
  · have hquotient : (-w).tdiv 7 = -w / 7 := Int.tdiv_eq_ediv_of_nonneg (by omega)
    rw [if_pos hneg, hquotient, Int.tmod_eq_emod_of_nonneg (by omega)]
    omega
  · rw [if_neg hneg, Int.tmod_eq_emod_of_nonneg (by omega)]

/-- The days before a month, in weeks and days over. -/
theorem zeller_month {month : Nat} (h : month < 12) :
    ((26 * ((month : Int) + 3 + 1)) / 10 - daysBefore month - 3) % 7 = 0 := by
  revert month
  decide

/-- A year is one day more than 52 weeks, and a leap year two. -/
theorem zeller_year (years : Nat) :
    ((years : Int) / 100 / 4 - 2 * ((years : Int) / 100) + (years : Int) % 100 +
        (years : Int) % 100 / 4 - (365 * years + leaps years : Nat)) % 7 = 0 := by
  have hcentury : years = 100 * (years / 100) + years % 100 := (Nat.div_add_mod years 100).symm
  have hlt : years % 100 < 100 := Nat.mod_lt _ (by decide)
  generalize years / 100 = c, years % 100 = y at hcentury hlt
  subst hcentury
  have hleaps : leaps (100 * c + y) = 24 * c + y / 4 + c / 4 := by
    have hfour : (100 * c + y) / 4 = 25 * c + y / 4 := by omega
    have hhundred : (100 * c + y) / 100 = c := by omega
    have hfourHundred : (100 * c + y) / 400 = c / 4 := by omega
    rw [leaps, hfour, hhundred, hfourHundred]
    omega
  have hdiv : ((100 * c + y : Nat) : Int) / 100 = c := by omega
  have hmod : ((100 * c + y : Nat) : Int) % 100 = y := by omega
  rw [hleaps, hdiv, hmod]
  omega

/-- The weekday is that of the number of the day; day 0 is a Wednesday. -/
theorem dayofweek_eq {year month day : Nat} (h : RealDay year month day) (hyear : 1 ≤ year) :
    dayofweek year month day = ((dayNumber year month day : Int) + 3) % 7 := by
  have hday := h.day_pos
  have hmonthPos := h.month_pos
  have hmonths := zeller_month (marchMonth_lt h.month_pos h.month_le)
  have hyears := zeller_year (marchYear year month)
  -- January and February count as months 13 and 14 of the year before
  have hm : (if (month : Int) = 1 ∨ (month : Int) = 2 then (month : Int) + 12 else month) =
      (marchMonth month : Int) + 3 := by
    rw [marchMonth]
    by_cases hwinter : month ≤ 2
    · rw [if_pos (by omega), if_pos hwinter]
      omega
    · rw [if_neg (by omega), if_neg hwinter]
      omega
  have hy : (if (month : Int) = 1 ∨ (month : Int) = 2 then (year : Int) - 1 else year) =
      (marchYear year month : Int) := by
    rw [marchYear]
    by_cases hwinter : month ≤ 2
    · rw [if_pos (by omega), if_pos hwinter]
      omega
    · rw [if_neg (by omega), if_neg hwinter]
  have hnonneg := Int.natCast_nonneg (marchYear year month)
  unfold dayofweek
  simp only [hm, hy, mended_tmod]
  rw [Int.tdiv_eq_ediv_of_nonneg hnonneg, Int.tmod_eq_emod_of_nonneg hnonneg,
    Int.tdiv_eq_ediv_of_nonneg (by omega), Int.tdiv_eq_ediv_of_nonneg (by omega),
    Int.tdiv_eq_ediv_of_nonneg (by omega), dayNumber, dayInYear]
  omega

/-! ## The two routes -/

/-- A number that fits a word is an argument. -/
theorem getInt_x64 {z : Int} (hz : -2 ^ 63 < z) (hlt : z < 2 ^ 63) : Uefi.getInt .x64 z = .ok z := by
  have hword : (Uefi.Arch.x64.word : Int) = 2 ^ 64 := rfl
  rw [Uefi.getInt, if_pos]
  omega

/-- The eight numbers: the fields of the clock, the weekday, of which Monday is 0, and the day of
the year. -/
def localTuple (time : EfiTime) : List Int :=
  [time.year.toNat, time.month.toNat, time.day.toNat, time.hour.toNat, time.minute.toNat,
    time.second.toNat,
    ((dayNumber time.year.toNat time.month.toNat time.day.toNat : Int) + 2) % 7,
    timeutilsYearDay time.year.toNat time.month.toNat time.day.toNat]

section Clock

variable {time : EfiTime} (h : time.Valid)

include h in
theorem localtime_now : modTimeLocaltime (.ok time) none = .ok (some (localTuple time)) := by
  have hyear := h.year_ge
  have hweekday := dayofweek_eq h.real (by omega)
  have hmonday : (if dayofweek time.year.toNat time.month.toNat time.day.toNat - 1 < 0 then 6
      else dayofweek time.year.toNat time.month.toNat time.day.toNat - 1) =
      ((dayNumber time.year.toNat time.month.toNat time.day.toNat : Int) + 2) % 7 := by
    rw [hweekday]
    split
    · omega
    · omega
  simp only [modTimeLocaltime, hmonday]
  rfl

include h in
/-- The seconds of the clock. -/
theorem time_now (hyear : 2000 ≤ time.year.toNat) :
    modTimeTime (.ok time) =
      some (((dayNumber time.year.toNat time.month.toNat time.day.toNat : Int) - 730425) * 86400 +
        (time.hour.toNat * 3600 + time.minute.toNat * 60 + time.second.toNat : Nat)) := by
  rw [modTimeTime, timeutilsSecondsSince2000_eq h.real hyear h.year_le h.hour_lt h.minute_lt
    h.second_lt]

include h in
theorem localtime_seconds (hyear : 2000 ≤ time.year.toNat) (getTime : GetTime) :
    modTimeLocaltime getTime
        (some (((dayNumber time.year.toNat time.month.toNat time.day.toNat : Int) - 730425) *
          86400 + (time.hour.toNat * 3600 + time.minute.toNat * 60 + time.second.toNat : Nat))) =
      .ok (some (localTuple time)) := by
  have hnumber := dayNumber_bounds h.real hyear h.year_le
  have hhour := h.hour_lt
  have hminute := h.minute_lt
  have hsecond := h.second_lt
  have hyday := timeutilsYearDay_bounds h.real
  have hyearLe := h.year_le
  have hmonth := h.real.month_le
  have hday := h.real.day_le_31
  have hseconds : time.hour.toNat * 3600 + time.minute.toNat * 60 + time.second.toNat < 86400 := by
    omega
  have hstruct := secondsToStructTime_eq h.real hyear h.year_le hseconds
  have hint := getInt_x64 (z := ((dayNumber time.year.toNat time.month.toNat time.day.toNat : Int) -
    730425) * 86400 + (time.hour.toNat * 3600 + time.minute.toNat * 60 + time.second.toNat : Nat))
    (by omega) (by omega)
  simp only [modTimeLocaltime, hint, bind, Except.bind]
  rw [mpUint_of_lt (by omega) (by omega), hstruct]
  have hyear16 := toNat_ofInt_uint16 (z := time.year.toNat) (by omega) (by omega)
  have hmonth8 := toNat_ofInt_uint8 (z := time.month.toNat) (by omega) (by omega)
  have hday8 := toNat_ofInt_uint8 (z := time.day.toNat) (by omega) (by omega)
  have hyday16 := toNat_ofInt_uint16 hyday.1 (by omega)
  simp only [hyear16, hmonth8, hday8, hyday16, localTuple, Except.ok.injEq, Option.some.injEq,
    List.cons.injEq, and_true, true_and]
  -- the seconds of the day, taken apart again
  refine ⟨?_, ?_, ?_, ?_⟩
  · rw [toNat_ofInt_uint8 (by omega) (by omega)]
    omega
  · rw [toNat_ofInt_uint8 (by omega) (by omega)]
    omega
  · rw [toNat_ofInt_uint8 (by omega) (by omega)]
    omega
  · exact toNat_ofInt_uint8 (by omega) (by omega)

end Clock

/-- `localtime()` and `localtime(time())` are the same, for any day from 2000 on. -/
theorem localtime_of_time {time : EfiTime} (h : time.Valid) (hyear : 2000 ≤ time.year.toNat) :
    ∃ seconds, modTimeTime (.ok time) = some seconds ∧
      modTimeLocaltime (.ok time) none = .ok (some (localTuple time)) ∧
      modTimeLocaltime (.ok time) (some seconds) = .ok (some (localTuple time)) :=
  ⟨_, time_now h hyear, localtime_now h, localtime_seconds h hyear _⟩

/-- The leap day of 2000. -/
theorem localtime_of_time_2000 :
    ∃ seconds, modTimeTime (.ok ⟨2000, 2, 29, 23, 59, 58, 0⟩) = some seconds ∧
      modTimeLocaltime (.ok ⟨2000, 2, 29, 23, 59, 58, 0⟩) none =
        .ok (some [2000, 2, 29, 23, 59, 58, 1, 60]) ∧
      modTimeLocaltime (.ok ⟨2000, 2, 29, 23, 59, 58, 0⟩) (some seconds) =
        .ok (some [2000, 2, 29, 23, 59, 58, 1, 60]) := by
  have hvalid : EfiTime.Valid ⟨2000, 2, 29, 23, 59, 58, 0⟩ := by
    constructor <;> first | decide | exact ⟨by decide, by decide, by decide, by decide⟩
  exact localtime_of_time hvalid (by decide)

end EfiLvgl.Time
