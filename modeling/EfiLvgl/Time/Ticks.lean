import EfiLvgl.Time.LocalTime
import Mathlib.Data.Int.ModEq
import Mathlib.Tactic.Linarith

/-!
# EfiLvgl.Time.Ticks — ticks and their differences

`time_ticks_ms`, `time_ticks_us`, `time_ticks_add` and `time_ticks_diff` of `modtime.c`. Ticks
are made of the second and its parts alone, so they start again with every minute; sums and
differences are taken for ticks that start again after a quarter of all words.

`ticks_diff_iff`: a difference is the time that has passed exactly if both readings are of the
same minute. `ticks_diff_add`: it is what has been added, in however many steps.
-/

namespace EfiLvgl.Time

open EfiLvgl.Calendar EfiLvgl.Uefi

/-! ## Ticks -/

/-- `MICROPY_PY_UTIME_TICKS_PERIOD`, `MP_SMALL_INT_POSITIVE_MASK + 1`. -/
def ticksPeriod (a : Arch) : Nat := a.word / 4

/-- `time_ticks_ms`; `none` stands for `None`. -/
def timeTicksMs (a : Arch) (getTime : GetTime) : Option Int :=
  match getTime with
  | .error _ => none
  | .ok time => some (a.smallInt
      ((time.second.toNat * 1000 + time.nanosecond.toNat / 1000000) % 2 ^ 32))

/-- `time_ticks_us`. -/
def timeTicksUs (getTime : GetTime) : Option Int :=
  match getTime with
  | .error _ => none
  | .ok time => some
      ((time.second.toNat * 1000000 + time.nanosecond.toNat / 1000) % 2 ^ 32 : Nat)

/-- `time_ticks_diff`, of small integers. -/
def timeTicksDiff (a : Arch) (endIn startIn : Int) : Int :=
  let start := (startIn % a.word).toNat
  let end_ := (endIn % a.word).toNat
  let diff := a.sub (((a.sub end_ start + ticksPeriod a / 2) % a.word) &&& (ticksPeriod a - 1))
    (ticksPeriod a / 2)
  a.smallInt diff

/-- `time_ticks_add`, of a small integer and an integer. -/
def timeTicksAdd (a : Arch) (ticksIn deltaIn : Int) : Res Int := do
  let ticks := (ticksIn % a.word).toNat
  let delta ← getInt a deltaIn
  return a.smallInt ((ticks + (delta % a.word).toNat) % a.word &&& (ticksPeriod a - 1))

/-! ## The time that has passed -/

/-- The minutes of the clock, from 1 March of the year 0 on. -/
def EfiTime.minutes (t : EfiTime) : Nat :=
  (dayNumber t.year.toNat t.month.toNat t.day.toNat * 24 + t.hour.toNat) * 60 + t.minute.toNat

/-- All of the clock in nanoseconds. -/
def EfiTime.nanoseconds (t : EfiTime) : Nat :=
  (t.minutes * 60 + t.second.toNat) * 1000000000 + t.nanosecond.toNat

/-- Whole milliseconds and microseconds. -/
def EfiTime.milliseconds (t : EfiTime) : Nat := t.nanoseconds / 1000000
def EfiTime.microseconds (t : EfiTime) : Nat := t.nanoseconds / 1000

/-- The mask leaves what is left of periods. -/
theorem mask_ticks (a : Arch) (n : Nat) : n &&& (ticksPeriod a - 1) = n % ticksPeriod a := by
  cases a with
  | ia32 => exact Nat.and_two_pow_sub_one_eq_mod n 30
  | x64 => exact Nat.and_two_pow_sub_one_eq_mod n 62

theorem word_eq_ticksPeriod (a : Arch) :
    a.word = 4 * ticksPeriod a ∧ ticksPeriod a = 2 * (ticksPeriod a / 2) ∧
      60000000 < ticksPeriod a / 2 := by
  cases a with
  | ia32 => decide
  | x64 => decide

theorem smallInt_of_lt {a : Arch} {n : Nat} (h : n < ticksPeriod a) : a.smallInt n = n := by
  have hword := word_eq_ticksPeriod a
  have hhalf : a.word / 2 = 2 * ticksPeriod a := by omega
  rw [Arch.smallInt, hhalf, Nat.mod_eq_of_lt (by omega)]
  exact if_pos (by omega)

/-- A difference of words, with one word more where it would be negative. -/
theorem sub_cases {a : Arch} {n k : Nat} (hn : n < a.word) (hk : k < a.word) :
    a.sub n k = if k ≤ n then n - k else n + a.word - k := by
  rw [Arch.sub, Nat.mod_eq_of_lt hk]
  split
  · have hover : n + (a.word - k) = n - k + a.word := by omega
    rw [hover, Nat.add_mod_right, Nat.mod_eq_of_lt (by omega)]
  · rw [Nat.mod_eq_of_lt (by omega)]
    omega

theorem smallInt_sub {a : Arch} {n k : Nat} (hn : n < ticksPeriod a) (hk : k ≤ ticksPeriod a) :
    a.smallInt (a.sub n k) = (n : Int) - k := by
  have hword := word_eq_ticksPeriod a
  have hhalf : a.word / 2 = 2 * ticksPeriod a := by omega
  rw [sub_cases (by omega) (by omega), Arch.smallInt, hhalf]
  split
  · rw [Nat.mod_eq_of_lt (by omega)]
    rw [if_pos (by omega)]
    omega
  · have hover : n + a.word - k = n + 2 * ticksPeriod a - k + 2 * ticksPeriod a := by omega
    rw [hover, Nat.add_mod_right, Nat.mod_eq_of_lt (by omega)]
    rw [if_neg (by omega)]
    omega

/-- The difference of two counts that are less than half a period apart. -/
theorem timeTicksDiff_eq (a : Arch) {m n : Nat} (hm : m < ticksPeriod a / 2)
    (hn : n < ticksPeriod a / 2) : timeTicksDiff a m n = (m : Int) - n := by
  have hword := word_eq_ticksPeriod a
  have hmod : ∀ k < ticksPeriod a / 2, (((k : Nat) : Int) % a.word).toNat = k := by
    intro k hk
    rw [← Int.natCast_emod, Int.toNat_natCast, Nat.mod_eq_of_lt (by omega)]
  simp only [timeTicksDiff, hmod m hm, hmod n hn, mask_ticks]
  have hshift : (a.sub m n + ticksPeriod a / 2) % a.word % ticksPeriod a =
      m + ticksPeriod a / 2 - n := by
    rw [sub_cases (by omega) (by omega), hword.1, Nat.mod_mul_left_mod]
    split
    · rw [Nat.mod_eq_of_lt (by omega)]
      omega
    · have hover : m + 4 * ticksPeriod a - n + ticksPeriod a / 2 =
          m + ticksPeriod a / 2 - n + 4 * ticksPeriod a := by omega
      rw [hover, Nat.add_mul_mod_self_right, Nat.mod_eq_of_lt (by omega)]
  rw [hshift, smallInt_sub (by omega) (by omega)]
  omega

/-! ## Ticks against the clock -/

section Clock

variable {a : Arch} {t t₁ t₂ : EfiTime}

/-- The ticks of a second's thousandths, and the minutes before. -/
theorem ticksMs_eq (a : Arch) (h : t.Valid) :
    ∃ ticks : Nat, timeTicksMs a (.ok t) = some (ticks : Int) ∧ ticks < 60000 ∧
      t.milliseconds = t.minutes * 60000 + ticks := by
  have hsecond := h.second_lt
  have hnano := h.nanosecond_lt
  have hperiod := word_eq_ticksPeriod a
  refine ⟨t.second.toNat * 1000 + t.nanosecond.toNat / 1000000, ?_, ?_, ?_⟩
  · rw [timeTicksMs, Nat.mod_eq_of_lt (by omega), smallInt_of_lt (by omega)]
  · omega
  · rw [EfiTime.milliseconds, EfiTime.nanoseconds]
    omega

theorem ticksUs_eq (h : t.Valid) :
    ∃ ticks : Nat, timeTicksUs (.ok t) = some (ticks : Int) ∧ ticks < 60000000 ∧
      t.microseconds = t.minutes * 60000000 + ticks := by
  have hsecond := h.second_lt
  have hnano := h.nanosecond_lt
  refine ⟨t.second.toNat * 1000000 + t.nanosecond.toNat / 1000, ?_, ?_, ?_⟩
  · rw [timeTicksUs, Nat.mod_eq_of_lt (by omega)]
  · omega
  · rw [EfiTime.microseconds, EfiTime.nanoseconds]
    omega

/-- Two readings' ticks differ by the time between them. -/
def DiffMeasures (a : Arch) (ticks₁ ticks₂ : Option Int) (elapsed : Int) : Prop :=
  ∃ start finish, ticks₁ = some start ∧ ticks₂ = some finish ∧
    timeTicksDiff a finish start = elapsed

/-- Counts that start again after a number of units. -/
theorem diffMeasures_iff {unit m₁ m₂ n₁ n₂ : Nat} (hunit : unit ≤ 60000000) (h₁ : n₁ < unit)
    (h₂ : n₂ < unit) :
    DiffMeasures a (some (n₁ : Int)) (some (n₂ : Int))
        ((m₂ * unit + n₂ : Nat) - (m₁ * unit + n₁ : Nat) : Int) ↔ m₁ = m₂ := by
  have hperiod := word_eq_ticksPeriod a
  have hdiff := timeTicksDiff_eq a (m := n₂) (n := n₁) (by omega) (by omega)
  constructor
  · rintro ⟨start, finish, hstart, hfinish, helapsed⟩
    cases hstart
    cases hfinish
    rw [hdiff] at helapsed
    push_cast at helapsed
    have hminutes : ((m₂ : Int) - m₁) * unit = 0 := by linarith
    rcases Int.mul_eq_zero.mp hminutes with hsame | hzero
    · omega
    · omega
  · rintro rfl
    refine ⟨n₁, n₂, rfl, rfl, ?_⟩
    rw [hdiff]
    push_cast
    linarith

/-- Ticks measure the time between two readings, near to each other or not, exactly if both are
of the same minute. -/
theorem ticks_diff_iff (a : Arch) (h₁ : t₁.Valid) (h₂ : t₂.Valid) :
    (DiffMeasures a (timeTicksMs a (.ok t₁)) (timeTicksMs a (.ok t₂))
        ((t₂.milliseconds : Int) - t₁.milliseconds) ↔ t₁.minutes = t₂.minutes) ∧
      (DiffMeasures a (timeTicksUs (.ok t₁)) (timeTicksUs (.ok t₂))
        ((t₂.microseconds : Int) - t₁.microseconds) ↔ t₁.minutes = t₂.minutes) := by
  constructor
  · rcases ticksMs_eq a h₁ with ⟨n₁, hticks₁, hlt₁, htime₁⟩
    rcases ticksMs_eq a h₂ with ⟨n₂, hticks₂, hlt₂, htime₂⟩
    rw [hticks₁, hticks₂, htime₁, htime₂]
    exact diffMeasures_iff (by decide) hlt₁ hlt₂
  · rcases ticksUs_eq h₁ with ⟨n₁, hticks₁, hlt₁, htime₁⟩
    rcases ticksUs_eq h₂ with ⟨n₂, hticks₂, hlt₂, htime₂⟩
    rw [hticks₁, hticks₂, htime₁, htime₂]
    exact diffMeasures_iff (by decide) hlt₁ hlt₂

end Clock

/-- A new year begins. -/
def beforeMidnight : EfiTime := ⟨2023, 12, 31, 23, 59, 59, 900000000⟩
def afterMidnight : EfiTime := ⟨2024, 1, 1, 0, 0, 0, 100000000⟩
def laterAfterMidnight : EfiTime := ⟨2024, 1, 1, 0, 0, 0, 300000000⟩

theorem midnight_valid :
    beforeMidnight.Valid ∧ afterMidnight.Valid ∧ laterAfterMidnight.Valid := by
  refine ⟨?_, ?_, ?_⟩ <;> constructor <;>
    first | decide | exact ⟨by decide, by decide, by decide, by decide⟩

/-- Within the minute, 200 milliseconds are measured. -/
theorem ticks_after_midnight :
    DiffMeasures .x64 (timeTicksMs .x64 (.ok afterMidnight))
        (timeTicksMs .x64 (.ok laterAfterMidnight)) 200 ∧
      DiffMeasures .x64 (timeTicksUs (.ok afterMidnight))
        (timeTicksUs (.ok laterAfterMidnight)) 200000 := by
  rcases ticks_diff_iff .x64 midnight_valid.2.1 midnight_valid.2.2 with ⟨hms, hus⟩
  have hsame : afterMidnight.minutes = laterAfterMidnight.minutes := rfl
  have hpassed : (laterAfterMidnight.milliseconds : Int) - afterMidnight.milliseconds = 200 ∧
      (laterAfterMidnight.microseconds : Int) - afterMidnight.microseconds = 200000 := by
    decide +kernel
  rw [← hpassed.1, ← hpassed.2]
  exact ⟨hms.mpr hsame, hus.mpr hsame⟩

/-- 200 milliseconds pass, and the ticks go back by nearly a minute. -/
theorem ticks_across_midnight :
    ((afterMidnight.milliseconds : Int) - beforeMidnight.milliseconds = 200 ∧
        ¬ DiffMeasures .x64 (timeTicksMs .x64 (.ok beforeMidnight))
          (timeTicksMs .x64 (.ok afterMidnight)) 200) ∧
      timeTicksMs .x64 (.ok beforeMidnight) = some 59900 ∧
      timeTicksMs .x64 (.ok afterMidnight) = some 100 ∧
      timeTicksDiff .x64 100 59900 = -59800 := by
  have hdiff : timeTicksDiff .x64 100 59900 = -59800 := by decide
  refine ⟨⟨by decide +kernel, ?_⟩, by decide, by decide, hdiff⟩
  rintro ⟨start, finish, hstart, hfinish, helapsed⟩
  have hstart59900 : timeTicksMs .x64 (.ok beforeMidnight) = some 59900 := by decide
  have hfinish100 : timeTicksMs .x64 (.ok afterMidnight) = some 100 := by decide
  rw [hstart59900] at hstart
  rw [hfinish100] at hfinish
  cases hstart
  cases hfinish
  rw [hdiff] at helapsed
  exact absurd helapsed (by decide)

/-! ## Adding ticks -/

section Adding

variable (a : Arch)

theorem ticksPeriod_dvd : (ticksPeriod a : Int) ∣ (a.word : Int) := by
  refine ⟨4, ?_⟩
  have hword := (word_eq_ticksPeriod a).1
  omega

/-- A word is what it stands for, up to periods. -/
theorem toNat_word_modEq (z : Int) : ((z % a.word).toNat : Int) ≡ z [ZMOD ticksPeriod a] := by
  have hpos : (a.word : Int) ≠ 0 := by
    have hword := word_eq_ticksPeriod a
    omega
  rw [Int.toNat_of_nonneg (Int.emod_nonneg z hpos)]
  exact (Int.mod_modEq z a.word).of_dvd (ticksPeriod_dvd a)

theorem natCast_word_modEq (n : Nat) : ((n % a.word : Nat) : Int) ≡ n [ZMOD ticksPeriod a] := by
  rw [Int.natCast_emod]
  exact (Int.mod_modEq n a.word).of_dvd (ticksPeriod_dvd a)

theorem sub_modEq {n k : Nat} (hn : n < a.word) (hk : k < a.word) :
    (a.sub n k : Int) ≡ n - k [ZMOD ticksPeriod a] := by
  rw [sub_cases hn hk]
  split
  · next hle => rw [Nat.cast_sub hle]
  · have hover : ((n + a.word - k : Nat) : Int) = n - k + a.word := by omega
    rw [hover]
    have hword : (a.word : Int) ≡ 0 [ZMOD ticksPeriod a] :=
      Int.modEq_zero_iff_dvd.mpr (ticksPeriod_dvd a)
    exact ((Int.ModEq.refl _).add hword).trans (by rw [Int.add_zero])

theorem toNat_word_lt (z : Int) : (z % a.word).toNat < a.word := by
  have hpos : (0 : Int) < a.word := by
    have hword := word_eq_ticksPeriod a
    omega
  have hlt := Int.emod_lt_of_pos z hpos
  have hnonneg := Int.emod_nonneg z hpos.ne'
  omega

/-- The difference of any two small integers, up to periods and between half a period back and half
a period on. -/
theorem timeTicksDiff_modEq (finish start : Int) :
    timeTicksDiff a finish start =
      (finish - start + (ticksPeriod a / 2 : Nat)) % ticksPeriod a - (ticksPeriod a / 2 : Nat) := by
  have hword := word_eq_ticksPeriod a
  have hpos : 0 < ticksPeriod a := by omega
  simp only [timeTicksDiff, mask_ticks]
  rw [smallInt_sub (Nat.mod_lt _ hpos) (by omega), Int.natCast_emod]
  congr 1
  have hsub := (sub_modEq a (toNat_word_lt a finish) (toNat_word_lt a start)).trans
    ((toNat_word_modEq a finish).sub (toNat_word_modEq a start))
  have hshift := natCast_word_modEq a
    (a.sub (finish % a.word).toNat (start % a.word).toNat + ticksPeriod a / 2)
  rw [Nat.cast_add] at hshift
  exact hshift.trans (hsub.add_right _)

/-- Ticks go on by what is added, and start again after a period. -/
theorem timeTicksAdd_eq {ticks delta : Int} (hdelta : -(a.word : Int) < 2 * delta)
    (hlt : 2 * delta < a.word) :
    timeTicksAdd a ticks delta = .ok ((ticks + delta) % ticksPeriod a) := by
  have hword := word_eq_ticksPeriod a
  have hpos : 0 < ticksPeriod a := by omega
  simp only [timeTicksAdd, getInt, if_pos (And.intro hdelta hlt), bind, Except.bind, pure,
    Except.pure, mask_ticks]
  rw [smallInt_of_lt (Nat.mod_lt _ hpos), Int.natCast_emod]
  have hsum := (natCast_word_modEq a ((ticks % a.word).toNat + (delta % a.word).toNat)).trans
    ((toNat_word_modEq a ticks).add (toNat_word_modEq a delta))
  exact congrArg Except.ok hsum

/-- Deltas one after the other: the ticks are where their sum leads. -/
theorem ticksAdd_foldlM (deltas : List Int)
    (hdeltas : ∀ delta ∈ deltas, -(a.word : Int) < 2 * delta ∧ 2 * delta < a.word) (start : Int) :
    ∃ finish, deltas.foldlM (timeTicksAdd a) start = .ok finish ∧
      finish ≡ start + deltas.sum [ZMOD ticksPeriod a] := by
  induction deltas generalizing start with
  | nil =>
      refine ⟨start, rfl, ?_⟩
      rw [List.sum_nil, Int.add_zero]
  | cons delta deltas ih =>
      have hdelta := hdeltas delta List.mem_cons_self
      obtain ⟨finish, hrun, hfinish⟩ :=
        ih (fun d hd => hdeltas d (List.mem_cons_of_mem delta hd))
          ((start + delta) % ticksPeriod a)
      refine ⟨finish, ?_, ?_⟩
      · rw [List.foldlM_cons, timeTicksAdd_eq a hdelta.1 hdelta.2]
        exact hrun
      · rw [List.sum_cons, ← Int.add_assoc]
        exact hfinish.trans ((Int.mod_modEq _ _).add_right _)

/-- However many deltas are added, the difference to where one started is their sum, while that is
less than half a period. -/
theorem ticks_diff_add {deltas : List Int} (start : Int)
    (hdeltas : ∀ delta ∈ deltas, -(a.word : Int) < 2 * delta ∧ 2 * delta < a.word)
    (hge : -((ticksPeriod a / 2 : Nat) : Int) ≤ deltas.sum)
    (hlt : deltas.sum < (ticksPeriod a / 2 : Nat)) :
    ∃ finish, deltas.foldlM (timeTicksAdd a) start = .ok finish ∧
      timeTicksDiff a finish start = deltas.sum := by
  have hword := word_eq_ticksPeriod a
  obtain ⟨finish, hrun, hfinish⟩ := ticksAdd_foldlM a deltas hdeltas start
  refine ⟨finish, hrun, ?_⟩
  have hsum : finish - start + (ticksPeriod a / 2 : Nat) ≡
      deltas.sum + (ticksPeriod a / 2 : Nat) [ZMOD ticksPeriod a] := by
    have hback := (hfinish.sub_right start).add_right ((ticksPeriod a / 2 : Nat) : Int)
    rwa [add_sub_cancel_left] at hback
  rw [timeTicksDiff_modEq, hsum, Int.emod_eq_of_lt (by omega) (by omega), Int.add_sub_cancel]

end Adding

/-- Across the end of a period and back behind the start. -/
theorem ticks_diff_add_wrap :
    ∃ finish, [30, 12, -50].foldlM (timeTicksAdd .ia32) 1073741820 = .ok finish ∧
      timeTicksDiff .ia32 finish 1073741820 = -8 :=
  ticks_diff_add .ia32 1073741820 (by decide) (by decide) (by decide)

end EfiLvgl.Time
