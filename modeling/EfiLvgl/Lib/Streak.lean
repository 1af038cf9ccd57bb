import Mathlib.Order.Basic
import Mathlib.Tactic.ByContra
import Mathlib.Tactic.Push

/-!
# EfiLvgl.Lib.Streak — counting values in a row

A counter goes over a sequence; it is increased where a test holds and set to 0 where it does
not. Nothing here names a particular program: `streak` is the counter, which may begin with a
value that was carried over, `holds_of_streak` and `le_streak` say what it counts, and
`FirstStreak` is the first place where it has come to `n`.
-/

namespace EfiLvgl.Streak

/-- The counter behind `j` values, when it began with `c`. -/
def streak (p : Nat → Bool) (c : Nat) : Nat → Nat
  | 0 => c
  | j + 1 => if p j then streak p c j + 1 else 0

variable {p : Nat → Bool} {c j n : Nat}

theorem streak_succ_of_true (h : p j = true) :
    streak p c (j + 1) = streak p c j + 1 := by
  rw [streak, if_pos h]

theorem streak_succ_of_false (h : p j = false) : streak p c (j + 1) = 0 := by
  rw [streak, h, if_neg Bool.false_ne_true]

/-- The counter has been set to 0, or all values have been counted on top of the carry. -/
theorem streak_le_or_eq (p : Nat → Bool) (c j : Nat) :
    streak p c j ≤ j ∨ streak p c j = c + j := by
  induction j with
  | zero => exact Or.inr rfl
  | succ j ih =>
      cases htest : p j with
      | false =>
          rw [streak_succ_of_false htest]
          exact Or.inl (Nat.zero_le _)
      | true =>
          rw [streak_succ_of_true htest]
          rcases ih with hle | heq
          · exact Or.inl (by omega)
          · exact Or.inr (by omega)

theorem streak_zero_le (p : Nat → Bool) (j : Nat) : streak p 0 j ≤ j := by
  rcases streak_le_or_eq p 0 j with h | h
  · exact h
  · omega

/-- The test holds of the values that are counted. -/
theorem holds_of_streak {i : Nat} (hij : i < j) (hlt : j ≤ i + streak p c j) :
    p i = true := by
  induction j with
  | zero => omega
  | succ j ih =>
      cases htest : p j with
      | false =>
          -- the counter is 0, so nothing is counted
          rw [streak_succ_of_false htest] at hlt
          omega
      | true =>
          rw [streak_succ_of_true htest] at hlt
          by_cases heq : i = j
          · rw [heq, htest]
          · exact ih (by omega) (by omega)

/-- When the test holds of all values, they are counted on top of the carry. -/
theorem streak_of_all (hall : ∀ i, i < j → p i = true) : streak p c j = c + j := by
  induction j with
  | zero => rfl
  | succ j ih =>
      rw [streak_succ_of_true (hall j (by omega)), ih fun i hi => hall i (by omega)]
      omega

/-- Values in a row are counted. -/
theorem le_streak (hle : n ≤ j) (hall : ∀ i, i < j → j ≤ i + n → p i = true) :
    n ≤ streak p c j := by
  induction n generalizing j with
  | zero => exact Nat.zero_le _
  | succ n ih =>
      -- the last of them is on top of those before it
      obtain ⟨j, rfl⟩ : ∃ k, j = k + 1 := ⟨j - 1, by omega⟩
      rw [streak_succ_of_true (hall j (by omega) (by omega))]
      have := ih (j := j) (by omega) fun i hi hij => hall i (by omega) (by omega)
      omega

/-- The first place at which the counter is `n`. -/
structure FirstStreak (p : Nat → Bool) (c n j : Nat) : Prop where
  eq : streak p c (j + 1) = n
  least : ∀ i, i ≤ j → streak p c i < n

/-- There are no `n` values in a row before the place at which they are found first. -/
theorem FirstStreak.none_before (h : FirstStreak p c n j) {i : Nat} (hi : i < j)
    (hle : n ≤ i + 1) : ∃ k, k ≤ i ∧ i + 1 ≤ k + n ∧ p k = false := by
  -- values in a row would have been counted, and the counter come to `n` earlier
  by_contra hnone
  push Not at hnone
  have hn := le_streak (p := p) (c := c) hle fun k hk hkn => by
    have hne := hnone k (by omega) hkn
    simpa using hne
  have := h.least (i + 1) (by omega)
  omega

end EfiLvgl.Streak
