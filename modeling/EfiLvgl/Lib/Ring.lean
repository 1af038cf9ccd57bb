import EfiLvgl.Lib.Slots
import Mathlib.Algebra.Group.Fin.Basic
import Mathlib.Algebra.GroupWithZero.Nat

/-!
# EfiLvgl.Lib.Ring — a ring of slots with a gap

A table of `n` slots is filled around and around. The slot at the index is kept free, and
behind it are the values, the latest first, as many as there is room for. Nothing here names
a particular program:

* `back index k` is the slot `k` steps behind the index;
* `RingHolds t index xs` says that the table holds the list `xs`, the latest value first;
* `RingHolds.push` and `ring_empty` are its two rules.
-/

namespace EfiLvgl.Slots

universe u

variable {α : Type u} {n : Nat} [NeZero n]

/-! ## Steps around the ring -/

/-- The slot `k` steps behind the index. -/
def back (index : Fin n) (k : Nat) : Fin n := index - Fin.ofNat n k

theorem ofNat_succ (k : Nat) : Fin.ofNat n (k + 1) = Fin.ofNat n k + 1 := by
  apply Fin.ext
  simp [Fin.val_add, Fin.ofNat, Nat.add_mod]

@[simp] theorem back_zero (index : Fin n) : back index 0 = index := by
  have hzero : Fin.ofNat n 0 = 0 := rfl
  rw [back, hzero, sub_zero]

/-- One step behind. -/
theorem back_sub_one (index : Fin n) (k : Nat) : back index k - 1 = back index (k + 1) := by
  rw [back, back, ofNat_succ, sub_sub]

theorem back_succ_add_one (index : Fin n) (k : Nat) : back index (k + 1) + 1 = back index k := by
  rw [← back_sub_one, sub_add_cancel]

/-- Once around. -/
theorem back_size (index : Fin n) : back index n = index := by
  have hzero : Fin.ofNat n n = 0 := Fin.ext (by simp [Fin.ofNat])
  rw [back, hzero, sub_zero]

/-- The slot ahead of the index is the last one behind it. -/
theorem add_one_eq_back (index : Fin n) : index + 1 = back index (n - 1) := by
  have hpos : 0 < n := Nat.pos_of_neZero n
  have hround : back index (n - 1 + 1) = index := by
    rw [Nat.sub_add_cancel hpos, back_size]
  rw [← hround, back_succ_add_one, hround]

theorem back_injective {index : Fin n} {k l : Nat} (hk : k < n) (hl : l < n)
    (h : back index k = back index l) : k = l := by
  have hval : (Fin.ofNat n k).val = (Fin.ofNat n l).val := congrArg Fin.val (sub_right_injective h)
  rwa [Fin.val_ofNat, Fin.val_ofNat, Nat.mod_eq_of_lt hk, Nat.mod_eq_of_lt hl] at hval

/-! ## What the ring holds -/

/-- What is `k` steps behind the index: the gap, and then the values. -/
def behind (xs : List α) : Nat → Option α
  | 0 => none
  | k + 1 => xs[k]?

/-- The table holds the values behind the index. -/
def RingHolds (t : Table α n) (index : Fin n) (xs : List α) : Prop :=
  ∀ k, k < n → t (back index k) = behind xs k

theorem ring_empty (index : Fin n) : RingHolds (fun _ => (none : Option α)) index [] := by
  intro k _
  cases k with
  | zero => rfl
  | succ k => rfl

/-- A value goes into the gap, and the slot ahead becomes the gap. -/
theorem RingHolds.push {t : Table α n} {index : Fin n} {xs : List α} (h : RingHolds t index xs)
    (x : α) :
    RingHolds (clear (put t index x) (index + 1)) (index + 1) (x :: xs) := by
  intro k hk
  rw [clear_apply]
  cases k with
  | zero =>
      -- the gap of the new index
      rw [back_zero, if_pos rfl]
      rfl
  | succ k =>
      -- everything is one step further behind, and the gap is not among it
      have hstep : back (index + 1) (k + 1) = back index k := by
        rw [← back_sub_one, back, back, add_sub_right_comm, add_sub_cancel_right]
      have hgap : back (index + 1) (k + 1) ≠ index + 1 := by
        intro heq
        have hzero : k + 1 = 0 :=
          back_injective hk (Nat.pos_of_neZero n) (heq.trans (back_zero _).symm)
        exact Nat.succ_ne_zero k hzero
      rw [if_neg hgap, hstep, put_apply]
      cases k with
      | zero =>
          -- the old gap has the new value
          rw [back_zero, if_pos rfl]
          rfl
      | succ k =>
          -- the slots behind it keep theirs
          have hold : back index (k + 1) ≠ index := by
            intro heq
            have hzero : k + 1 = 0 :=
              back_injective (by omega) (Nat.pos_of_neZero n) (heq.trans (back_zero _).symm)
            exact Nat.succ_ne_zero k hzero
          rw [if_neg hold, h (k + 1) (by omega)]
          rfl

end EfiLvgl.Slots
