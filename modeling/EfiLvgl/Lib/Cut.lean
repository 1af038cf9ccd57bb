import Mathlib.Data.List.Basic

/-!
# EfiLvgl.Lib.Cut — cutting a list at some of its ranges

`pieces` are what is left of a list between ranges that follow each other (`InOrder`). Together
with the ranges they give the list back (`interleave_pieces`). Nothing here names a particular
program.
-/

namespace EfiLvgl.Cut

universe u

variable {α : Type u}

/-- The positions from `first` on, up to `last`. -/
structure Span where
  first : Nat
  last : Nat
deriving DecidableEq, Repr

/-- Ranges that follow each other from a position on, among so many elements. -/
def InOrder (n : Nat) : Nat → List Span → Prop
  | pos, [] => pos ≤ n
  | pos, r :: rs => pos ≤ r.first ∧ r.first ≤ r.last ∧ InOrder n r.last rs

def decideInOrder (n : Nat) : (pos : Nat) → (rs : List Span) → Decidable (InOrder n pos rs)
  | pos, [] => inferInstanceAs (Decidable (pos ≤ n))
  | pos, r :: rs =>
      have := decideInOrder n r.last rs
      inferInstanceAs (Decidable (pos ≤ r.first ∧ r.first ≤ r.last ∧ InOrder n r.last rs))

instance (n pos : Nat) (rs : List Span) : Decidable (InOrder n pos rs) := decideInOrder n pos rs

/-- The elements of a range. -/
def slice (xs : List α) (first last : Nat) : List α := (xs.drop first).take (last - first)

/-- What is between the ranges, from a position on. -/
def pieces (xs : List α) : Nat → List Span → List (List α)
  | pos, [] => [xs.drop pos]
  | pos, r :: rs => slice xs pos r.first :: pieces xs r.last rs

/-- The elements of each range. -/
def separators (xs : List α) (rs : List Span) : List (List α) :=
  rs.map fun r => slice xs r.first r.last

/-- One list of each kind in turn. -/
def interleave : List (List α) → List (List α) → List α
  | p :: ps, s :: ss => p ++ s ++ interleave ps ss
  | ps, _ => ps.flatten

theorem InOrder.le {n pos : Nat} {rs : List Span} (h : InOrder n pos rs) : pos ≤ n := by
  induction rs generalizing pos with
  | nil => exact h
  | cons r rs ih => exact Nat.le_trans (Nat.le_trans h.1 h.2.1) (ih h.2.2)

/-- The first ones of them follow each other as well. -/
theorem InOrder.take {n pos : Nat} {rs : List Span} (h : InOrder n pos rs) (k : Nat) :
    InOrder n pos (rs.take k) := by
  induction rs generalizing pos k with
  | nil =>
      rw [List.take_nil]
      exact h
  | cons r rs ih =>
      cases k with
      | zero => exact h.le
      | succ k => exact ⟨h.1, h.2.1, ih h.2.2 k⟩

theorem slice_append_drop (xs : List α) {first last : Nat} (h : first ≤ last) :
    slice xs first last ++ xs.drop last = xs.drop first := by
  have hdrop : xs.drop last = (xs.drop first).drop (last - first) := by
    rw [List.drop_drop, Nat.add_sub_cancel' h]
  rw [slice, hdrop, List.take_append_drop]

/-- Nothing is lost. -/
theorem interleave_pieces (xs : List α) {n pos : Nat} {rs : List Span} (h : InOrder n pos rs) :
    interleave (pieces xs pos rs) (separators xs rs) = xs.drop pos := by
  induction rs generalizing pos with
  | nil =>
      show ([xs.drop pos] : List (List α)).flatten = _
      rw [List.flatten_singleton]
  | cons r rs ih =>
      show slice xs pos r.first ++ slice xs r.first r.last ++
        interleave (pieces xs r.last rs) (separators xs rs) = _
      -- the piece and the range join the rest, from right to left
      rw [ih h.2.2, List.append_assoc, slice_append_drop xs h.2.1, slice_append_drop xs h.1]

end EfiLvgl.Cut
