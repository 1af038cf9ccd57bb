import Mathlib.Data.Finset.Interval
import Mathlib.Order.Interval.Finset.Nat
import Mathlib.Algebra.Order.BigOperators.Group.List

/-!
# EfiLvgl.Lib.Extent — extents of cells

An extent is a range of consecutive cells. Extents that share no cell and lie below
a bound have no more cells together than the bound (`sum_len_le`); extents put one
behind the other share none (`consecutive_disjoint`).
-/

namespace EfiLvgl

/-- The cells `start`, …, `start + len - 1`. -/
structure Extent where
  start : Nat
  len : Nat
deriving DecidableEq, Repr

namespace Extent

/-- The cells of an extent. -/
def cells (e : Extent) : Finset Nat := Finset.Ico e.start (e.start + e.len)

/-- No cell is in two of the extents. -/
def Apart (es : List Extent) : Prop := es.Pairwise fun d e => Disjoint d.cells e.cells

/-- The cells of all extents. -/
def union (es : List Extent) : Finset Nat := es.foldr (fun e s => e.cells ∪ s) ∅

theorem mem_union {es : List Extent} {i : Nat} : i ∈ union es ↔ ∃ e ∈ es, i ∈ e.cells := by
  induction es with
  | nil => simp [union]
  | cons e es ih =>
      have hcons : union (e :: es) = e.cells ∪ union es := rfl
      rw [hcons, Finset.mem_union, ih]
      simp

theorem card_union {es : List Extent} (h : Apart es) :
    (union es).card = (es.map Extent.len).sum := by
  induction es with
  | nil => simp [union]
  | cons e es ih =>
      rcases List.pairwise_cons.mp h with ⟨he, hes⟩
      have hcons : union (e :: es) = e.cells ∪ union es := rfl
      -- a cell of both would be in one of the other extents
      have hdisj : Disjoint e.cells (union es) := by
        rw [Finset.disjoint_left]
        intro i hi hmem
        rcases mem_union.mp hmem with ⟨d, hd, hid⟩
        exact Finset.disjoint_left.mp (he d hd) hi hid
      rw [hcons, Finset.card_union_of_disjoint hdisj, ih hes]
      simp [cells]

/-- Extents that share no cell and end below `n` have at most `n` cells. -/
theorem sum_len_le {es : List Extent} {n : Nat} (h : Apart es)
    (hn : ∀ e ∈ es, e.start + e.len ≤ n) : (es.map Extent.len).sum ≤ n := by
  have hsub : union es ⊆ Finset.range n := by
    intro i hi
    rcases mem_union.mp hi with ⟨e, he, hie⟩
    have := hn e he
    simp only [cells, Finset.mem_Ico] at hie
    simp only [Finset.mem_range]
    omega
  calc (es.map Extent.len).sum = (union es).card := (card_union h).symm
    _ ≤ (Finset.range n).card := Finset.card_le_card hsub
    _ = n := Finset.card_range n

/-! ## One behind the other -/

/-- Extents of the given lengths, the first at `start`. -/
def consecutive (start : Nat) : List Nat → List Extent
  | [] => []
  | n :: ns => ⟨start, n⟩ :: consecutive (start + n) ns

@[simp] theorem consecutive_nil (start : Nat) : consecutive start [] = [] := rfl

@[simp] theorem consecutive_cons (start n : Nat) (ns : List Nat) :
    consecutive start (n :: ns) = ⟨start, n⟩ :: consecutive (start + n) ns := rfl

/-- They lie between `start` and `start` plus the sum of the lengths. -/
theorem mem_consecutive {ns : List Nat} {start : Nat} {e : Extent}
    (h : e ∈ consecutive start ns) : start ≤ e.start ∧ e.start + e.len ≤ start + ns.sum := by
  induction ns generalizing start with
  | nil => simp at h
  | cons n ns ih =>
      rw [List.sum_cons]
      rcases List.mem_cons.mp h with rfl | h
      · dsimp only
        omega
      · have := ih h
        omega

theorem consecutive_disjoint (ns : List Nat) (start : Nat) : Apart (consecutive start ns) := by
  induction ns generalizing start with
  | nil => exact List.Pairwise.nil
  | cons n ns ih =>
      refine List.pairwise_cons.mpr ⟨?_, ih (start + n)⟩
      intro e he
      -- all others begin behind this one
      have := (mem_consecutive he).1
      rw [Finset.disjoint_left]
      intro i hi hie
      simp only [cells, Finset.mem_Ico] at hi hie
      omega

end Extent

end EfiLvgl
