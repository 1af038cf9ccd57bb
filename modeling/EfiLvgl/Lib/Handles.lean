import Mathlib.Algebra.BigOperators.Group.List.Basic
import Mathlib.Algebra.GroupWithZero.Nat
import Mathlib.Tactic.ByContra

/-!
# EfiLvgl.Lib.Handles — handles that are opened and closed

What is done with handles is a list of events; a handle is the number of the call that opened it. A
stretch of the list that opens the next numbers is a `Segment`: segments follow each other
(`Segment.append`) and lie in each other (`Segment.around`), and whether the whole is balanced can
be read off them (`Segment.balanced_iff`). Nothing here names a particular program.
-/

namespace EfiLvgl

/-- An operation on a handle; one that consumes it closes it as well. -/
inductive HandleEvent where
  | opened (handle : Nat)
  | closed (handle : Nat)
  | consumed (handle : Nat)
  deriving DecidableEq, Repr

namespace HandleEvent

/-- How often an event opens a handle. -/
def opens (handle : Nat) : HandleEvent → Nat
  | .opened h => if h = handle then 1 else 0
  | _ => 0

/-- How often it closes the handle. -/
def closes (handle : Nat) : HandleEvent → Nat
  | .opened _ => 0
  | .closed h => if h = handle then 1 else 0
  | .consumed h => if h = handle then 1 else 0

end HandleEvent

/-- How often a handle is opened. -/
def openings (handle : Nat) (evs : List HandleEvent) : Nat :=
  (evs.map (HandleEvent.opens handle)).sum

/-- How often it is closed. -/
def closings (handle : Nat) (evs : List HandleEvent) : Nat :=
  (evs.map (HandleEvent.closes handle)).sum

/-- Each handle that is opened is closed exactly once, and no other one is closed. -/
def Balanced (evs : List HandleEvent) : Prop :=
  ∀ handle, openings handle evs ≤ 1 ∧ closings handle evs = openings handle evs

section Events

variable {handle : Nat} {e : HandleEvent} {evs evs' : List HandleEvent}

@[simp] theorem openings_nil : openings handle [] = 0 := rfl

@[simp] theorem openings_cons :
    openings handle (e :: evs) = e.opens handle + openings handle evs := by
  simp [openings]

@[simp] theorem openings_append :
    openings handle (evs ++ evs') = openings handle evs + openings handle evs' := by
  simp [openings]

@[simp] theorem closings_nil : closings handle [] = 0 := rfl

@[simp] theorem closings_cons :
    closings handle (e :: evs) = e.closes handle + closings handle evs := by
  simp [closings]

@[simp] theorem closings_append :
    closings handle (evs ++ evs') = closings handle evs + closings handle evs' := by
  simp [closings]

end Events

theorem balanced_nil : Balanced [] := fun _ => ⟨Nat.zero_le 1, rfl⟩

/-- A stretch of events that opens the handles from `n` on and before `m`, and closes no others;
`torn` says that one of them is left open, or closed more than once. -/
structure Segment (n m : Nat) (evs : List HandleEvent) (torn : Bool) : Prop where
  le : n ≤ m
  openings_eq : ∀ h, openings h evs = if n ≤ h ∧ h < m then 1 else 0
  outside : ∀ h, ¬ (n ≤ h ∧ h < m) → closings h evs = 0
  closed_iff : (∀ h, closings h evs = openings h evs) ↔ torn = false

namespace Segment

variable {n m k : Nat} {evs evs' : List HandleEvent} {torn torn' : Bool}

theorem nil (n : Nat) : Segment n n [] false where
  le := Nat.le_refl n
  openings_eq h := by
    rw [openings_nil, if_neg (by omega)]
  outside _ _ := rfl
  closed_iff := iff_of_true (fun _ => rfl) rfl

theorem append (h : Segment n m evs torn) (h' : Segment m k evs' torn') :
    Segment n k (evs ++ evs') (torn || torn') where
  le := Nat.le_trans h.le h'.le
  openings_eq i := by
    have hle := h.le
    have hle' := h'.le
    rw [openings_append, h.openings_eq, h'.openings_eq]
    split <;> split <;> split <;> omega
  outside i hi := by
    have hle := h.le
    have hle' := h'.le
    rw [closings_append, h.outside i (by omega), h'.outside i (by omega)]
  closed_iff := by
    rw [Bool.or_eq_false_iff, ← h.closed_iff, ← h'.closed_iff]
    constructor
    · intro hall
      -- a handle of one stretch is not one of the other
      have hother : ∀ i, (openings i evs = 0 ∧ closings i evs = 0) ∨
          (openings i evs' = 0 ∧ closings i evs' = 0) := by
        intro i
        by_cases hi : n ≤ i ∧ i < m
        · right
          rw [h'.openings_eq, if_neg (by omega)]
          exact ⟨rfl, h'.outside i (by omega)⟩
        · left
          rw [h.openings_eq, if_neg hi]
          exact ⟨rfl, h.outside i hi⟩
      have hsum : ∀ i, closings i evs + closings i evs' = openings i evs + openings i evs' := by
        intro i
        rw [← closings_append, ← openings_append]
        exact hall i
      constructor
      · intro i
        have hi := hsum i
        rcases hother i with ⟨hopened, hclosed⟩ | ⟨hopened, hclosed⟩
        · rw [hopened, hclosed]
        · omega
      · intro i
        have hi := hsum i
        rcases hother i with ⟨hopened, hclosed⟩ | ⟨hopened, hclosed⟩
        · omega
        · rw [hopened, hclosed]
    · rintro ⟨hleft, hright⟩ i
      rw [openings_append, closings_append, hleft, hright]

/-- A handle is opened before a stretch and closed behind it, by one event. -/
theorem around (h : Segment (n + 1) m evs torn) {e : HandleEvent}
    (he : e = .closed n ∨ e = .consumed n) :
    Segment n m (.opened n :: (evs ++ [e])) torn := by
  have hle := h.le
  have hopens : ∀ i, openings i (.opened n :: (evs ++ [e])) =
      (if n = i then 1 else 0) + openings i evs := by
    intro i
    rcases he with rfl | rfl <;> simp [HandleEvent.opens]
  have hcloses : ∀ i, closings i (.opened n :: (evs ++ [e])) =
      (if n = i then 1 else 0) + closings i evs := by
    intro i
    rcases he with rfl | rfl <;> simp [HandleEvent.closes, Nat.add_comm]
  refine ⟨by omega, ?_, ?_, ?_⟩
  · intro i
    rw [hopens, h.openings_eq]
    split <;> split <;> split <;> omega
  · intro i hi
    rw [hcloses, if_neg (by omega), h.outside i (by omega)]
  · -- one opening and one closing more, of the same handle
    rw [← h.closed_iff]
    simp only [hopens, hcloses, Nat.add_left_cancel_iff]

/-- A handle of the stretch that has been closed is closed once more behind it. -/
theorem again (h : Segment n m evs torn) {e : HandleEvent} {handle : Nat}
    (he : e = .closed handle ∨ e = .consumed handle) (hin : n ≤ handle ∧ handle < m)
    (hclosed : 0 < closings handle evs) : Segment n m (evs ++ [e]) true := by
  have hopens : ∀ i, openings i (evs ++ [e]) = openings i evs := by
    intro i
    rcases he with rfl | rfl <;> simp [HandleEvent.opens]
  have hcloses : ∀ i, closings i (evs ++ [e]) = closings i evs + if handle = i then 1 else 0 := by
    intro i
    rcases he with rfl | rfl <;> simp [HandleEvent.closes]
  refine ⟨h.le, ?_, ?_, ?_⟩
  · intro i
    rw [hopens, h.openings_eq]
  · intro i hi
    have hne : handle ≠ i := by
      rintro rfl
      exact hi hin
    rw [hcloses, if_neg hne, h.outside i hi]
  · -- the handle is opened once, and closed at least twice now
    refine iff_of_false ?_ (by simp)
    intro hall
    have heq := hall handle
    rw [hopens, hcloses, if_pos rfl, h.openings_eq, if_pos hin] at heq
    omega

/-- Handles that are opened and left. -/
theorem left (n k : Nat) :
    Segment n (n + k) ((List.range' n k).map .opened) (decide (k ≠ 0)) := by
  have hopens : ∀ i, openings i ((List.range' n k).map .opened) =
      if n ≤ i ∧ i < n + k then 1 else 0 := by
    intro i
    induction k generalizing n with
    | zero => simp
    | succ k ih =>
        rw [List.range'_succ, List.map_cons, openings_cons, ih]
        simp only [HandleEvent.opens]
        split <;> split <;> split <;> omega
  have hcloses : ∀ i, closings i ((List.range' n k).map .opened) = 0 := by
    intro i
    simp [closings, Function.comp_def, HandleEvent.closes]
  refine ⟨Nat.le_add_right n k, hopens, fun i _ => hcloses i, ?_⟩
  rw [decide_eq_false_iff_not, not_not]
  constructor
  · intro hall
    by_contra hk
    -- the first of them is not closed
    have heq := hall n
    rw [hopens, hcloses, if_pos (by omega)] at heq
    cases heq
  · rintro rfl i
    rfl

/-- The order of the events does not matter. -/
theorem perm (h : Segment n m evs torn) (hperm : evs.Perm evs') : Segment n m evs' torn := by
  have hopens : ∀ i, openings i evs' = openings i evs := fun i =>
    (hperm.map (HandleEvent.opens i)).symm.sum_eq
  have hcloses : ∀ i, closings i evs' = closings i evs := fun i =>
    (hperm.map (HandleEvent.closes i)).symm.sum_eq
  refine ⟨h.le, ?_, ?_, ?_⟩
  · intro i
    rw [hopens, h.openings_eq]
  · intro i hi
    rw [hcloses, h.outside i hi]
  · rw [← h.closed_iff]
    simp only [hopens, hcloses]

theorem balanced_iff (h : Segment n m evs torn) : Balanced evs ↔ torn = false := by
  rw [← h.closed_iff]
  constructor
  · intro hbalanced i
    exact (hbalanced i).2
  · intro hall i
    refine ⟨?_, hall i⟩
    rw [h.openings_eq]
    split <;> omega

end Segment

end EfiLvgl
