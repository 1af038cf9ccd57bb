import Mathlib.Data.Fintype.Basic
import Mathlib.Data.List.FinRange

/-!
# EfiLvgl.Lib.Slots — tables of numbered slots

A table of `n` slots, each free or holding a value, in which a new value goes into
the first free slot behind some reserved ones. Nothing here names a particular
program:

* `firstFree` is the search; `firstFree_eq_some` and `firstFree_eq_none` say what it
  finds, so that a client never unfolds it;
* `put` and `clear` change one slot and leave the others alone.
-/

namespace EfiLvgl.Slots

universe u

variable {α : Type u} {n : Nat}

/-- A table: `none` marks a free slot. -/
abbrev Table (α : Type u) (n : Nat) := Fin n → Option α

/-- The first free slot, from `reserved` on. -/
def firstFree (t : Table α n) (reserved : Nat) : Option (Fin n) :=
  (List.finRange n).find? fun i => decide (reserved ≤ i.val) && (t i).isNone

def put (t : Table α n) (i : Fin n) (a : α) : Table α n := Function.update t i (some a)

def clear (t : Table α n) (i : Fin n) : Table α n := Function.update t i none

@[simp] theorem put_apply (t : Table α n) (i j : Fin n) (a : α) :
    put t i a j = if j = i then some a else t j := by
  simp [put, Function.update_apply]

@[simp] theorem clear_apply (t : Table α n) (i j : Fin n) :
    clear t i j = if j = i then none else t j := by
  simp [clear, Function.update_apply]

theorem firstFree_eq_none {t : Table α n} {reserved : Nat} :
    firstFree t reserved = none ↔ ∀ i : Fin n, reserved ≤ i.val → t i ≠ none := by
  rw [firstFree, List.find?_eq_none]
  constructor
  · intro h i hi hfree
    apply h i (List.mem_finRange i)
    simp [hi, hfree]
  · intro h i _ hfree
    simp only [Bool.and_eq_true, decide_eq_true_eq, Option.isNone_iff_eq_none] at hfree
    exact h i hfree.1 hfree.2

/-- The search finds the least free slot. -/
theorem firstFree_eq_some {t : Table α n} {reserved : Nat} {i : Fin n} :
    firstFree t reserved = some i ↔
      reserved ≤ i.val ∧ t i = none ∧ ∀ j : Fin n, reserved ≤ j.val → j < i → t j ≠ none := by
  rw [firstFree, List.find?_eq_some_iff_getElem]
  simp only [Bool.and_eq_true, decide_eq_true_eq, Option.isNone_iff_eq_none, Bool.not_eq_true',
    List.getElem_finRange]
  constructor
  · rintro ⟨⟨hres, hfree⟩, k, hk, hki, hbefore⟩
    refine ⟨hres, hfree, ?_⟩
    intro j hj hlt hjfree
    have hival : i.val = k := by rw [← hki]; rfl
    have hskip := hbefore j.val (by omega)
    simp [hj, hjfree] at hskip
  · rintro ⟨hres, hfree, hleast⟩
    refine ⟨⟨hres, hfree⟩, i.val, by simp, rfl, ?_⟩
    intro k hk
    have hkn : k < n := Nat.lt_trans hk i.isLt
    rw [Bool.and_eq_false_iff]
    -- a slot before is taken, or is reserved
    by_cases hres' : reserved ≤ k
    · right
      have hne := hleast ⟨k, hkn⟩ hres' hk
      simpa [Option.isNone_eq_false_iff, Option.isSome_iff_ne_none] using hne
    · left
      simpa using hres'

theorem firstFree_free {t : Table α n} {reserved : Nat} {i : Fin n}
    (h : firstFree t reserved = some i) : t i = none :=
  (firstFree_eq_some.mp h).2.1

theorem le_firstFree {t : Table α n} {reserved : Nat} {i : Fin n}
    (h : firstFree t reserved = some i) : reserved ≤ i.val :=
  (firstFree_eq_some.mp h).1

end EfiLvgl.Slots
