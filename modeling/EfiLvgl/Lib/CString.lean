import Mathlib.Data.List.Basic
import Mathlib.Data.List.DropRight
import Mathlib.Data.List.TakeWhile

/-!
# EfiLvgl.Lib.CString — null-terminated strings in memory

A pointer is modelled by the memory from the pointed-to cell on, a list of cells
over any type with a zero; the string it denotes ends before the first zero cell.
What follows the terminator is kept: a program that overwrites a buffer with a
shorter string leaves the old cells behind it, and a pointer may be moved there.
-/

namespace EfiLvgl.CString

variable {α : Type} [Zero α] [DecidableEq α]

/-- The string at a pointer. -/
def cstr (mem : List α) : List α := mem.takeWhile (· ≠ 0)

/-- `StrLen`. -/
def strLen (mem : List α) : Nat := (cstr mem).length

/-- `StrSize`, in cells: the string with its terminator. -/
def strSize (mem : List α) : Nat := strLen mem + 1

/-- `CopyMem` inside one buffer, by offsets and in cells; source and destination
may overlap. -/
def copyMem (mem : List α) (dst src n : Nat) : List α :=
  mem.take dst ++ (mem.drop src).take n ++ mem.drop (dst + n)

@[simp] theorem cstr_nil : cstr ([] : List α) = [] := rfl

@[simp] theorem cstr_zero_cons (r : List α) : cstr (0 :: r) = [] := by
  simp [cstr]

theorem cstr_cons {c : α} (hc : c ≠ 0) (r : List α) : cstr (c :: r) = c :: cstr r := by
  simp [cstr, hc]

theorem zero_notMem_cstr (mem : List α) : (0 : α) ∉ cstr mem := by
  intro h
  simpa using List.mem_takeWhile_imp h

theorem cstr_append {u : List α} (hu : (0 : α) ∉ u) (r : List α) :
    cstr (u ++ r) = u ++ cstr r := by
  induction u with
  | nil => rfl
  | cons c u ih =>
      have hc : c ≠ 0 := fun h => hu (by simp [h])
      have hu' : (0 : α) ∉ u := fun h => hu (by simp [h])
      rw [List.cons_append, cstr_cons hc, ih hu', List.cons_append]

@[simp] theorem cstr_append_zero {u : List α} (hu : (0 : α) ∉ u) (r : List α) :
    cstr (u ++ 0 :: r) = u := by
  simp [cstr_append hu]

/-- What follows a terminator does not matter. -/
theorem cstr_terminated (u r : List α) : cstr (u ++ 0 :: r) = cstr u := by
  induction u with
  | nil => simp
  | cons c u ih =>
      by_cases hc : c = 0
      · simp [hc]
      · rw [List.cons_append, cstr_cons hc, cstr_cons hc, ih]

@[simp] theorem strLen_append_zero {u : List α} (hu : (0 : α) ∉ u) (r : List α) :
    strLen (u ++ 0 :: r) = u.length := by
  simp [strLen, hu]

/-- Moving a pointer inside its string. -/
theorem cstr_drop {mem : List α} {n : Nat} (hn : n ≤ strLen mem) :
    cstr (mem.drop n) = (cstr mem).drop n := by
  induction mem generalizing n with
  | nil => simp
  | cons c mem ih =>
      cases n with
      | zero => rfl
      | succ n =>
          by_cases hc : c = 0
          · simp [strLen, hc] at hn
          · rw [strLen, cstr_cons hc, List.length_cons] at hn
            rw [List.drop_succ_cons, cstr_cons hc, List.drop_succ_cons]
            exact ih (by rw [strLen]; omega)

theorem strLen_drop_le {mem : List α} {n : Nat} (hn : n ≤ strLen mem) :
    strLen (mem.drop n) ≤ strLen mem := by
  rw [strLen, cstr_drop hn, List.length_drop, strLen]
  omega

/-- Writing a terminator into a string. -/
theorem cstr_set_zero {mem : List α} {n : Nat} (hn : n < strLen mem) :
    cstr (mem.set n 0) = (cstr mem).take n := by
  induction mem generalizing n with
  | nil => simp [strLen] at hn
  | cons c mem ih =>
      by_cases hc : c = 0
      · simp [strLen, hc] at hn
      · -- a cell of the string: the terminator comes here, or further on
        cases n with
        | zero => simp
        | succ n =>
            rw [strLen, cstr_cons hc, List.length_cons] at hn
            rw [List.set_cons_succ, cstr_cons hc, cstr_cons hc, List.take_succ_cons]
            rw [ih (by rw [strLen]; omega)]

/-- Deleting one cell of a string: the string behind it moves down by one, with
its terminator, and the old terminator stays where it was. -/
theorem copyMem_delete (pre : List α) (c : α) {w : List α} (hw : (0 : α) ∉ w) (r : List α) :
    copyMem (pre ++ c :: (w ++ 0 :: r)) pre.length (pre.length + 1) (strSize (w ++ 0 :: r)) =
      pre ++ (w ++ 0 :: 0 :: r) := by
  have htake : (pre ++ c :: (w ++ 0 :: r)).take pre.length = pre := by simp
  have hsrc : ((pre ++ c :: (w ++ 0 :: r)).drop (pre.length + 1)).take (w.length + 1) =
      w ++ [0] := by
    rw [List.drop_length_add_append]
    simp [List.take_append, List.take_of_length_le]
  have hrest : (pre ++ c :: (w ++ 0 :: r)).drop (pre.length + (w.length + 1)) = 0 :: r := by
    rw [List.drop_length_add_append]
    simp
  rw [copyMem, strSize, strLen_append_zero hw, htake, hsrc, hrest]
  simp

/-- Memory that holds no terminator is one string, up to its end. -/
theorem cstr_eq_self_or_terminated (mem : List α) :
    (0 : α) ∉ mem ∨ ∃ w r, (0 : α) ∉ w ∧ mem = w ++ 0 :: r := by
  by_cases h : (0 : α) ∈ mem
  · obtain ⟨w, r, hmem, hw⟩ := List.eq_append_cons_of_mem h
    exact Or.inr ⟨w, r, hw, hmem⟩
  · exact Or.inl h

theorem copyMem_delete_unterminated (pre : List α) (c : α) {w : List α} (hw : (0 : α) ∉ w) :
    copyMem (pre ++ c :: w) pre.length (pre.length + 1) (strSize w) = pre ++ w := by
  have hlen : strSize w = w.length + 1 := by
    have hself : cstr w = w := by simpa using cstr_append hw []
    rw [strSize, strLen, hself]
  have hsrc : ((pre ++ c :: w).drop (pre.length + 1)).take (w.length + 1) = w := by
    rw [List.drop_length_add_append]
    simp [List.take_of_length_le]
  have hrest : (pre ++ c :: w).drop (pre.length + (w.length + 1)) = [] := by simp
  rw [copyMem, hlen, hsrc, hrest]
  simp

theorem strLen_le_length (mem : List α) : strLen mem ≤ mem.length :=
  (List.takeWhile_prefix _).length_le

/-- Each deletion makes the string behind the pointer shorter, whether the pointer
stays or moves on by one, past the terminator even. -/
theorem strLen_delete_lt (pre : List α) {c : α} (hc : c ≠ 0) (v : List α) {n : Nat} (hn : n ≤ 1) :
    strLen ((copyMem (pre ++ c :: v) pre.length (pre.length + 1) (strSize v)).drop
      (pre.length + n)) < strLen (c :: v) := by
  have hcons : strLen (c :: v) = strLen v + 1 := by simp [strLen, cstr_cons hc]
  rw [hcons]
  -- without a terminator the memory itself gets shorter
  rcases cstr_eq_self_or_terminated v with hv | ⟨w, r, hw, rfl⟩
  · have hself : strLen v = v.length := by
      simpa [strLen] using congrArg List.length (cstr_append hv [])
    rw [copyMem_delete_unterminated pre c hv, List.drop_length_add_append]
    have hle := strLen_le_length (v.drop n)
    have hle' : (v.drop n).length ≤ v.length := by simp
    omega
  · rw [copyMem_delete pre c hw, List.drop_length_add_append, strLen_append_zero hw]
    rcases Nat.le_one_iff_eq_zero_or_eq_one.mp hn with rfl | rfl
    · simp [hw]
    · -- moved on by one: past the terminator, if nothing was behind the cell
      cases w with
      | nil => simp [strLen]
      | cons d w =>
          have hw' : (0 : α) ∉ w := fun h => hw (by simp [h])
          rw [List.cons_append, List.drop_succ_cons, List.drop_zero, strLen_append_zero hw',
            List.length_cons]
          omega

/-! ## Strings one behind the other -/

/-- The strings with their terminators. -/
def packed (ss : List (List α)) : List α := ss.flatMap fun s => s ++ [0]

omit [DecidableEq α] in
@[simp] theorem packed_nil : packed ([] : List (List α)) = [] := rfl

omit [DecidableEq α] in
theorem packed_cons (s : List α) (ss : List (List α)) : packed (s :: ss) = s ++ 0 :: packed ss := by
  simp [packed]

omit [DecidableEq α] in
theorem packed_append (ss ts : List (List α)) : packed (ss ++ ts) = packed ss ++ packed ts :=
  List.flatMap_append

end EfiLvgl.CString
