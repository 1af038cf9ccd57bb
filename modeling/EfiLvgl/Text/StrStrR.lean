import EfiLvgl.Efi.Status
import EfiLvgl.Lib.Search
import Mathlib.Data.List.GetD

/-!
# EfiLvgl.Text.StrStrR — the last occurrence of a string in another

`StrStrR` goes through a string backwards, and compares backwards at each place. `UpyInit` cuts
the path of the image with it. When all characters of the search string agree, the characters in
front of both strings are compared as well; nothing depends on them (`strStrR_last_occurrence`).
-/

namespace EfiLvgl.Text

open EfiLvgl.Search

/-- A null-terminated string in memory: `cell` is what stands at each distance from the pointer,
also in front of it and behind the terminator, and `length` what `StrLen` counts. -/
structure CStr where
  cell : Int → Char16
  length : Nat
  cell_length : cell length = 0
  cell_ne : ∀ i < length, cell (i : Nat) ≠ 0

/-- The characters of the string. -/
def CStr.text (s : CStr) : List Char16 := (List.range s.length).map fun i => s.cell (i : Nat)

theorem CStr.length_pos {s : CStr} (h : s.cell 0 ≠ 0) : 0 < s.length := by
  rcases Nat.eq_zero_or_pos s.length with hzero | hpos
  · have hend := s.cell_length
    rw [hzero] at hend
    exact absurd hend h
  · exact hpos

/-- The inner loop of `StrStrR`, as the values of `StringTmp` and `Length` behind it. -/
def compareDown (string searchString : CStr) (stringTmp searchStringTmp : Int) : Nat → Int × Nat
  -- whatever is in front of the strings, the loop ends
  | 0 => (stringTmp, 0)
  | length + 1 =>
      if string.cell stringTmp = searchString.cell searchStringTmp then
        compareDown string searchString (stringTmp - 1) (searchStringTmp - 1) length
      else (stringTmp, length + 1)

/-- The outer loop of `StrStrR`. `StringLength` does not go below zero, since the search string is
not empty. -/
def searchDown (string searchString : CStr) (hpos : 0 < searchString.length)
    (stringLength : Nat) : Option Int :=
  if searchString.length ≤ stringLength then
    let compared := compareDown string searchString (stringLength - 1)
      (searchString.length - 1) searchString.length
    if compared.2 = 0 then some (compared.1 + 1)
    else if string.cell 0 = 0 then none
    else searchDown string searchString hpos (stringLength - 1)
  else none
termination_by stringLength
decreasing_by omega

/-- `StrStrR`, as a distance from `String`; `none` is `NULL`. -/
def strStrR (string searchString : CStr) : Option Int :=
  if h : searchString.cell 0 = 0 then some 0
  else if string.cell 0 = 0 then none
  else searchDown string searchString (CStr.length_pos h) string.length

/-- What `UpyInit` leaves of the path of the image: `FileName[0] = '\0'`. -/
def removeFileName (imageFilePath backslash : CStr) : List Char16 :=
  match strStrR imageFilePath backslash with
  | none => imageFilePath.text
  | some fileName => imageFilePath.text.take fileName.toNat

/-! ## One place -/

section Search

variable {s t : CStr}

@[simp] theorem CStr.length_text (s : CStr) : s.text.length = s.length := by
  rw [text, List.length_map, List.length_range]

theorem CStr.getElem?_text (s : CStr) (i : Nat) :
    s.text[i]? = if i < s.length then some (s.cell i) else none := by
  rw [text, List.getElem?_map]
  by_cases hi : i < s.length
  · rw [if_pos hi, List.getElem?_range hi]
    rfl
  · rw [if_neg hi, List.getElem?_eq_none (by rw [List.length_range]; omega)]
    rfl

/-- All characters of the search string are found at a place. -/
def Agrees (s t : CStr) (i : Nat) : Prop := ∀ k < t.length, s.cell (i + k : Nat) = t.cell (k : Nat)

/-- They are the characters of the string, as long as the place is inside. -/
theorem prefix_drop_iff (hpos : 0 < t.length) (i : Nat) :
    t.text <+: s.text.drop i ↔ i + t.length ≤ s.length ∧ Agrees s t i := by
  have hchar : ∀ k < t.length, (s.text.drop i)[k]? = t.text[k]? ↔
      i + k < s.length ∧ s.cell (i + k : Nat) = t.cell (k : Nat) := by
    intro k hk
    rw [List.getElem?_drop, CStr.getElem?_text, CStr.getElem?_text, if_pos hk]
    split
    · next hin => simp [hin]
    · next hin => simp [hin]
  rw [List.prefix_iff_getElem?]
  constructor
  · intro h
    have hall : ∀ k < t.length, i + k < s.length ∧ s.cell (i + k : Nat) = t.cell (k : Nat) := by
      intro k hk
      have hk' : k < t.text.length := by rwa [CStr.length_text]
      apply (hchar k hk).mp
      rw [h k hk', List.getElem?_eq_getElem hk']
    have hlast := (hall (t.length - 1) (by omega)).1
    exact ⟨by omega, fun k hk => (hall k hk).2⟩
  · rintro ⟨hle, hagrees⟩ k hk
    have hk' : k < t.length := by rwa [CStr.length_text] at hk
    rw [(hchar k hk').mpr ⟨by omega, hagrees k hk'⟩, List.getElem?_eq_getElem hk]

/-- The characters are compared from the last one on. -/
theorem compareDown_spec (i : Nat) (length : Nat) :
    ((compareDown s t (i + length - 1) (length - 1) length).2 = 0 ↔
        ∀ k < length, s.cell (i + k : Nat) = t.cell (k : Nat)) ∧
      ((compareDown s t (i + length - 1) (length - 1) length).2 = 0 →
        (compareDown s t (i + length - 1) (length - 1) length).1 = i - 1) := by
  induction length with
  | zero =>
      constructor
      · exact iff_of_true rfl fun k hk => absurd hk (Nat.not_lt_zero k)
      · intro _
        show (i : Int) + (0 : Nat) - 1 = i - 1
        omega
  | succ length ih =>
      have hstring : (i : Int) + (length + 1 : Nat) - 1 = (i + length : Nat) := by omega
      have hsearch : ((length + 1 : Nat) : Int) - 1 = (length : Nat) := by omega
      rw [hstring, hsearch, compareDown]
      by_cases hlast : s.cell (i + length : Nat) = t.cell (length : Nat)
      · have hnext : ((i + length : Nat) : Int) - 1 = i + length - 1 := by omega
        rw [if_pos hlast, hnext]
        refine ⟨ih.1.trans ?_, ih.2⟩
        constructor
        · intro h k hk
          rcases Nat.lt_succ_iff_lt_or_eq.mp hk with hk | rfl
          · exact h k hk
          · exact hlast
        · intro h k hk
          exact h k (Nat.lt_succ_of_lt hk)
      · rw [if_neg hlast]
        constructor
        · exact iff_of_false (Nat.succ_ne_zero length) fun h => hlast (h length (Nat.lt_succ_self _))
        · intro hzero
          exact absurd hzero (Nat.succ_ne_zero length)

/-! ## All places -/

/-- A search that goes on has not found the string at the place where it was. -/
theorem searchDown_spec (hs : s.cell 0 ≠ 0) (hpos : 0 < t.length) (n : Nat) :
    (∀ p, searchDown s t hpos n = some p → ∃ i : Nat, p = i ∧ i + t.length ≤ n ∧ Agrees s t i ∧
        ∀ j, j + t.length ≤ n → Agrees s t j → j ≤ i) ∧
      (searchDown s t hpos n = none → ∀ j, j + t.length ≤ n → ¬ Agrees s t j) := by
  induction n using Nat.strong_induction_on with
  | _ n ih =>
    rw [searchDown]
    by_cases hlong : t.length ≤ n
    · rw [if_pos hlong]
      have hplace : (n : Int) - 1 = (n - t.length : Nat) + t.length - 1 := by omega
      have hcompare := compareDown_spec (s := s) (t := t) (n - t.length) t.length
      rw [← hplace] at hcompare
      dsimp only
      by_cases hfound : (compareDown s t (n - 1) (t.length - 1) t.length).2 = 0
      · -- the places behind this one have been looked at before
        rw [if_pos hfound, hcompare.2 hfound]
        constructor
        · rintro p ⟨⟩
          refine ⟨n - t.length, by omega, by omega, hcompare.1.mp hfound, ?_⟩
          intro j hj _
          omega
        · rintro ⟨⟩
      · rw [if_neg hfound, if_neg hs]
        have hnot : ¬ Agrees s t (n - t.length) := fun h => hfound (hcompare.1.mpr h)
        -- another occurrence ends in front of the last character
        have hless : ∀ j, j + t.length ≤ n → Agrees s t j → j + t.length ≤ n - 1 := by
          intro j hj hagrees
          have hne : j ≠ n - t.length := by
            rintro rfl
            exact hnot hagrees
          omega
        rcases ih (n - 1) (by omega) with ⟨hsome, hnone⟩
        constructor
        · intro p hp
          rcases hsome p hp with ⟨i, rfl, hi, hagrees, hlast⟩
          refine ⟨i, rfl, by omega, hagrees, ?_⟩
          intro j hj hj'
          exact hlast j (hless j hj hj') hj'
        · intro hp j hj hagrees
          exact hnone hp j (hless j hj hagrees) hagrees
    · rw [if_neg hlong]
      constructor
      · rintro p ⟨⟩
      · intro _ j hj
        omega

theorem CStr.text_ne_nil (t : CStr) (h : t.text ≠ []) : 0 < t.length := by
  rw [← t.length_text]
  exact List.length_pos_of_ne_nil h

theorem strStrR_eq (h : 0 < t.length) :
    strStrR s t = if s.cell 0 = 0 then none else searchDown s t h s.length := by
  have hne : t.cell 0 ≠ 0 := t.cell_ne 0 h
  rw [strStrR, dif_neg hne]

/-- What is found is the last occurrence. -/
theorem lastAt_of_strStrR (h : 0 < t.length) {p : Int} (hp : strStrR s t = some p) :
    ∃ i : Nat, p = i ∧ LastAt t.text s.text i := by
  rw [strStrR_eq h] at hp
  by_cases hs : s.cell 0 = 0
  · rw [if_pos hs] at hp
    cases hp
  · rw [if_neg hs] at hp
    rcases (searchDown_spec hs h s.length).1 p hp with ⟨i, rfl, hi, hagrees, hlast⟩
    refine ⟨i, rfl, (prefix_drop_iff h i).mpr ⟨hi, hagrees⟩, ?_⟩
    intro j hj
    rcases (prefix_drop_iff h j).mp hj with ⟨hj, hagrees⟩
    exact hlast j hj hagrees

/-- Nothing is found when there is nothing. -/
theorem not_infix_of_strStrR (h : 0 < t.length) (hp : strStrR s t = none) :
    ¬ t.text <:+: s.text := by
  rw [infix_iff_exists_drop]
  rintro ⟨i, hi⟩
  rcases (prefix_drop_iff h i).mp hi with ⟨hle, hagrees⟩
  rw [strStrR_eq h] at hp
  by_cases hs : s.cell 0 = 0
  · have hlen : s.length = 0 := by
      by_contra hne
      exact s.cell_ne 0 (Nat.pos_of_ne_zero hne) hs
    omega
  · rw [if_neg hs] at hp
    exact (searchDown_spec hs h s.length).2 hp i hle hagrees

/-- `StrStrR` returns the place of the last occurrence, and `NULL` when there is none. -/
theorem strStrR_last_occurrence (h : t.text ≠ []) :
    (∀ p, strStrR s t = some p ↔ ∃ i : Nat, p = i ∧ LastAt t.text s.text i) ∧
      (strStrR s t = none ↔ ¬ t.text <:+: s.text) := by
  have hpos := t.text_ne_nil h
  have hoccurs : ∀ i, LastAt t.text s.text i → t.text <:+: s.text := fun i hi =>
    infix_iff_exists_drop.mpr ⟨i, hi.occurs⟩
  cases hp : strStrR s t with
  | none =>
      have hnot := not_infix_of_strStrR hpos hp
      refine ⟨fun p => iff_of_false (by rintro ⟨⟩) ?_, iff_of_true rfl hnot⟩
      rintro ⟨i, -, hi⟩
      exact hnot (hoccurs i hi)
  | some p =>
      rcases lastAt_of_strStrR hpos hp with ⟨i, rfl, hi⟩
      refine ⟨?_, iff_of_false (by rintro ⟨⟩) fun hnot => hnot (hoccurs i hi)⟩
      intro p
      constructor
      · rintro ⟨⟩
        exact ⟨i, rfl, hi⟩
      · rintro ⟨j, rfl, hj⟩
        rw [hi.unique hj]

/-- The path is cut at the last backslash; without one it stays as it is. -/
theorem removeFileName_spec (hbackslash : t.text = [ch '\\']) :
    (ch '\\' ∉ s.text → removeFileName s t = s.text) ∧
      (ch '\\' ∈ s.text →
        ∃ fileName, ch '\\' ∉ fileName ∧ s.text = removeFileName s t ++ ch '\\' :: fileName) := by
  have hpos : 0 < t.length := by
    rw [← t.length_text, hbackslash]
    exact Nat.one_pos
  rw [removeFileName]
  cases hp : strStrR s t with
  | none =>
      refine ⟨fun _ => rfl, fun hmem => ?_⟩
      have hnot := not_infix_of_strStrR hpos hp
      rw [hbackslash, List.singleton_infix_iff] at hnot
      exact absurd hmem hnot
  | some p =>
      rcases lastAt_of_strStrR hpos hp with ⟨i, rfl, hi⟩
      rw [hbackslash] at hi
      rcases hi.split with ⟨fileName, hnot, hsplit⟩
      refine ⟨fun hnone => ?_, fun _ => ⟨fileName, hnot, hsplit⟩⟩
      rw [hsplit] at hnone
      exact absurd (List.mem_append_right _ List.mem_cons_self) hnone

end Search

/-- A string behind nothing but zeros. -/
def CStr.ofText (text : List Char16) (h : (0 : Char16) ∉ text) : CStr where
  cell i := text.getD i.toNat 0
  length := text.length
  cell_length := List.getD_eq_default _ _ (Nat.le_refl _)
  cell_ne i hi := by
    intro hzero
    have hget : text.getD i 0 = text[i] := List.getD_eq_getElem _ _ hi
    exact h (hzero ▸ hget ▸ List.getElem_mem hi)

/-- `aa` occurs at 0 and at 1 in `aaa`. -/
theorem strStrR_last_overlapping :
    strStrR (.ofText (text ['a', 'a', 'a']) (by decide)) (.ofText (text ['a', 'a']) (by decide)) =
      some 1 := by
  refine ((strStrR_last_occurrence (by decide)).1 1).mpr ⟨1, rfl, by decide, ?_⟩
  intro j hj
  have hlength := hj.length_le
  rw [List.length_drop, CStr.length_text, CStr.length_text] at hlength
  have hle : 2 ≤ 3 - j := hlength
  omega

end EfiLvgl.Text
