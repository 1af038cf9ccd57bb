import Mathlib.Data.List.Infix

/-!
# EfiLvgl.Lib.Search — the first and the last occurrence of a string in another

`strStr` looks for a string and answers with the rest of the text from its first
occurrence on. Nothing here names a particular program: what a client needs is when
nothing is found (`strStr_eq_none`), that what is found begins with what was looked
for (`strStr_eq_some`), and the search for a single character
(`strStr_append_singleton`). `LastAt` is the position of the last occurrence; of a single
character it splits the string (`LastAt.split`).
-/

namespace EfiLvgl.Search

universe u

variable {α : Type u} [DecidableEq α]

/-- `StrStr`: the string from the first occurrence on. -/
def strStr (string searchString : List α) : Option (List α) :=
  match string with
  | [] => if searchString = [] then some [] else none
  | c :: cs => if searchString <+: c :: cs then some (c :: cs) else strStr cs searchString

theorem strStr_of_prefix {s t : List α} (h : t <+: s) : strStr s t = some s := by
  cases s with
  | nil =>
      rw [List.prefix_nil] at h
      simp [strStr, h]
  | cons c cs => rw [strStr, if_pos h]

theorem strStr_eq_none {s t : List α} : strStr s t = none ↔ ¬ t <:+: s := by
  induction s with
  | nil => simp [strStr, List.infix_nil]
  | cons c cs ih =>
      rw [strStr, List.infix_cons_iff]
      by_cases hp : t <+: c :: cs
      · simp [hp]
      · simp [hp, ih]

/-- What is found is a suffix that begins with what was looked for. -/
theorem strStr_eq_some {s t u : List α} (h : strStr s t = some u) : t <+: u ∧ u <:+ s := by
  induction s with
  | nil =>
      rw [strStr] at h
      split at h
      · next ht =>
          rw [Option.some.injEq] at h
          subst h ht
          exact ⟨List.prefix_refl _, List.suffix_refl _⟩
      · cases h
  | cons c cs ih =>
      rw [strStr] at h
      split at h
      · next hp =>
          rw [Option.some.injEq] at h
          subst h
          exact ⟨hp, List.suffix_refl _⟩
      · obtain ⟨hp, hs⟩ := ih h
        exact ⟨hp, hs.trans (List.suffix_cons c cs)⟩

theorem strStr_isSome_iff {s t : List α} : (strStr s t).isSome ↔ t <:+: s := by
  rw [Option.isSome_iff_ne_none, Ne, strStr_eq_none, not_not]

/-! ## One character -/

theorem strStr_singleton_none {c : α} {s : List α} : strStr s [c] = none ↔ c ∉ s := by
  rw [strStr_eq_none, List.singleton_infix_iff]

/-- The search stops at the first such character. -/
theorem strStr_append_singleton {c : α} {a : List α} (ha : c ∉ a) (b : List α) :
    strStr (a ++ c :: b) [c] = some (c :: b) := by
  induction a with
  | nil => exact strStr_of_prefix (List.prefix_append [c] b)
  | cons d a ih =>
      rw [List.mem_cons, not_or] at ha
      -- the search goes on past another character
      have hp : ¬ [c] <+: d :: (a ++ c :: b) := by
        rw [List.cons_prefix_cons]
        rintro ⟨rfl, -⟩
        exact ha.1 rfl
      rw [List.cons_append, strStr, if_neg hp, ih ha.2]

/-- A string with such a character splits at the first. -/
theorem split_first {c : α} {s : List α} (h : c ∈ s) :
    ∃ a b, c ∉ a ∧ s = a ++ c :: b ∧ strStr s [c] = some (c :: b) := by
  obtain ⟨a, b, rfl, ha⟩ := List.eq_append_cons_of_mem h
  exact ⟨a, b, ha, rfl, strStr_append_singleton ha b⟩

/-! ## The last occurrence -/

/-- The string occurs at a position and at none behind it. -/
structure LastAt (t s : List α) (i : Nat) : Prop where
  occurs : t <+: s.drop i
  last : ∀ j, t <+: s.drop j → j ≤ i

omit [DecidableEq α] in
theorem infix_iff_exists_drop {t s : List α} : t <:+: s ↔ ∃ i, t <+: s.drop i := by
  constructor
  · rintro ⟨a, b, rfl⟩
    refine ⟨a.length, b, ?_⟩
    rw [List.append_assoc, List.drop_left]
  · rintro ⟨i, h⟩
    exact h.isInfix.trans (List.drop_suffix i s).isInfix

omit [DecidableEq α] in
theorem LastAt.unique {t s : List α} {i j : Nat} (hi : LastAt t s i) (hj : LastAt t s j) : i = j :=
  Nat.le_antisymm (hj.last i hi.occurs) (hi.last j hj.occurs)

omit [DecidableEq α] in
/-- Behind the last such character there is no other. -/
theorem LastAt.split {c : α} {s : List α} {i : Nat} (h : LastAt [c] s i) :
    ∃ b, c ∉ b ∧ s = s.take i ++ c :: b := by
  rcases h.occurs with ⟨b, hb⟩
  refine ⟨b, ?_, ?_⟩
  · intro hc
    rcases List.append_of_mem hc with ⟨u, v, huv⟩
    -- one more behind it would be an occurrence further on
    have hnext : s.drop (i + (1 + u.length)) = c :: v := by
      rw [← List.drop_drop, ← hb, huv, ← List.drop_drop, List.singleton_append, List.drop_succ_cons,
        List.drop_zero, List.drop_left]
    have hle := h.last (i + (1 + u.length)) ⟨v, hnext.symm⟩
    omega
  · have hdrop : s.take i ++ s.drop i = s := List.take_append_drop i s
    rw [← hb, List.singleton_append] at hdrop
    exact hdrop.symm

end EfiLvgl.Search
