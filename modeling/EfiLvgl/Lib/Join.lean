import Mathlib.Data.List.Basic

/-!
# EfiLvgl.Lib.Join — joining texts with one separator between them

`join sep a b` writes two texts one behind the other with one separator where they
meet, unless one of them is empty. It is associative (`join_assoc`) with the empty
text as its unit, so a text that is joined step by step does not depend on the steps.
Nothing here names a particular program.
-/

namespace EfiLvgl.Join

universe u

variable {α : Type u} [DecidableEq α] (sep : α)

/-- Without a separator at its end. -/
def chopEnd (a : List α) : List α := if a.getLast? = some sep then a.dropLast else a

/-- Without a separator at its start. -/
def chopStart (b : List α) : List α := if b.head? = some sep then b.tail else b

/-- `a` and `b` with one separator between them. -/
def join (a b : List α) : List α :=
  if a = [] then b else if b = [] then a else chopEnd sep a ++ sep :: chopStart sep b

@[simp] theorem nil_join (b : List α) : join sep [] b = b := by simp [join]

@[simp] theorem join_nil (a : List α) : join sep a [] = a := by
  cases a with
  | nil => simp [join]
  | cons c a => simp [join]

variable {sep}

theorem join_of_ne_nil {a b : List α} (ha : a ≠ []) (hb : b ≠ []) :
    join sep a b = chopEnd sep a ++ sep :: chopStart sep b := by
  rw [join, if_neg ha, if_neg hb]

theorem join_ne_nil {a b : List α} (hb : b ≠ []) : join sep a b ≠ [] := by
  by_cases ha : a = []
  · simpa [ha] using hb
  · simp [join_of_ne_nil ha hb]

/-! ## Where the separator comes from -/

@[simp] theorem chopEnd_snoc (a : List α) : chopEnd sep (a ++ [sep]) = a := by simp [chopEnd]

@[simp] theorem chopStart_cons (b : List α) : chopStart sep (sep :: b) = b := by simp [chopStart]

theorem chopEnd_of_ne {a : List α} (h : a.getLast? ≠ some sep) : chopEnd sep a = a := if_neg h

theorem chopStart_of_ne {b : List α} (h : b.head? ≠ some sep) : chopStart sep b = b := if_neg h

/-- Neither end is a separator: one is put between them. -/
theorem join_plain {a b : List α} (ha : a ≠ []) (hb : b ≠ []) (hlast : a.getLast? ≠ some sep)
    (hhead : b.head? ≠ some sep) : join sep a b = a ++ sep :: b := by
  rw [join_of_ne_nil ha hb, chopEnd_of_ne hlast, chopStart_of_ne hhead]

/-- The right one brings it. -/
theorem join_rooted {a : List α} (hlast : a.getLast? ≠ some sep) (b : List α) :
    join sep a (sep :: b) = a ++ sep :: b := by
  by_cases ha : a = []
  · simp [ha]
  · rw [join_of_ne_nil ha (List.cons_ne_nil _ _), chopEnd_of_ne hlast, chopStart_cons]

/-- The left one brings it. -/
theorem join_closed {b : List α} (a : List α) (hhead : b.head? ≠ some sep) :
    join sep (a ++ [sep]) b = a ++ sep :: b := by
  by_cases hb : b = []
  · simp [hb]
  · rw [join_of_ne_nil (by simp) hb, chopEnd_snoc, chopStart_of_ne hhead]

/-- Both bring one, and one is left. -/
theorem join_both (a b : List α) : join sep (a ++ [sep]) (sep :: b) = a ++ sep :: b := by
  rw [join_of_ne_nil (by simp) (List.cons_ne_nil _ _), chopEnd_snoc, chopStart_cons]

theorem chopEnd_append_sep {a : List α} (h : a.getLast? = some sep) :
    a = chopEnd sep a ++ [sep] := by
  obtain ⟨l, rfl⟩ := List.getLast?_eq_some_iff.mp h
  rw [chopEnd_snoc]

/-- What begins the first text begins the whole, unless it ends in the separator. -/
theorem prefix_join {p a : List α} (hp : p <+: a) (hlast : p.getLast? ≠ some sep)
    (b : List α) : p <+: join sep a b := by
  by_cases ha : a = []
  · subst ha
    rw [List.prefix_nil.mp hp]
    exact List.nil_prefix
  by_cases hb : b = []
  · rwa [hb, join_nil]
  rw [join_of_ne_nil ha hb]
  -- only a separator at the end can be missing from the whole
  by_cases hend : a.getLast? = some sep
  · rw [chopEnd_append_sep hend, List.prefix_concat_iff] at hp
    rcases hp with rfl | hp
    · simp at hlast
    · exact hp.trans (List.prefix_append _ _)
  · rw [chopEnd_of_ne hend]
    exact hp.trans (List.prefix_append _ _)

/-- Joining brings in no other character than the separator. -/
theorem mem_join {c : α} {a b : List α} (h : c ∈ join sep a b) : c ∈ a ∨ c = sep ∨ c ∈ b := by
  rw [join] at h
  split at h
  · exact Or.inr (Or.inr h)
  · split at h
    · exact Or.inl h
    · rw [List.mem_append, List.mem_cons] at h
      rcases h with h | h | h
      · -- what is left of the first text
        left
        rw [chopEnd] at h
        split at h
        · exact List.dropLast_subset a h
        · exact h
      · exact Or.inr (Or.inl h)
      · -- what is left of the second
        right; right
        rw [chopStart] at h
        split at h
        · exact List.mem_of_mem_tail h
        · exact h

/-! ## Associativity -/

theorem chopEnd_cons {b : List α} (hb : b ≠ []) (c : α) :
    chopEnd sep (c :: b) = c :: chopEnd sep b := by
  have hlast : (c :: b).getLast? = b.getLast? := by
    rw [List.getLast?_cons, List.getLast?_eq_some_getLast hb, Option.getD_some]
  rw [chopEnd, chopEnd, hlast, List.dropLast_cons_of_ne_nil hb]
  split
  · rfl
  · rfl

theorem chopEnd_append (a : List α) {b : List α} (hb : b ≠ []) :
    chopEnd sep (a ++ b) = a ++ chopEnd sep b := by
  induction a with
  | nil => rfl
  | cons c a ih => rw [List.cons_append, chopEnd_cons (by simp [hb]), ih, List.cons_append]

theorem chopStart_append {a : List α} (ha : a ≠ []) (b : List α) :
    chopStart sep (a ++ b) = chopStart sep a ++ b := by
  cases a with
  | nil => exact absurd rfl ha
  | cons c a =>
      by_cases hc : c = sep
      · subst hc
        rw [List.cons_append, chopStart_cons, chopStart_cons]
      · have hhead : ∀ l : List α, (c :: l).head? ≠ some sep := by
          intro l
          simpa using hc
        rw [List.cons_append, chopStart_of_ne (hhead _), chopStart_of_ne (hhead _),
          List.cons_append]

/-- Unless there is only the one separator, its two ends are apart. -/
theorem chopStart_chopEnd {b : List α} (hb : b ≠ [sep]) :
    chopStart sep (chopEnd sep b) = chopEnd sep (chopStart sep b) := by
  cases b with
  | nil => rfl
  | cons c b =>
      -- one character: it is no separator
      by_cases hnil : b = []
      · subst hnil
        have hc : c ≠ sep := by
          rintro rfl
          exact hb rfl
        simp [chopEnd, chopStart, hc]
      · rw [chopEnd_cons hnil]
        by_cases hc : c = sep
        · subst hc
          rw [chopStart_cons, chopStart_cons]
        · have hhead : ∀ l : List α, (c :: l).head? ≠ some sep := by
            intro l
            simpa using hc
          rw [chopStart_of_ne (hhead _), chopStart_of_ne (hhead _), chopEnd_cons hnil]

theorem chop_ne_nil {b : List α} (hnil : b ≠ []) (hb : b ≠ [sep]) :
    chopStart sep b ≠ [] ∧ chopEnd sep b ≠ [] := by
  cases b with
  | nil => exact absurd rfl hnil
  | cons c b =>
      by_cases hbn : b = []
      · subst hbn
        have hc : c ≠ sep := by
          rintro rfl
          exact hb rfl
        simp [chopEnd, chopStart, hc]
      · constructor
        · rw [chopStart]
          split
          · exact hbn
          · simp
        · simp [chopEnd_cons hbn]

/-- Joining is associative. -/
theorem join_assoc (a b c : List α) : join sep (join sep a b) c = join sep a (join sep b c) := by
  by_cases ha : a = []
  · simp [ha]
  by_cases hb : b = []
  · simp [hb]
  by_cases hc : c = []
  · simp [hc]
  rw [join_of_ne_nil (join_ne_nil hb) hc, join_of_ne_nil ha (join_ne_nil hc),
    join_of_ne_nil ha hb, join_of_ne_nil hb hc]
  by_cases hsep : b = [sep]
  · -- a lone separator is the one that both sides meet at
    have hend : chopEnd sep [sep] = [] := chopEnd_snoc []
    rw [hsep, chopStart_cons, hend, List.nil_append, chopStart_cons, chopEnd_snoc]
  · obtain ⟨hstart, hend⟩ := chop_ne_nil hb hsep
    rw [chopEnd_append _ (List.cons_ne_nil _ _), chopEnd_cons hstart, chopStart_append hend,
      chopStart_chopEnd hsep]
    simp

end EfiLvgl.Join
