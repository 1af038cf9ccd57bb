import Mathlib.Data.Set.Insert
import Mathlib.Logic.Relation

/-!
# EfiLvgl.Lib.Reach — marking what can be reached

A marker visits nodes of a graph and marks their successors. It may give up on some of the
nodes it marks (its memory is bounded), and then it is not `clean`. Nothing here names a
particular program:

* `Reached next seeds` is what the edges lead to from the seeds;
* `Marks next ok todo s s' clean` is a stretch of marking from the marked nodes `s` to `s'`, in
  which the nodes `todo` were visited (`ok` holds of a node that was visited); stretches
  compose (`Marks.trans`), and `Marks.visit` is a single visit;
* `eq_reached` is the end: when all that is marked is done, marked is what can be reached.
-/

namespace EfiLvgl.Reach

universe u

variable {α : Type u} {next : α → α → Prop}

/-- What the edges lead to from the seeds. -/
def Reached (next : α → α → Prop) (seeds : Set α) : Set α :=
  {b | ∃ a ∈ seeds, Relation.ReflTransGen next a b}

theorem subset_reached (seeds : Set α) : seeds ⊆ Reached next seeds :=
  fun a ha => ⟨a, ha, Relation.ReflTransGen.refl⟩

theorem reached_mono {s t : Set α} (h : s ⊆ t) : Reached next s ⊆ Reached next t := by
  rintro b ⟨a, ha, hab⟩
  exact ⟨a, h ha, hab⟩

theorem reached_step {seeds : Set α} {a b : α} (ha : a ∈ Reached next seeds) (hab : next a b) :
    b ∈ Reached next seeds := by
  rcases ha with ⟨r, hr, hra⟩
  exact ⟨r, hr, hra.tail hab⟩

/-- Reaching from what is reached reaches nothing new. -/
theorem reached_reached (seeds : Set α) :
    Reached next (Reached next seeds) = Reached next seeds := by
  apply Set.Subset.antisymm
  · rintro c ⟨b, ⟨a, ha, hab⟩, hbc⟩
    exact ⟨a, ha, hab.trans hbc⟩
  · exact subset_reached _

/-- The node was visited, and all its successors are marked. -/
structure Done (next : α → α → Prop) (ok : α → Prop) (s : Set α) (a : α) : Prop where
  visited : ok a
  successors : ∀ b, next a b → b ∈ s

variable {ok : α → Prop}

theorem Done.mono {s s' : Set α} {a : α} (h : Done next ok s a) (hs : s ⊆ s') :
    Done next ok s' a :=
  ⟨h.visited, fun b hab => hs (h.successors b hab)⟩

/-- A set that is closed under the edges has all that is reached from it. -/
theorem reached_subset {seeds s : Set α} (hseeds : seeds ⊆ s)
    (hclosed : ∀ a ∈ s, ∀ b, next a b → b ∈ s) : Reached next seeds ⊆ s := by
  rintro b ⟨a, ha, hab⟩
  -- edge by edge, from the seed on
  induction hab with
  | refl => exact hseeds ha
  | tail _ hbc ih => exact hclosed _ ih _ hbc

/-- A stretch of marking. -/
structure Marks (next : α → α → Prop) (ok : α → Prop) (todo s s' : Set α) (clean : Prop) :
    Prop where
  subset : s ⊆ s'
  sound : s' ⊆ Reached next s
  done : clean → ∀ a ∈ s', a ∈ todo ∨ a ∉ s → Done next ok s' a

namespace Marks

variable {todo todo' s s' s'' : Set α} {clean clean' : Prop}

theorem refl (s : Set α) : Marks next ok ∅ s s clean where
  subset := Set.Subset.rfl
  sound := subset_reached s
  done := by
    intro _ a ha h
    rcases h with h | h
    · exact absurd h (Set.notMem_empty a)
    · exact absurd ha h

/-- Two stretches one behind the other; the nodes that the first one left done stay done. -/
theorem trans (h : Marks next ok todo s s' clean) (h' : Marks next ok todo' s' s'' clean') :
    Marks next ok (todo ∪ todo') s s'' (clean ∧ clean') where
  subset := h.subset.trans h'.subset
  sound := by
    refine h'.sound.trans ?_
    rw [← reached_reached s]
    exact reached_mono h.sound
  done := by
    rintro ⟨hclean, hclean'⟩ a ha hwhy
    -- a node is done by the second stretch, or was done before it and stays so
    by_cases hnew : a ∈ todo' ∨ a ∉ s'
    · exact h'.done hclean' a ha hnew
    · rw [not_or, not_not] at hnew
      have hold : a ∈ todo ∨ a ∉ s := by
        rcases hwhy with (hin | hin) | hout
        · exact Or.inl hin
        · exact absurd hin hnew.1
        · exact Or.inr hout
      exact (h.done hclean a hnew.2 hold).mono h'.subset

theorem weaken (h : Marks next ok todo s s' clean) (himp : clean' → clean) :
    Marks next ok todo s s' clean' where
  subset := h.subset
  sound := h.sound
  done hclean := h.done (himp hclean)

/-- A node is visited: its successors are marked, and those that were not are visited behind
it, unless the stretch is not clean. -/
theorem visit {s₁ : Set α} {todo₁ : Set α} {a : α} (ha : a ∈ s) (hok : ok a) (hsub : s ⊆ s₁)
    (hsucc : ∀ b, next a b → b ∈ s₁) (hfresh : ∀ b ∈ s₁, b ∈ s ∨ next a b)
    (htodo : clean → ∀ b ∈ s₁, b ∈ todo ∨ b ∉ s → b ∈ todo₁)
    (hrest : Marks next ok todo₁ s₁ s' clean) (hin : todo ⊆ s) :
    Marks next ok (insert a todo) s s' clean where
  subset := hsub.trans hrest.subset
  sound := by
    refine hrest.sound.trans ?_
    rw [← reached_reached s]
    apply reached_mono
    intro b hb
    -- nothing is marked but successors of the node
    rcases hfresh b hb with hold | hnext
    · exact subset_reached _ hold
    · exact reached_step (subset_reached _ ha) hnext
  done := by
    rintro hclean b hb ((rfl | hmem) | hout)
    · -- the node itself
      exact ⟨hok, fun c hc => hrest.subset (hsucc c hc)⟩
    · exact hrest.done hclean b hb (Or.inl (htodo hclean b (hsub (hin hmem)) (Or.inl hmem)))
    · -- marked by this visit, or by the stretch behind it
      by_cases hnew : b ∈ s₁
      · exact hrest.done hclean b hb (Or.inl (htodo hclean b hnew (Or.inr hout)))
      · exact hrest.done hclean b hb (Or.inr hnew)

/-- What was done before the stretch needs no visit. -/
theorem all_done (h : Marks next ok todo s s' clean) (hclean : clean)
    (hs : ∀ a ∈ s, a ∈ todo ∨ Done next ok s a) : ∀ a ∈ s', Done next ok s' a := by
  intro a ha
  by_cases hold : a ∈ s
  · -- marked before: it was to be visited, or it was done
    rcases hs a hold with hin | hdone
    · exact h.done hclean a ha (Or.inl hin)
    · exact hdone.mono h.subset
  · exact h.done hclean a ha (Or.inr hold)

end Marks

/-- Marked is what can be reached, when all that is marked is done, and the seeds are marked. -/
theorem eq_reached {seeds s : Set α} (hseeds : seeds ⊆ s) (hsound : s ⊆ Reached next seeds)
    (hdone : ∀ a ∈ s, Done next ok s a) : s = Reached next seeds :=
  Set.Subset.antisymm hsound (reached_subset hseeds fun a ha => (hdone a ha).successors)

end EfiLvgl.Reach
