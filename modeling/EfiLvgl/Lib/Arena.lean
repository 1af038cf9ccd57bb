import Mathlib.Data.Finset.Card
import Mathlib.Data.Finset.Range
import Mathlib.Logic.Function.Basic

/-!
# EfiLvgl.Lib.Arena — extents in a row of cells

A row of cells, some of which are taken, in extents that do not meet (`Arena`). Extents are put
where they fit, dropped and resized; `FirstFit` is the lowest place where one fits. Nothing here
names a particular program.
-/

namespace EfiLvgl

/-- Extents among `N` cells; `size` is the length of the one that begins at a cell. -/
@[ext]
structure Arena (N : Nat) where
  size : Nat → Option Nat
  pos : ∀ b n, size b = some n → 0 < n
  le : ∀ b n, size b = some n → b + n ≤ N
  apart : ∀ b n c m, size b = some n → size c = some m → b < c → b + n ≤ c

namespace Arena

variable {N : Nat}

/-- Two arenas with the same extents are the same. -/
theorem ext_iff_size {a a' : Arena N} : a = a' ↔ ∀ b n, a.size b = some n ↔ a'.size b = some n := by
  constructor
  · rintro rfl b n
    exact Iff.rfl
  · intro h
    apply Arena.ext
    funext b
    exact Option.ext fun n => h b n

/-- The number of extents. -/
def count (a : Arena N) : Nat := ((Finset.range N).filter fun b => (a.size b).isSome).card

def empty (N : Nat) : Arena N where
  size _ := none
  pos _ _ h := by cases h
  le _ _ h := by cases h
  apart _ _ _ _ h := by cases h

/-- The cells from `b` to `b + n` are there and in no extent. -/
structure Fits (a : Arena N) (b n : Nat) : Prop where
  pos : 0 < n
  le : b + n ≤ N
  apart : ∀ c m, a.size c = some m → c + m ≤ b ∨ b + n ≤ c

/-- The lowest place for `n` cells. -/
structure FirstFit (a : Arena N) (b n : Nat) : Prop where
  fits : a.Fits b n
  least : ∀ c, a.Fits c n → b ≤ c

/-- There is no place for `n` cells. -/
def Full (a : Arena N) (n : Nat) : Prop := ∀ b, ¬ a.Fits b n

open Classical in
/-- The arena without some of its extents. -/
noncomputable def keep (a : Arena N) (s : Set Nat) : Arena N where
  size b := if b ∈ s then a.size b else none
  pos b n h := by
    split at h
    · exact a.pos b n h
    · cases h
  le b n h := by
    split at h
    · exact a.le b n h
    · cases h
  apart b n c m hb hc hbc := by
    split at hb
    · split at hc
      · exact a.apart b n c m hb hc hbc
      · cases hc
    · cases hb

theorem keep_size {a : Arena N} {s : Set Nat} {b n : Nat} :
    (a.keep s).size b = some n ↔ a.size b = some n ∧ b ∈ s := by
  unfold keep
  dsimp only
  split
  · next hb => exact ⟨fun h => ⟨h, hb⟩, fun h => h.1⟩
  · next hb =>
      constructor
      · intro hnone
        cases hnone
      · rintro ⟨-, hin⟩
        exact absurd hin hb

/-- One extent is dropped. -/
noncomputable def drop (a : Arena N) (b : Nat) : Arena N := a.keep {c | c ≠ b}

theorem drop_size {a : Arena N} {b c n : Nat} :
    (a.drop b).size c = some n ↔ a.size c = some n ∧ c ≠ b := keep_size

/-- An extent is put where it fits. -/
def put (a : Arena N) (b n : Nat) (h : a.Fits b n) : Arena N where
  size := Function.update a.size b (some n)
  pos c m hc := by
    by_cases hcb : c = b
    · rw [hcb, Function.update_self, Option.some.injEq] at hc
      rw [← hc]
      exact h.pos
    · rw [Function.update_of_ne hcb] at hc
      exact a.pos c m hc
  le c m hc := by
    by_cases hcb : c = b
    · rw [hcb, Function.update_self, Option.some.injEq] at hc
      rw [hcb, ← hc]
      exact h.le
    · rw [Function.update_of_ne hcb] at hc
      exact a.le c m hc
  apart c m d k hc hd hcd := by
    by_cases hcb : c = b
    · -- the new extent is in front
      have hdb : d ≠ b := fun heq => absurd (hcb.trans heq.symm) (Nat.ne_of_lt hcd)
      rw [hcb, Function.update_self, Option.some.injEq] at hc
      rw [Function.update_of_ne hdb] at hd
      have hpos := a.pos d k hd
      have := h.apart d k hd
      omega
    · rw [Function.update_of_ne hcb] at hc
      by_cases hdb : d = b
      · -- the new extent is behind
        have hpos := h.pos
        have := h.apart c m hc
        omega
      · rw [Function.update_of_ne hdb] at hd
        exact a.apart c m d k hc hd hcd

theorem put_size {a : Arena N} {b n : Nat} (h : a.Fits b n) {c m : Nat} :
    (a.put b n h).size c = some m ↔ c = b ∧ m = n ∨ c ≠ b ∧ a.size c = some m := by
  change Function.update a.size b (some n) c = some m ↔ _
  by_cases hcb : c = b
  · rw [hcb, Function.update_self, Option.some.injEq]
    constructor
    · intro heq
      exact Or.inl ⟨rfl, heq.symm⟩
    · rintro (⟨-, heq⟩ | ⟨hne, -⟩)
      · exact heq.symm
      · exact absurd rfl hne
  · rw [Function.update_of_ne hcb]
    constructor
    · intro hc
      exact Or.inr ⟨hcb, hc⟩
    · rintro (⟨heq, -⟩ | ⟨-, hc⟩)
      · exact absurd heq hcb
      · exact hc

/-- Where an extent fits there is none. -/
theorem Fits.fresh {a : Arena N} {b n : Nat} (h : a.Fits b n) : a.size b = none := by
  cases hb : a.size b with
  | none => rfl
  | some m =>
      -- both have a first cell, and it would be the same
      have hpos := a.pos b m hb
      have hn := h.pos
      have := h.apart b m hb
      omega

end Arena

end EfiLvgl
