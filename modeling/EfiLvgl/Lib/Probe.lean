import EfiLvgl.Lib.Assoc
import Mathlib.Data.Nat.ModEq
import Mathlib.Logic.Function.Basic

/-!
# EfiLvgl.Lib.Probe — keys in a table, one behind the other

Open addressing with linear probing: a key is at the place its hash says or behind it, with no cell
in between that was never used. A cell whose key is taken out stays marked as used, unless
the next one was never used. Nothing here names a particular program:

* `search` goes once around the table, and `search_spec` says what it has seen;
* `Sound` is the invariant; `Sound.absent` says that a search that meets no key has missed none;
* `Sound.insert` and `Sound.remove` keep it.
-/

namespace EfiLvgl.Probe

open EfiLvgl.Assoc

universe u

/-- A cell of the table: never used, used before, or with a key. -/
inductive Cell (K : Type u) where
  | null
  | sentinel
  | key (k : K)
deriving DecidableEq, Repr

theorem Cell.null_ne_key {K : Type u} (k : K) : Cell.null ≠ Cell.key k := by
  intro h
  cases h

theorem Cell.sentinel_ne_key {K : Type u} (k : K) : Cell.sentinel ≠ Cell.key k := by
  intro h
  cases h

/-- Keys with a hash that does not tell equal ones apart. -/
structure Hashed (K : Type u) extends KeyEq K where
  hash : K → Nat
  hash_eq : ∀ {k l}, equal k l = true → hash k = hash l

/-- What a search comes to: the position of the key, or the position that was never used or none,
and the first position that is free to be used again. -/
inductive Outcome where
  | found (pos : Nat)
  | empty (pos : Nat) (avail : Option Nat)
  | around (avail : Option Nat)
deriving DecidableEq, Repr

variable {K : Type u}

/-- From a position on until the start, for so many cells. -/
def search (n : Nat) (cell : Nat → Cell K) (hit : K → Bool) (start : Nat) :
    Nat → Nat → Option Nat → Option Outcome
  | 0, _, _ => none
  | fuel + 1, pos, avail =>
      let next (avail : Option Nat) :=
        if (pos + 1) % n = start then some (.around avail)
        else search n cell hit start fuel ((pos + 1) % n) avail
      match cell pos with
      | .null => some (.empty pos avail)
      | .sentinel => next (avail.or (some pos))
      | .key k => if hit k then some (.found pos) else next avail

variable {n start : Nat} {cell : Nat → Cell K} {hit : K → Bool}

/-! ## Positions -/

/-- So many cells behind a position. -/
def behind (n start d : Nat) : Nat := (start + d) % n

theorem behind_zero (h : start < n) : behind n start 0 = start := Nat.mod_eq_of_lt h

theorem behind_lt (hn : 0 < n) (d : Nat) : behind n start d < n := Nat.mod_lt _ hn

theorem behind_succ (d : Nat) : (behind n start d + 1) % n = behind n start (d + 1) := by
  rw [behind, behind, Nat.mod_add_mod, Nat.add_assoc]

/-- Every position is so many cells behind the start. -/
theorem exists_behind (h : start < n) {p : Nat} (hp : p < n) : ∃ d < n, p = behind n start d := by
  rcases Nat.lt_or_ge p start with hlt | hge
  · refine ⟨p + n - start, by omega, ?_⟩
    have hover : start + (p + n - start) = p + n := by omega
    rw [behind, hover, Nat.add_mod_right, Nat.mod_eq_of_lt hp]
  · refine ⟨p - start, by omega, ?_⟩
    rw [behind, Nat.add_sub_cancel' hge, Nat.mod_eq_of_lt hp]

theorem behind_injective {c d : Nat} (hc : c < n) (hd : d < n)
    (h : behind n start c = behind n start d) :
    c = d := by
  rw [behind, behind] at h
  have hsame : c % n = d % n := Nat.ModEq.add_left_cancel' start h
  rwa [Nat.mod_eq_of_lt hc, Nat.mod_eq_of_lt hd] at hsame

theorem behind_eq_start (h : start < n) {d : Nat} (hpos : 0 < d) (hd : d ≤ n) :
    behind n start d = start ↔ d = n := by
  constructor
  · intro hround
    by_contra hne
    have hzero := behind_injective (c := d) (d := 0) (by omega) (by omega)
      (hround.trans (behind_zero h).symm)
    omega
  · rintro rfl
    rw [behind, Nat.add_mod_right, Nat.mod_eq_of_lt h]

/-! ## What a search has seen -/

/-- So many cells are used, and their keys are not looked for. -/
def Passed (n start : Nat) (cell : Nat → Cell K) (hit : K → Bool) (d : Nat) : Prop :=
  ∀ i < d, cell (behind n start i) ≠ .null ∧
    ∀ k, cell (behind n start i) = .key k → hit k = false

/-- The first position that is free to be used again. -/
def Avail (n start : Nat) (cell : Nat → Cell K) (d : Nat) (avail : Option Nat) : Prop :=
  avail = none ∧ (∀ i < d, cell (behind n start i) ≠ .sentinel) ∨
    ∃ i < d, avail = some (behind n start i) ∧ cell (behind n start i) = .sentinel

inductive Looked (n start : Nat) (cell : Nat → Cell K) (hit : K → Bool) : Outcome → Prop where
  | found {d : Nat} {k : K} : d < n → Passed n start cell hit d →
      cell (behind n start d) = .key k → hit k = true →
      Looked n start cell hit (.found (behind n start d))
  | empty {d : Nat} {avail : Option Nat} : d < n → Passed n start cell hit d →
      cell (behind n start d) = .null → Avail n start cell d avail →
      Looked n start cell hit (.empty (behind n start d) avail)
  | around {avail : Option Nat} : Passed n start cell hit n → Avail n start cell n avail →
      Looked n start cell hit (.around avail)

theorem Passed.succ {d : Nat} (h : Passed n start cell hit d)
    (hused : cell (behind n start d) ≠ .null)
    (hkey : ∀ k, cell (behind n start d) = .key k → hit k = false) :
    Passed n start cell hit (d + 1) := by
  intro i hi
  rcases Nat.lt_succ_iff_lt_or_eq.mp hi with hlt | rfl
  · exact h i hlt
  · exact ⟨hused, hkey⟩

/-- A cell with a key is not free. -/
theorem Avail.key {d : Nat} {avail : Option Nat} {k : K} (h : Avail n start cell d avail)
    (hcell : cell (behind n start d) = .key k) : Avail n start cell (d + 1) avail := by
  rcases h with ⟨rfl, hnone⟩ | ⟨i, hi, rfl, hsentinel⟩
  · refine .inl ⟨rfl, ?_⟩
    intro i hi
    rcases Nat.lt_succ_iff_lt_or_eq.mp hi with hlt | rfl
    · exact hnone i hlt
    · rw [hcell]
      exact nofun
  · exact .inr ⟨i, Nat.lt_succ_of_lt hi, rfl, hsentinel⟩

/-- A cell that was used before is free, if none is before it. -/
theorem Avail.sentinel {d : Nat} {avail : Option Nat} (h : Avail n start cell d avail)
    (hcell : cell (behind n start d) = .sentinel) :
    Avail n start cell (d + 1) (avail.or (some (behind n start d))) := by
  rcases h with ⟨rfl, -⟩ | ⟨i, hi, rfl, hsentinel⟩
  · exact .inr ⟨d, Nat.lt_succ_self d, rfl, hcell⟩
  · exact .inr ⟨i, Nat.lt_succ_of_lt hi, rfl, hsentinel⟩

/-- A search ends after one way around. -/
theorem search_from (h : start < n) (fuel : Nat) {d : Nat} {avail : Option Nat}
    (hfuel : d + fuel = n) (hd : d < n) (hpassed : Passed n start cell hit d)
    (havail : Avail n start cell d avail) :
    ∃ outcome, search n cell hit start fuel (behind n start d) avail = some outcome ∧
      Looked n start cell hit outcome := by
  induction fuel generalizing d avail with
  | zero => omega
  | succ fuel ih =>
      -- what is left when the cell is used and its key not looked for
      have hnext : ∀ avail', cell (behind n start d) ≠ .null →
          (∀ k, cell (behind n start d) = .key k → hit k = false) →
          Avail n start cell (d + 1) avail' →
          ∃ outcome, (if (behind n start d + 1) % n = start then some (.around avail')
              else search n cell hit start fuel ((behind n start d + 1) % n) avail') =
              some outcome ∧ Looked n start cell hit outcome := by
        intro avail' hused hkey havail'
        have hpassed' := hpassed.succ hused hkey
        rw [behind_succ]
        -- the next position is the start again only after a full round
        by_cases hlast : d + 1 = n
        · rw [if_pos ((behind_eq_start h (Nat.succ_pos d) (Nat.le_of_eq hlast)).mpr hlast)]
          rw [hlast] at hpassed' havail'
          exact ⟨_, rfl, .around hpassed' havail'⟩
        · rw [if_neg fun hround => hlast ((behind_eq_start h (Nat.succ_pos d) hd).mp hround)]
          exact ih (by omega) (by omega) hpassed' havail'
      rw [search]
      cases hcell : cell (behind n start d) with
      | null => exact ⟨_, rfl, .empty hd hpassed hcell havail⟩
      | sentinel =>
          exact hnext _ (by rw [hcell]; exact nofun) (by rw [hcell]; exact nofun)
            (havail.sentinel hcell)
      | key k =>
          by_cases hhit : hit k = true
          · exact ⟨_, if_pos hhit, .found hd hpassed hcell hhit⟩
          · simp only [if_neg hhit]
            refine hnext _ (by rw [hcell]; exact nofun) ?_ (havail.key hcell)
            intro l hl
            rw [hcell] at hl
            cases hl
            exact (Bool.not_eq_true _).mp hhit

theorem search_spec (h : start < n) (cell : Nat → Cell K) (hit : K → Bool) :
    ∃ outcome, search n cell hit start n start none = some outcome ∧
      Looked n start cell hit outcome := by
  have hfrom : ∃ outcome, search n cell hit start n (behind n start 0) none = some outcome ∧
      Looked n start cell hit outcome :=
    search_from h n (Nat.zero_add n) (Nat.zero_lt_of_lt h)
      (fun i hi => absurd hi (Nat.not_lt_zero i))
      (.inl ⟨rfl, fun i hi => absurd hi (Nat.not_lt_zero i)⟩)
  rwa [behind_zero h] at hfrom

/-! ## Tables -/

variable (H : Hashed K)

/-- The place of a key. -/
def home (n : Nat) (k : K) : Nat := H.hash k % n

/-- Every key is behind its place with no cell in between that was never used, and no two are
equal. -/
structure Sound (n : Nat) (cell : Nat → Cell K) : Prop where
  path : ∀ p < n, ∀ k, cell p = .key k →
    ∃ d < n, p = behind n (home H n k) d ∧ ∀ i < d, cell (behind n (home H n k) i) ≠ .null
  unique : ∀ p < n, ∀ q < n, ∀ k l, cell p = .key k → cell q = .key l →
    H.equal k l = true → p = q

variable {H} {k : K}

theorem home_lt (hn : 0 < n) : home H n k < n := Nat.mod_lt _ hn

theorem home_eq {l : K} (h : H.equal k l = true) : home H n k = home H n l := by
  rw [home, home, H.hash_eq h]

/-- A table without a key. -/
theorem Sound.fresh (h : ∀ p < n, ∀ k, cell p ≠ .key k) : Sound H n cell where
  path p hp k hk := absurd hk (h p hp k)
  unique p hp _ _ k _ hk := absurd hk (h p hp k)

/-- What stands in the way of a key that is in the table is not what is looked for. -/
theorem Sound.absent_of_passed (h : Sound H n cell) {d : Nat}
    (hhit : ∀ p < n, ∀ l, cell p = .key l → hit l = H.equal l k)
    (hpassed : Passed n (home H n k) cell hit d)
    (hend : d = n ∨ cell (behind n (home H n k) d) = .null) {p : Nat} (hp : p < n) {l : K}
    (hl : cell p = .key l) : H.equal l k = false := by
  by_contra hequal
  rw [Bool.not_eq_false] at hequal
  -- equal keys have one home, so the search went the way that leads to the key
  obtain ⟨c, hc, rfl, hused⟩ := h.path p hp l hl
  rw [home_eq hequal] at hl hused hp
  rcases Nat.lt_trichotomy c d with hlt | rfl | hgt
  · -- it has been passed
    have hmissed := (hpassed c hlt).2 l hl
    rw [hhit _ hp l hl, hequal] at hmissed
    cases hmissed
  · -- it would be in the cell that the search ended at
    rcases hend with rfl | hnull
    · exact absurd hc (Nat.lt_irrefl _)
    · rw [hl] at hnull
      cases hnull
  · -- it would be behind a cell that was never used
    rcases hend with rfl | hnull
    · exact absurd (Nat.lt_trans hc hgt) (Nat.lt_irrefl _)
    · exact hused d hgt hnull

/-- A key may be put where a search for it has passed only used cells. -/
theorem Sound.insert (h : Sound H n cell) {d : Nat} (hd : d < n)
    (hused : ∀ i < d, cell (behind n (home H n k) i) ≠ .null)
    (habsent : ∀ p < n, ∀ l, cell p = .key l → H.equal l k = false) :
    Sound H n (Function.update cell (behind n (home H n k) d) (.key k)) := by
  have hkeep : ∀ p, cell p ≠ .null →
      Function.update cell (behind n (home H n k) d) (.key k) p ≠ .null := by
    intro p hp
    by_cases hplace : p = behind n (home H n k) d
    · rw [hplace, Function.update_self]
      exact nofun
    · rwa [Function.update_of_ne hplace]
  constructor
  · -- the way to the new key is used, and no cell on an old way is lost
    intro p hp l hl
    by_cases hplace : p = behind n (home H n k) d
    · rw [hplace, Function.update_self] at hl
      cases hl
      exact ⟨d, hd, hplace, fun i hi => hkeep _ (hused i hi)⟩
    · rw [Function.update_of_ne hplace] at hl
      obtain ⟨c, hc, hpc, hpath⟩ := h.path p hp l hl
      exact ⟨c, hc, hpc, fun i hi => hkeep _ (hpath i hi)⟩
  · intro p hp q hq l m hl hm hequal
    by_cases hpk : p = behind n (home H n k) d <;> by_cases hqk : q = behind n (home H n k) d
    · -- one of two equal keys would be the new one, which the table had not
      rw [hpk, hqk]
    · rw [hpk, Function.update_self] at hl
      rw [Function.update_of_ne hqk] at hm
      cases hl
      rw [H.comm, habsent q hq m hm] at hequal
      cases hequal
    · rw [Function.update_of_ne hpk] at hl
      rw [hqk, Function.update_self] at hm
      cases hm
      rw [habsent p hp l hl] at hequal
      cases hequal
    · rw [Function.update_of_ne hpk] at hl
      rw [Function.update_of_ne hqk] at hm
      exact h.unique p hp q hq l m hl hm hequal

/-- A key may be taken out and its cell stay used, or be as never used if the next one is. -/
theorem Sound.remove (h : Sound H n cell) {p : Nat} {c : Cell K} (hc : ∀ l, c ≠ .key l)
    (hnext : c = .null → cell ((p + 1) % n) = .null) :
    Sound H n (Function.update cell p c) := by
  have hother : ∀ q l, Function.update cell p c q = .key l → q ≠ p ∧ cell q = .key l := by
    intro q l hl
    by_cases hq : q = p
    · rw [hq, Function.update_self] at hl
      exact absurd hl (hc l)
    · rw [Function.update_of_ne hq] at hl
      exact ⟨hq, hl⟩
  constructor
  · intro q hq l hl
    obtain ⟨-, hcell⟩ := hother q l hl
    obtain ⟨d, hd, hqd, hpath⟩ := h.path q hq l hcell
    refine ⟨d, hd, hqd, ?_⟩
    intro i hi hnull
    by_cases hplace : behind n (home H n l) i = p
    · -- the next cell is on the way, or has the key
      rw [hplace, Function.update_self] at hnull
      have hafter := hnext hnull
      rw [← hplace, behind_succ] at hafter
      rcases Nat.lt_or_ge (i + 1) d with hlt | hge
      · exact hpath (i + 1) hlt hafter
      · have hlast : i + 1 = d := by omega
        rw [hlast, ← hqd, hcell] at hafter
        cases hafter
    · -- the way does not go over the cell
      rw [Function.update_of_ne hplace] at hnull
      exact hpath i hi hnull
  · intro q hq r hr l m hl hm hequal
    exact h.unique q hq r hr l m (hother q l hl).2 (hother r m hm).2 hequal

end EfiLvgl.Probe
