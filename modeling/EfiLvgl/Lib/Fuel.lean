import Mathlib.Order.Basic

/-!
# EfiLvgl.Lib.Fuel — computations that are given fuel

A recursion that need not end is computed with fuel: `f n` is what comes of it with `n` units, and
the error `out` says that they were not enough. Where more fuel changes nothing but that
(`Grows`), a computation that ends settles on one result (`Grows.settles`), and both notions go
through a bind. Nothing here names a particular program.
-/

namespace EfiLvgl.Fuel

universe u v w

variable {ε : Type u} {α : Type v} {β : Type v} {out : ε}

/-- Either the fuel was not enough for the first result, or it is the second one. -/
def Below (out : ε) (x y : Except ε α) : Prop := x = .error out ∨ x = y

namespace Below

theorem refl (x : Except ε α) : Below out x x := Or.inr rfl

theorem trans {x y z : Except ε α} (hxy : Below out x y) (hyz : Below out y z) : Below out x z := by
  rcases hxy with h | rfl
  · exact Or.inl h
  · exact hyz

theorem eq_of_ne {x y : Except ε α} (h : Below out x y) (hx : x ≠ .error out) : x = y :=
  h.resolve_left hx

theorem bind {x y : Except ε α} {f g : α → Except ε β} (h : Below out x y)
    (hf : ∀ a, Below out (f a) (g a)) : Below out (x >>= f) (y >>= g) := by
  rcases h with rfl | rfl
  · exact Or.inl rfl
  · cases x with
    | error e => exact refl _
    | ok a => exact hf a

end Below

/-- More fuel changes nothing once it is enough. -/
def Grows (out : ε) (f : Nat → Except ε α) : Prop := ∀ n, Below out (f n) (f (n + 1))

/-- Some fuel is enough. -/
def Ends (out : ε) (f : Nat → Except ε α) : Prop := ∃ n, f n ≠ .error out

/-- With enough fuel the result is `r`. -/
def Settles (out : ε) (f : Nat → Except ε α) (r : Except ε α) : Prop :=
  r ≠ .error out ∧ ∃ k, ∀ n, k ≤ n → f n = r

theorem Grows.le {f : Nat → Except ε α} (h : Grows out f) {n m : Nat} (hnm : n ≤ m) :
    Below out (f n) (f m) := by
  induction hnm with
  | refl => exact Below.refl _
  | step _ ih => exact ih.trans (h _)

/-- A computation that ends with some fuel has this result with all that is more. -/
theorem Grows.settles {f : Nat → Except ε α} (h : Grows out f) {n : Nat} (hn : f n ≠ .error out) :
    Settles out f (f n) :=
  ⟨hn, n, fun _ hm => ((h.le hm).eq_of_ne hn).symm⟩

namespace Settles

theorem ends {f : Nat → Except ε α} {r : Except ε α} (h : Settles out f r) : Ends out f := by
  rcases h with ⟨hr, k, hk⟩
  refine ⟨k, ?_⟩
  rw [hk k (Nat.le_refl k)]
  exact hr

theorem unique {f : Nat → Except ε α} {r r' : Except ε α} (h : Settles out f r)
    (h' : Settles out f r') : r = r' := by
  rcases h with ⟨-, k, hk⟩
  rcases h' with ⟨-, k', hk'⟩
  rw [← hk (max k k') (by omega), hk' (max k k') (by omega)]

/-- A result that does not depend on the fuel. -/
theorem const {r : Except ε α} (hr : r ≠ .error out) : Settles out (fun _ => r) r :=
  ⟨hr, 0, fun _ _ => rfl⟩

theorem of_succ {f : Nat → Except ε α} {r : Except ε α} (h : Settles out (fun n => f (n + 1)) r) :
    Settles out f r := by
  rcases h with ⟨hr, k, hk⟩
  refine ⟨hr, k + 1, fun n hn => ?_⟩
  obtain ⟨m, rfl⟩ : ∃ m, n = m + 1 := ⟨n - 1, by omega⟩
  exact hk m (by omega)

theorem congr {f g : Nat → Except ε α} {r : Except ε α} (h : Settles out f r)
    (hfg : ∀ n, g n = f n) : Settles out g r := by
  rwa [show g = f from funext hfg]

theorem map {f : Nat → Except ε α} {r : Except ε α} (g : α → β) (h : Settles out f r) :
    Settles out (fun n => g <$> f n) (g <$> r) := by
  rcases h with ⟨hr, k, hk⟩
  refine ⟨?_, k, fun n hn => congrArg (g <$> ·) (hk n hn)⟩
  cases r with
  | error e => exact fun he => hr (congrArg _ (Except.error.inj he))
  | ok x =>
      intro h
      cases h

/-- An error ends all that comes behind. -/
theorem bind_error {f : Nat → Except ε α} {g : Nat → α → Except ε β} {e : ε}
    (h : Settles out f (.error e)) : Settles out (fun n => f n >>= g n) (.error e) := by
  rcases h with ⟨hr, k, hk⟩
  refine ⟨fun he => hr (congrArg _ (Except.error.inj he)), k, fun n hn => ?_⟩
  dsimp only
  rw [hk n hn]
  rfl

theorem bind {f : Nat → Except ε α} {g : Nat → α → Except ε β} {x : α} {r : Except ε β}
    (h : Settles out f (.ok x)) (hg : Settles out (fun n => g n x) r) :
    Settles out (fun n => f n >>= g n) r := by
  rcases h with ⟨-, k, hk⟩
  rcases hg with ⟨hr, k', hk'⟩
  refine ⟨hr, max k k', fun n hn => ?_⟩
  dsimp only
  rw [hk n (by omega)]
  exact hk' n (by omega)

end Settles

/-- A computation in two steps settles when the first one does, and the second one does on what
comes of the first. -/
theorem exists_settles_bind {f : Nat → Except ε α} {g : Nat → α → Except ε β}
    (hf : ∃ r, Settles out f r)
    (hg : ∀ x, Settles out f (.ok x) → ∃ r, Settles out (fun n => g n x) r) :
    ∃ r, Settles out (fun n => f n >>= g n) r := by
  rcases hf with ⟨r, hr⟩
  cases r with
  | error e => exact ⟨_, hr.bind_error⟩
  | ok x =>
      rcases hg x hr with ⟨r, hx⟩
      exact ⟨r, hr.bind hx⟩

/-- What has settled behind a bind has settled step by step. -/
theorem Settles.of_bind {f : Nat → Except ε α} {g : Nat → α → Except ε β} {r : Except ε β}
    (hf : Grows out f) (h : Settles out (fun n => f n >>= g n) r) :
    (∃ e, Settles out f (.error e) ∧ r = .error e) ∨
      ∃ x, Settles out f (.ok x) ∧ Settles out (fun n => g n x) r := by
  rcases h with ⟨hr, k, hk⟩
  dsimp only at hk
  cases hx : f k with
  | error e =>
      have hre : r = .error e := by
        rw [← hk k (Nat.le_refl k), hx]
        rfl
      -- had the fuel run out in the first step, it would have in both
      have hne : f k ≠ .error out := by
        rw [hx]
        exact fun h => hr (hre.trans (congrArg _ (Except.error.inj h)))
      exact Or.inl ⟨e, hx ▸ hf.settles hne, hre⟩
  | ok x =>
      have hset : Settles out f (.ok x) := by
        refine hx ▸ hf.settles ?_
        rw [hx]
        simp
      refine Or.inr ⟨x, hset, hr, k, fun n hn => ?_⟩
      -- the first step has its result from here on, so the second one is what settles
      have hfn : f n = .ok x := by
        rw [← hx]
        refine ((hf.le hn).eq_of_ne ?_).symm
        rw [hx]
        simp
      rw [← hk n hn, hfn]
      rfl

/-- Two computations that have one result, if both of them end. -/
def Agree (out : ε) (f g : Nat → Except ε α) : Prop :=
  ∀ x y, Settles out f x → Settles out g y → x = y

theorem Agree.refl (f : Nat → Except ε α) : Agree out f f := fun _ _ h h' => h.unique h'

theorem Agree.bind {f f' : Nat → Except ε α} {g g' : Nat → α → Except ε β} (hf : Grows out f)
    (hf' : Grows out f') (h : Agree out f f')
    (hg : ∀ x, Agree out (fun n => g n x) fun n => g' n x) :
    Agree out (fun n => f n >>= g n) fun n => f' n >>= g' n := by
  intro r r' hr hr'
  rcases Settles.of_bind hf hr with ⟨e, he, rfl⟩ | ⟨x, hx, hr⟩
  · rcases Settles.of_bind hf' hr' with ⟨e', he', rfl⟩ | ⟨x', hx', -⟩
    · -- both end in the first step, with one error
      exact congrArg _ (Except.error.inj (h _ _ he he'))
    · cases h _ _ he hx'
  · rcases Settles.of_bind hf' hr' with ⟨e', he', -⟩ | ⟨x', hx', hr'⟩
    · -- only both of them can go on, and then with one value
      cases h _ _ hx he'
    · cases h _ _ hx hx'
      exact hg x r r' hr hr'

theorem grows_const (r : Except ε α) : Grows out fun _ => r := fun _ => Below.refl r

end EfiLvgl.Fuel
