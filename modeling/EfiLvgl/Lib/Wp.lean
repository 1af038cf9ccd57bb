import Mathlib.Logic.Basic

/-!
# EfiLvgl.Lib.Wp — weakest preconditions of programs that raise

A program runs in a state and returns or raises. `Wp x s Q E` says that from `s` it does one or
the other as `Q` and `E` say. What a program has done before it raises stays done, and is what
the handler starts from (`wp_tryCatch`). Nothing here names a particular program.
-/

namespace EfiLvgl

variable {ε σ α β : Type}

/-- From `s`, the program returns as `Q` says or raises as `E` says. -/
def Wp (x : EStateM ε σ α) (s : σ) (Q : α → σ → Prop) (E : ε → σ → Prop) : Prop :=
  match x s with
  | .ok v s' => Q v s'
  | .error e s' => E e s'

/-! What a bind comes to once the first program is known. -/

theorem bind_apply_ok {x : EStateM ε σ β} {f : β → EStateM ε σ α} {v : β} {s s' : σ}
    (h : x s = .ok v s') : (x >>= f) s = f v s' := by
  show EStateM.bind x f s = _
  unfold EStateM.bind
  rw [h]

theorem bind_apply_get {f : σ → EStateM ε σ α} {s : σ} : (get >>= f) s = f s s := rfl

theorem bind_apply_error {x : EStateM ε σ β} {f : β → EStateM ε σ α} {e : ε} {s s' : σ}
    (h : x s = .error e s') : (x >>= f) s = .error e s' := by
  show EStateM.bind x f s = _
  unfold EStateM.bind
  rw [h]

theorem bind_apply_congr {x y : EStateM ε σ β} {f : β → EStateM ε σ α} {s : σ} (h : x s = y s) :
    (x >>= f) s = (y >>= f) s := by
  show EStateM.bind x f s = EStateM.bind y f s
  unfold EStateM.bind
  rw [h]

section Rules

variable {s s' : σ} {Q : α → σ → Prop} {E : ε → σ → Prop}

theorem wp_ok {x : EStateM ε σ α} {v : α} (h : x s = .ok v s') (hq : Q v s') : Wp x s Q E := by
  unfold Wp
  rw [h]
  exact hq

theorem wp_error {x : EStateM ε σ α} {e : ε} (h : x s = .error e s') (he : E e s') :
    Wp x s Q E := by
  unfold Wp
  rw [h]
  exact he

theorem wp_pure {v : α} (h : Q v s) : Wp (pure v) s Q E := h

theorem wp_get {R : σ → σ → Prop} (h : R s s) : Wp (get : EStateM ε σ σ) s R E := h

theorem wp_set {R : PUnit → σ → Prop} (h : R () s') : Wp (set s' : EStateM ε σ PUnit) s R E := h

theorem wp_bind {x : EStateM ε σ β} {f : β → EStateM ε σ α}
    (h : Wp x s (fun v s' => Wp (f v) s' Q E) E) : Wp (x >>= f) s Q E := by
  unfold Wp at h ⊢
  show (match EStateM.bind x f s with
    | .ok v s' => Q v s'
    | .error e s' => E e s')
  unfold EStateM.bind
  cases hx : x s with
  | ok v s' =>
      rw [hx] at h
      exact h
  | error e s' =>
      rw [hx] at h
      exact h

/-- The handler goes on in the state in which the program was cut short. -/
theorem wp_tryCatch {x : EStateM ε σ α} {k : ε → EStateM ε σ α}
    (h : Wp x s Q fun e s' => Wp (k e) s' Q E) : Wp (tryCatch x k) s Q E := by
  unfold Wp at h
  show (match EStateM.tryCatch x k s with
    | .ok v s' => Q v s'
    | .error e s' => E e s')
  unfold EStateM.tryCatch
  cases hx : x s with
  | ok v s' =>
      rw [hx] at h
      exact h
  | error e s' =>
      rw [hx] at h
      exact h

theorem Wp.mono {x : EStateM ε σ α} {Q' : α → σ → Prop} {E' : ε → σ → Prop} (h : Wp x s Q E)
    (hQ : ∀ v s', Q v s' → Q' v s') (hE : ∀ e s', E e s' → E' e s') : Wp x s Q' E' := by
  unfold Wp at h ⊢
  cases hx : x s with
  | ok v s' =>
      rw [hx] at h
      exact hQ v s' h
  | error e s' =>
      rw [hx] at h
      exact hE e s' h

/-- No program both returns and raises. -/
theorem Wp.not_raises {x : EStateM ε σ α} (h : Wp x s Q fun _ _ => False) :
    ¬ Wp x s (fun _ _ => False) E := by
  intro h'
  unfold Wp at h h'
  cases hx : x s with
  | ok v s' =>
      rw [hx] at h'
      exact h'
  | error e s' =>
      rw [hx] at h
      exact h

end Rules

end EfiLvgl
