import Mathlib.Logic.Function.Iterate

/-!
# EfiLvgl.Lib.Halt — computations that come to an end

A computation goes from state to state until there is no next one. It does not come to an end
where it keeps coming back to the same states (`not_halts_of_recurrent`); a loop with a guard does
when the guard turns down one of the states its body goes through, and the body comes back from all
before it (`halts_stuckAt_iff`). Nothing here names a particular program.
-/

namespace EfiLvgl

universe u v

variable {σ : Type u} {next : σ → Option σ}

/-- The computation comes to an end. -/
inductive Halts (next : σ → Option σ) : σ → Prop where
  | stop {s : σ} : next s = none → Halts next s
  | step {s t : σ} : next s = some t → Halts next t → Halts next s

namespace Halts

theorem iff_of_next {s t : σ} (h : next s = some t) : Halts next s ↔ Halts next t := by
  constructor
  · intro hs
    cases hs with
    | stop hnone => rw [h] at hnone; cases hnone
    | step hsome ht =>
        rw [h] at hsome
        cases hsome
        exact ht
  · exact .step h

/-- The computation gets from a state to another one. -/
inductive Leads (next : σ → Option σ) : σ → σ → Prop where
  | refl (s : σ) : Leads next s s
  | step {s t u : σ} : next s = some t → Leads next t u → Leads next s u

theorem Leads.trans {s t u : σ} (hst : Leads next s t) (htu : Leads next t u) : Leads next s u := by
  induction hst with
  | refl s => exact htu
  | step hnext _ ih => exact .step hnext (ih htu)

/-- What each step preserves holds in every state that is got to. -/
theorem Leads.invariant (inv : σ → Prop) (hstep : ∀ s t, inv s → next s = some t → inv t)
    {s t : σ} (h : Leads next s t) (hs : inv s) : inv t := by
  induction h with
  | refl s => exact hs
  | step hnext _ ih => exact ih (hstep _ _ hs hnext)

theorem of_leads {s t : σ} (h : Leads next s t) : Halts next s ↔ Halts next t := by
  induction h with
  | refl s => exact Iff.rfl
  | step hnext _ ih => exact (iff_of_next hnext).trans ih

/-- A computation that is part of another one. -/
theorem Leads.map {τ : Type v} {next' : τ → Option τ} {f : σ → τ}
    (hf : ∀ s t, next s = some t → next' (f s) = some (f t)) {s t : σ} (h : Leads next s t) :
    Leads next' (f s) (f t) := by
  induction h with
  | refl s => exact .refl (f s)
  | step hnext _ ih => exact .step (hf _ _ hnext) ih

theorem map_iff {τ : Type v} {next' : τ → Option τ} {f : σ → τ}
    (hf : ∀ s, next' (f s) = (next s).map f) (s : σ) : Halts next' (f s) ↔ Halts next s := by
  constructor
  · intro h
    -- the induction is on the computation of the images
    generalize ht : f s = t at h
    induction h generalizing s with
    | stop hnone =>
        subst ht
        rw [hf, Option.map_eq_none_iff] at hnone
        exact .stop hnone
    | step hsome _ ih =>
        subst ht
        rw [hf, Option.map_eq_some_iff] at hsome
        rcases hsome with ⟨t, hnext, heq⟩
        exact .step hnext (ih t heq)
  · intro h
    induction h with
    | stop hnone => exact .stop (by rw [hf, hnone]; rfl)
    | step hsome _ ih => exact .step (by rw [hf, hsome]; rfl) ih

end Halts

/-- States from each of which the computation goes on and gets to one of them again. -/
theorem not_halts_of_recurrent (inv : σ → Prop)
    (h : ∀ s, inv s → ∃ t u, next s = some t ∧ Halts.Leads next t u ∧ inv u) {s : σ} (hs : inv s) :
    ¬ Halts next s := by
  intro hhalts
  -- none of them can be got to from a state where the computation ends
  have hnever : ∀ u, Halts.Leads next s u → ¬ inv u := by
    clear hs
    induction hhalts with
    | stop hnone =>
        intro u hleads hu
        cases hleads with
        | refl =>
            rcases h _ hu with ⟨t, v, hnext, -, -⟩
            rw [hnone] at hnext
            cases hnext
        | step hnext _ =>
            rw [hnone] at hnext
            cases hnext
    | step hsome _ ih =>
        intro u hleads hu
        cases hleads with
        | refl =>
            rcases h _ hu with ⟨t, v, hnext, hback, hv⟩
            rw [hsome] at hnext
            cases hnext
            -- the way back begins in the next state already
            exact ih v hback hv
        | step hnext hrest =>
            rw [hsome] at hnext
            cases hnext
            exact ih u hrest hu
  exact hnever s (.refl s) hs

/-! ## Loops -/

/-- `while (!stop) body`. -/
def whileNot (stop : σ → Bool) (body : σ → σ) (s : σ) : Option σ :=
  if stop s then none else some (body s)

theorem whileNot_of_stop {stop : σ → Bool} {body : σ → σ} {s : σ} (h : stop s = true) :
    whileNot stop body s = none := by
  simp [whileNot, h]

theorem whileNot_of_not_stop {stop : σ → Bool} {body : σ → σ} {s : σ} (h : stop s = false) :
    whileNot stop body s = some (body s) := by
  simp [whileNot, h]

/-- A body that does not come back from some of the states: the loop stays there. -/
def stuckAt (stuck : σ → Bool) (body : σ → σ) (s : σ) : σ := if stuck s then s else body s

section Stuck

variable {stop stuck : σ → Bool} {body : σ → σ}

/-- Where such a loop ends, it has gone through the body as often as it takes, and has never been
stuck. -/
theorem Halts.exists_iterate {s : σ} (h : Halts (whileNot stop (stuckAt stuck body)) s) :
    ∃ n, Halts.Leads (whileNot stop (stuckAt stuck body)) s (body^[n] s) ∧
      stop (body^[n] s) = true ∧
      ∀ i < n, stop (body^[i] s) = false ∧ stuck (body^[i] s) = false := by
  induction h with
  | @stop s hnone =>
      refine ⟨0, .refl s, ?_, fun i hi => absurd hi (Nat.not_lt_zero i)⟩
      by_contra hgo
      rw [whileNot_of_not_stop (by simpa using hgo)] at hnone
      cases hnone
  | @step s t hsome _ ih =>
      have hgo : stop s = false := by
        by_contra hstop
        rw [whileNot_of_stop (by simpa using hstop)] at hsome
        cases hsome
      have ht : t = stuckAt stuck body s := by
        rw [whileNot_of_not_stop hgo] at hsome
        exact (Option.some.inj hsome).symm
      cases hstuck : stuck s with
      | true =>
          -- nothing has changed
          have hsame : t = s := by rw [ht, stuckAt, if_pos hstuck]
          rw [hsame] at ih
          exact ih
      | false =>
          have hnext : t = body s := by rw [ht, stuckAt, if_neg (by simp [hstuck])]
          rw [hnext] at ih hsome
          rcases ih with ⟨n, hleads, hend, hbefore⟩
          refine ⟨n + 1, .step hsome hleads, hend, ?_⟩
          intro i hi
          cases i with
          | zero => exact ⟨hgo, hstuck⟩
          | succ i => exact hbefore i (by omega)

theorem halts_stuckAt_iff (s : σ) : Halts (whileNot stop (stuckAt stuck body)) s ↔
    ∃ n, stop (body^[n] s) = true ∧ ∀ i < n, stuck (body^[i] s) = false := by
  constructor
  · intro h
    rcases h.exists_iterate with ⟨n, -, hend, hbefore⟩
    exact ⟨n, hend, fun i hi => (hbefore i hi).2⟩
  · rintro ⟨n, hend, hbefore⟩
    induction n generalizing s with
    | zero => exact .stop (whileNot_of_stop hend)
    | succ n ih =>
        -- the guard may turn a state down before; then the loop ends there
        cases hs : stop s with
        | true => exact .stop (whileNot_of_stop hs)
        | false =>
            have hstuck : stuck s = false := hbefore 0 (by omega)
            have hnext : stuckAt stuck body s = body s := by
              rw [stuckAt, if_neg (by simp [hstuck])]
            refine .step (whileNot_of_not_stop hs) ?_
            rw [hnext]
            exact ih (body s) hend fun i hi => hbefore (i + 1) (by omega)

end Stuck

end EfiLvgl
