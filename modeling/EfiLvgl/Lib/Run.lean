import Mathlib.Data.List.Basic

/-!
# EfiLvgl.Lib.Run — runs of a partial step function with events

A system is a partial step function `step : σ → ℓ → Option (σ × List ε)`: in a
state, a label is either not enabled (`none`) or leads to a next state and
emits a list of events. Nothing here names a particular program:

* `run` executes a list of labels and collects the events;
* `Reach step ok s₀ s h` says that `s` is reached with history `h` by steps
  that all meet the side condition `ok`;
* `Reach.invariant` is the induction rule for properties of state *and*
  history;
* `always_iff_guarded` says when a property of single steps holds along a run;
* `run_refines` and `run_simulates` carry a simulation of single steps over to runs;
* `trackAll` reads a history with a partial automaton, the usual way to say
  that events only come in a certain order.
-/

namespace EfiLvgl.Run

universe u v w

variable {σ : Type u} {ℓ : Type v} {ε : Type w}

/-- A partial step function that emits events. -/
abbrev Step (σ : Type u) (ℓ : Type v) (ε : Type w) := σ → ℓ → Option (σ × List ε)

/-- Run a list of labels, collecting the events in order. -/
def run (step : Step σ ℓ ε) : σ → List ℓ → Option (σ × List ε)
  | s, [] => some (s, [])
  | s, l :: ls =>
      match step s l with
      | none => none
      | some (s', evs) =>
          match run step s' ls with
          | none => none
          | some (s'', evs') => some (s'', evs ++ evs')

/-- What a run of at least one label comes to. -/
theorem run_cons {step : Step σ ℓ ε} {s s' : σ} {l : ℓ} {ls : List ℓ} {evs : List ε}
    (h : run step s (l :: ls) = some (s', evs)) :
    ∃ t evs₁ evs₂, step s l = some (t, evs₁) ∧ run step t ls = some (s', evs₂) ∧
      evs = evs₁ ++ evs₂ := by
  unfold run at h
  cases hs : step s l with
  | none => simp [hs] at h
  | some p =>
      obtain ⟨t, evs₁⟩ := p
      cases ht : run step t ls with
      | none => simp [hs, ht] at h
      | some q =>
          obtain ⟨t', evs₂⟩ := q
          simp only [hs, ht, Option.some.injEq, Prod.mk.injEq] at h
          obtain ⟨rfl, rfl⟩ := h
          exact ⟨t, evs₁, evs₂, rfl, ht, rfl⟩

/-- A step function that is defined everywhere runs every list of labels. -/
theorem exists_run {step : Step σ ℓ ε} (htotal : ∀ s l, ∃ s' evs, step s l = some (s', evs)) (s : σ)
    (ls : List ℓ) : ∃ s' evs, run step s ls = some (s', evs) := by
  induction ls generalizing s with
  | nil => exact ⟨s, [], rfl⟩
  | cons l ls ih =>
      rcases htotal s l with ⟨t, evs, hstep⟩
      rcases ih t with ⟨s', evs', hrest⟩
      exact ⟨s', evs ++ evs', by simp only [run, hstep, hrest]⟩

/-- `s` is reached from `s₀` with history `h`, every step meeting `ok`. -/
inductive Reach (step : Step σ ℓ ε) (ok : σ → ℓ → Prop) (s₀ : σ) : σ → List ε → Prop where
  | init : Reach step ok s₀ s₀ []
  | step {s s' : σ} {h evs : List ε} {l : ℓ} :
      Reach step ok s₀ s h → ok s l → step s l = some (s', evs) →
      Reach step ok s₀ s' (h ++ evs)

/-- Every label of the list is taken in a state in which `ok` allows it. -/
def Guarded (step : Step σ ℓ ε) (ok : σ → ℓ → Prop) : σ → List ℓ → Prop
  | _, [] => True
  | s, l :: ls => ok s l ∧ ∀ s' evs, step s l = some (s', evs) → Guarded step ok s' ls

/-- Whether the labels are allowed is found by taking the steps. -/
def decideGuarded (step : Step σ ℓ ε) (ok : σ → ℓ → Prop) [∀ s l, Decidable (ok s l)] :
    (s : σ) → (ls : List ℓ) → Decidable (Guarded step ok s ls)
  | _, [] => isTrue trivial
  | s, l :: ls =>
      match hs : step s l with
      | none => decidable_of_iff (ok s l) (by simp [Guarded, hs])
      | some (t, evs) =>
          have := decideGuarded step ok t ls
          decidable_of_iff (ok s l ∧ Guarded step ok t ls) (by simp [Guarded, hs])

instance (step : Step σ ℓ ε) (ok : σ → ℓ → Prop) [∀ s l, Decidable (ok s l)] (s : σ)
    (ls : List ℓ) : Decidable (Guarded step ok s ls) := decideGuarded step ok s ls

/-- Invariant induction for a property of the state and the history. -/
theorem Reach.invariant {step : Step σ ℓ ε} {ok : σ → ℓ → Prop} {s₀ : σ}
    (inv : σ → List ε → Prop) (hinit : inv s₀ [])
    (hstep : ∀ s s' h evs l, inv s h → ok s l → step s l = some (s', evs) → inv s' (h ++ evs))
    {s : σ} {h : List ε} (hr : Reach step ok s₀ s h) : inv s h := by
  induction hr with
  | init => exact hinit
  | step _ hok hs ih => exact hstep _ _ _ _ _ ih hok hs

/-- What a state reaches goes on from where the state was reached. -/
theorem Reach.trans {step : Step σ ℓ ε} {ok : σ → ℓ → Prop} {s₀ s s' : σ} {h h' : List ε}
    (hr : Reach step ok s₀ s h) (hr' : Reach step ok s s' h') : Reach step ok s₀ s' (h ++ h') := by
  induction hr' with
  | init =>
      rw [List.append_nil]
      exact hr
  | step _ hok hs ih =>
      rw [← List.append_assoc]
      exact ih.step hok hs

/-- A step alone. -/
theorem Reach.single {step : Step σ ℓ ε} {ok : σ → ℓ → Prop} {s s' : σ} {l : ℓ} {evs : List ε}
    (hok : ok s l) (hs : step s l = some (s', evs)) : Reach step ok s s' evs :=
  Reach.init.step hok hs

/-- A run whose steps all meet `ok` reaches its last state. -/
theorem Reach.of_run_append {step : Step σ ℓ ε} {ok : σ → ℓ → Prop} {s₀ : σ} :
    ∀ (ls : List ℓ) {s s' : σ} {h evs : List ε}, Reach step ok s₀ s h →
      Guarded step ok s ls → run step s ls = some (s', evs) →
      Reach step ok s₀ s' (h ++ evs)
  | [], s, s', h, evs, hr, _, hrun => by
      simp only [run, Option.some.injEq, Prod.mk.injEq] at hrun
      obtain ⟨rfl, rfl⟩ := hrun
      simpa using hr
  | l :: ls, s, s', h, evs, hr, hg, hrun => by
      obtain ⟨t, evs₁, evs₂, hs, ht, rfl⟩ := run_cons hrun
      rw [← List.append_assoc]
      exact Reach.of_run_append ls (hr.step hg.1 hs) (hg.2 t evs₁ hs) ht

theorem Reach.of_run {step : Step σ ℓ ε} {ok : σ → ℓ → Prop} {s₀ s : σ} {ls : List ℓ}
    {evs : List ε} (hg : Guarded step ok s₀ ls) (hrun : run step s₀ ls = some (s, evs)) :
    Reach step ok s₀ s evs := by
  simpa using Reach.of_run_append ls Reach.init hg hrun

/-! ## A property of every step -/

/-- Every step of the run has the property. -/
def Always (step : Step σ ℓ ε) (good : σ → σ → List ε → Prop) : σ → List ℓ → Prop
  | _, [] => True
  | s, l :: ls => ∀ s' evs, step s l = some (s', evs) → good s s' evs ∧ Always step good s' ls

/-- A step has the property exactly if it meets `ok`, and such steps keep an invariant: then
all steps of a run have it exactly if they all meet `ok`. -/
theorem always_iff_guarded {step : Step σ ℓ ε} {good : σ → σ → List ε → Prop}
    {ok : σ → ℓ → Prop} (inv : σ → Prop)
    (hgood : ∀ s s' evs l, inv s → step s l = some (s', evs) → (good s s' evs ↔ ok s l))
    (hinv : ∀ s s' evs l, inv s → ok s l → step s l = some (s', evs) → inv s') :
    ∀ (ls : List ℓ) {s s' : σ} {evs : List ε}, inv s → run step s ls = some (s', evs) →
      (Always step good s ls ↔ Guarded step ok s ls)
  | [], _, _, _, _, _ => Iff.rfl
  | l :: ls, s, s', evs, hs, hrun => by
      obtain ⟨t, evs₁, evs₂, hstep, hrest, -⟩ := run_cons hrun
      have hok := hgood s t evs₁ l hs hstep
      constructor
      · intro halways
        obtain ⟨hgood₁, halways⟩ := halways t evs₁ hstep
        refine ⟨hok.mp hgood₁, ?_⟩
        intro t₂ evs' ht₂
        rw [hstep] at ht₂
        cases ht₂
        -- the step had the property, so it met `ok` and the invariant goes on
        have ht := hinv s t evs₁ l hs (hok.mp hgood₁) hstep
        exact (always_iff_guarded inv hgood hinv ls ht hrest).mp halways
      · rintro ⟨hl, hguarded⟩ t₂ evs' ht₂
        rw [hstep] at ht₂
        cases ht₂
        have ht := hinv s t evs₁ l hs hl hstep
        exact ⟨hok.mpr hl,
          (always_iff_guarded inv hgood hinv ls ht hrest).mpr (hguarded t evs₁ hstep)⟩

/-- A condition on the labels alone is met along a run when every label meets it. -/
theorem guarded_iff_forall_mem {step : Step σ ℓ ε} {ok : ℓ → Prop} :
    ∀ (ls : List ℓ) {s s' : σ} {evs : List ε}, run step s ls = some (s', evs) →
      (Guarded step (fun _ l => ok l) s ls ↔ ∀ l ∈ ls, ok l)
  | [], _, _, _, _ => by simp [Guarded]
  | l :: ls, s, s', evs, hrun => by
      obtain ⟨t, evs₁, evs₂, hstep, hrest, -⟩ := run_cons hrun
      have ih : Guarded step (fun _ l => ok l) t ls ↔ ∀ l ∈ ls, ok l :=
        guarded_iff_forall_mem ls hrest
      rw [List.forall_mem_cons, ← ih]
      constructor
      · rintro ⟨hl, hguarded⟩
        exact ⟨hl, hguarded t evs₁ hstep⟩
      · rintro ⟨hl, hguarded⟩
        refine ⟨hl, ?_⟩
        intro t' evs' ht'
        rw [hstep] at ht'
        cases ht'
        exact hguarded

/-! ## Refinement -/

/-- A run of a system whose steps are a relation. -/
inductive Trace {τ : Type u} (next : τ → ℓ → List ε → τ → Prop) :
    τ → List ℓ → List ε → τ → Prop where
  | nil (t : τ) : Trace next t [] [] t
  | cons {t t' t'' : τ} {l : ℓ} {ls : List ℓ} {evs evs' : List ε} :
      next t l evs t' → Trace next t' ls evs' t'' → Trace next t (l :: ls) (evs ++ evs') t''

/-- When each step that meets `ok` is one of another system, so is each run. -/
theorem run_simulates {τ : Type u} {step : Step σ ℓ ε} {ok : σ → ℓ → Prop}
    {next : τ → ℓ → List ε → τ → Prop} (R : σ → τ → Prop)
    (hstep : ∀ s t s' l evs, R s t → ok s l → step s l = some (s', evs) →
      ∃ t', next t l evs t' ∧ R s' t') :
    ∀ (ls : List ℓ) {s s' : σ} {t : τ} {evs : List ε}, R s t → Guarded step ok s ls →
      run step s ls = some (s', evs) → ∃ t', Trace next t ls evs t' ∧ R s' t'
  | [], s, s', t, evs, hR, _, hrun => by
      cases hrun
      exact ⟨t, .nil t, hR⟩
  | l :: ls, s, s', t, evs, hR, hg, hrun => by
      obtain ⟨s₁, evs₁, evs₂, hs, hrest, rfl⟩ := run_cons hrun
      obtain ⟨t₁, ht, hR₁⟩ := hstep s t s₁ l evs₁ hR hg.1 hs
      obtain ⟨t₂, htrace, hR₂⟩ := run_simulates R hstep ls hR₁ (hg.2 s₁ evs₁ hs) hrest
      exact ⟨t₂, .cons ht htrace, hR₂⟩

/-! ## Reading a history with an automaton -/

/-- Feed a list of events to a partial automaton. -/
def trackAll {α : Type u} (track : α → ε → Option α) : α → List ε → Option α
  | a, [] => some a
  | a, e :: es => (track a e).bind fun a' => trackAll track a' es

@[simp] theorem trackAll_nil {α : Type u} (track : α → ε → Option α) (a : α) :
    trackAll track a [] = some a := rfl

@[simp] theorem trackAll_cons {α : Type u} (track : α → ε → Option α) (a : α) (e : ε)
    (es : List ε) :
    trackAll track a (e :: es) = (track a e).bind fun a' => trackAll track a' es := rfl

theorem trackAll_append {α : Type u} (track : α → ε → Option α) (es fs : List ε) :
    ∀ a, trackAll track a (es ++ fs) =
      (trackAll track a es).bind fun a' => trackAll track a' fs := by
  induction es with
  | nil => intro a; rfl
  | cons e es ih =>
      intro a
      cases h : track a e with
      | none => simp [h]
      | some a' => simp [h, ih a']

end EfiLvgl.Run
