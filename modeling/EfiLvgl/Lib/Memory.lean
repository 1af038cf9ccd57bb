import Mathlib.Data.List.Forall2
import Mathlib.Logic.Function.Basic

/-!
# EfiLvgl.Lib.Memory — allocated buffers

A pool of buffers with addresses. Reading, writing or freeing a buffer that is not
allocated, or has been freed, has no result. `Holds` says what a list of buffers
contains; its lemmas say what a write to one of them changes, and that copying each
onto the one before it moves the contents up by one. Nothing here names a particular
program.
-/

namespace EfiLvgl.Memory

universe u

variable {α : Type u}

/-- Addresses from `next` on have not been given out. -/
structure Pool (α : Type u) where
  buffer : Nat → Option (List α)
  next : Nat

/-- An empty pool. -/
def Pool.empty : Pool α := ⟨fun _ => none, 0⟩

namespace Pool

/-- `AllocatePool`, with the contents that the buffer happens to have. -/
def alloc (m : Pool α) (contents : List α) : Nat × Pool α :=
  (m.next, ⟨Function.update m.buffer m.next (some contents), m.next + 1⟩)

/-- `FreePool`. -/
def free (m : Pool α) (p : Nat) : Option (Pool α) :=
  if (m.buffer p).isSome then some { m with buffer := Function.update m.buffer p none } else none

def write (m : Pool α) (p : Nat) (contents : List α) : Option (Pool α) :=
  if (m.buffer p).isSome then
    some { m with buffer := Function.update m.buffer p (some contents) }
  else none

/-- `CopyMem` of a whole buffer. -/
def copy (m : Pool α) (destination source : Nat) : Option (Pool α) :=
  (m.buffer source).bind fun contents => m.write destination contents

/-- The second buffer onto the first, then the third onto the second, and so on. -/
def copyUp (m : Pool α) : List Nat → Option (Pool α)
  | p :: q :: ps => (m.copy p q).bind fun m => m.copyUp (q :: ps)
  | _ => some m

/-- One buffer onto each of the others. -/
def copyAll (m : Pool α) (source : Nat) : List Nat → Option (Pool α)
  | [] => some m
  | p :: ps => (m.copy p source).bind fun m => m.copyAll source ps

def freeAll (m : Pool α) : List Nat → Option (Pool α)
  | [] => some m
  | p :: ps => (m.free p).bind fun m => m.freeAll ps

/-! ## What buffers hold -/

/-- The buffers hold these contents, in that order. -/
def Holds (m : Pool α) (ps : List Nat) (bs : List (List α)) : Prop :=
  List.Forall₂ (fun p b => m.buffer p = some b) ps bs

theorem write_of_some {m : Pool α} {p : Nat} {b : List α} (h : m.buffer p = some b)
    (contents : List α) :
    m.write p contents = some { m with buffer := Function.update m.buffer p (some contents) } := by
  rw [write, h]
  rfl

theorem exists_write {m : Pool α} {p : Nat} {b : List α} (h : m.buffer p = some b)
    (contents : List α) : ∃ m', m.write p contents = some m' :=
  ⟨_, write_of_some h contents⟩

theorem write_eq_some {m m' : Pool α} {p : Nat} {contents : List α}
    (h : m.write p contents = some m') :
    (m.buffer p).isSome ∧ m'.buffer = Function.update m.buffer p (some contents) := by
  rw [write] at h
  split at h
  · next hsome =>
      cases h
      exact ⟨hsome, rfl⟩
  · cases h

theorem Holds.length_eq {m : Pool α} {ps : List Nat} {bs : List (List α)} (h : m.Holds ps bs) :
    ps.length = bs.length :=
  List.Forall₂.length_eq h

theorem Holds.getElem? {m : Pool α} {ps : List Nat} {bs : List (List α)} (h : m.Holds ps bs)
    {i p : Nat} (hp : ps[i]? = some p) : ∃ b, bs[i]? = some b ∧ m.buffer p = some b := by
  induction h generalizing i with
  | nil => simp at hp
  | cons hpb _ ih =>
      cases i with
      | zero =>
          cases hp
          exact ⟨_, rfl, hpb⟩
      | succ i => exact ih hp

/-- What happens elsewhere does not matter. -/
theorem Holds.frame {m m' : Pool α} {ps : List Nat} {bs : List (List α)} (h : m.Holds ps bs)
    (hsame : ∀ p ∈ ps, m'.buffer p = m.buffer p) : m'.Holds ps bs := by
  induction h with
  | nil => exact List.Forall₂.nil
  | cons hpb _ ih =>
      refine List.Forall₂.cons ?_ (ih fun p hp => hsame p (List.mem_cons_of_mem _ hp))
      rw [hsame _ List.mem_cons_self, hpb]

/-- A write changes one of the contents. -/
theorem Holds.write {m m' : Pool α} {ps : List Nat} {bs : List (List α)} (h : m.Holds ps bs)
    (hnodup : ps.Nodup) {i p : Nat} (hp : ps[i]? = some p) {b : List α} (hb : bs[i]? = some b)
    {f : List α → List α} (hw : m.write p (f b) = some m') : m'.Holds ps (bs.modify i f) := by
  obtain ⟨-, hbuffer⟩ := write_eq_some hw
  induction h generalizing i with
  | nil => simp at hp
  | cons hpb hrest ih =>
      obtain ⟨hnotMem, hnodup⟩ := List.nodup_cons.mp hnodup
      cases i with
      | zero =>
          cases hp
          cases hb
          -- no pointer is listed twice, so the others keep what they hold
          refine List.Forall₂.cons (by rw [hbuffer]; simp) (Holds.frame hrest ?_)
          intro q hq
          rw [hbuffer, Function.update_of_ne]
          rintro rfl
          exact hnotMem hq
      | succ i =>
          refine List.Forall₂.cons ?_ (ih hnodup hp hb)
          rw [hbuffer, Function.update_of_ne, hpb]
          rintro rfl
          exact hnotMem (List.mem_of_getElem? hp)

/-- Copying up drops the first of the contents and repeats the last. -/
theorem Holds.copyUp {ps : List Nat} : ∀ {m : Pool α} {p : Nat} {b : List α} {bs : List (List α)},
    m.Holds (p :: ps) (b :: bs) → (p :: ps).Nodup →
      ∃ m', m.copyUp (p :: ps) = some m' ∧
        m'.Holds (p :: ps) (bs ++ [(b :: bs).getLast (List.cons_ne_nil b bs)]) ∧
        ∀ q ∉ p :: ps, m'.buffer q = m.buffer q := by
  induction ps with
  | nil =>
      intro m p b bs h _
      obtain ⟨hp, hnil⟩ := List.forall₂_cons.mp h
      cases hnil
      exact ⟨m, rfl, h, fun _ _ => rfl⟩
  | cons q ps ih =>
      intro m p b bs h hnodup
      obtain ⟨hp, hrest⟩ := List.forall₂_cons.mp h
      cases hrest with
      | @cons _ c _ cs hq hrest =>
          obtain ⟨hnotMem, hnodup'⟩ := List.nodup_cons.mp hnodup
          have hw := write_of_some hp c
          -- the rest is untouched by the first copy
          have hafter : Holds { m with buffer := Function.update m.buffer p (some c) } (q :: ps)
              (c :: cs) := by
            refine Holds.frame (List.Forall₂.cons hq hrest) ?_
            intro r hr
            refine Function.update_of_ne ?_ _ _
            rintro rfl
            exact hnotMem hr
          obtain ⟨m', hm', hholds, hframe⟩ := ih hafter hnodup'
          refine ⟨m', ?_, ?_, ?_⟩
          · rw [Pool.copyUp, copy, hq, Option.bind_some, hw, Option.bind_some, hm']
          · refine List.Forall₂.cons ?_ ?_
            · -- the first keeps what was copied onto it
              rw [hframe p hnotMem]
              simp
            · rw [List.getLast_cons (List.cons_ne_nil c cs)]
              exact hholds
          · intro r hr
            obtain ⟨hrp, hrrest⟩ := not_or.mp (mt List.mem_cons.mpr hr)
            rw [hframe r hrrest]
            exact Function.update_of_ne hrp _ _

/-- The source onto each. -/
theorem Holds.copyAll {source : Nat} {b : List α} {ps : List Nat} {bs : List (List α)} :
    ∀ {m : Pool α}, m.buffer source = some b → m.Holds ps bs → (source :: ps).Nodup →
      ∃ m', m.copyAll source ps = some m' ∧ m'.buffer source = some b ∧
        m'.Holds ps (bs.map fun _ => b) ∧ ∀ q ∉ ps, m'.buffer q = m.buffer q := by
  induction ps generalizing bs with
  | nil =>
      intro m hsource h _
      cases h
      exact ⟨m, rfl, hsource, List.Forall₂.nil, fun _ _ => rfl⟩
  | cons p ps ih =>
      intro m hsource h hnodup
      obtain ⟨hsourceMem, hnodup⟩ := List.nodup_cons.mp hnodup
      obtain ⟨hne, hsourceMem⟩ := not_or.mp (mt List.mem_cons.mpr hsourceMem)
      obtain ⟨hpMem, hnodup⟩ := List.nodup_cons.mp hnodup
      cases h with
      | @cons _ c _ cs hp hrest =>
          have hw := write_of_some hp b
          -- neither the buffers to come nor the source are touched by the first copy
          have hafter : Holds { m with buffer := Function.update m.buffer p (some b) } ps cs := by
            refine Holds.frame hrest ?_
            intro q hq
            refine Function.update_of_ne ?_ _ _
            rintro rfl
            exact hpMem hq
          have hsource' : Function.update m.buffer p (some b) source = some b := by
            rw [Function.update_of_ne hne, hsource]
          obtain ⟨m', hm', hkept, hholds, hframe⟩ :=
            ih hsource' hafter (List.nodup_cons.mpr ⟨hsourceMem, hnodup⟩)
          refine ⟨m', ?_, hkept, ?_, ?_⟩
          · rw [Pool.copyAll, copy, hsource, Option.bind_some, hw, Option.bind_some, hm']
          · refine List.Forall₂.cons ?_ hholds
            rw [hframe p hpMem]
            simp
          · intro q hq
            obtain ⟨hqp, hqps⟩ := not_or.mp (mt List.mem_cons.mpr hq)
            rw [hframe q hqps]
            exact Function.update_of_ne hqp _ _

theorem Holds.mapM {m : Pool α} {ps : List Nat} {bs : List (List α)} (h : m.Holds ps bs) :
    ps.mapM m.buffer = some bs := by
  induction h with
  | nil => rfl
  | cons hpb _ ih => simp [List.mapM_cons, hpb, ih]

theorem holds_replicate {m : Pool α} {p : Nat} {b : List α} (h : m.buffer p = some b) (n : Nat) :
    m.Holds (List.replicate n p) (List.replicate n b) := by
  induction n with
  | zero => exact List.Forall₂.nil
  | succ n ih => exact List.Forall₂.cons h ih

/-! ## What has been freed -/

section Freed

variable {m m' : Pool α} {p : Nat} (hp : m.buffer p = none)
include hp

theorem write_freed {q : Nat} {contents : List α} (h : m.write q contents = some m') :
    m'.buffer p = none := by
  obtain ⟨hsome, hbuffer⟩ := write_eq_some h
  -- a write goes to a buffer that is there
  have hne : p ≠ q := by
    rintro rfl
    simp [hp] at hsome
  rw [hbuffer, Function.update_of_ne hne, hp]

theorem copy_freed {q r : Nat} (h : m.copy q r = some m') : m'.buffer p = none := by
  obtain ⟨b, -, hw⟩ := Option.bind_eq_some_iff.mp h
  exact write_freed hp hw

theorem free_freed {q : Nat} (h : m.free q = some m') : m'.buffer p = none := by
  rw [free] at h
  split at h
  · cases h
    by_cases hpq : p = q
    · simp [hpq]
    · exact (Function.update_of_ne hpq _ _).trans hp
  · cases h

end Freed

theorem copyUp_freed {p : Nat} {ps : List Nat} : ∀ {m m' : Pool α}, m.buffer p = none →
    m.copyUp ps = some m' → m'.buffer p = none := by
  induction ps with
  | nil =>
      intro m m' hp h
      cases h
      exact hp
  | cons q ps ih =>
      intro m m' hp h
      cases ps with
      | nil =>
          cases h
          exact hp
      | cons r ps =>
          obtain ⟨m₁, hcopy, hrest⟩ := Option.bind_eq_some_iff.mp h
          exact ih (copy_freed hp hcopy) hrest

theorem freeAll_freed {p : Nat} {ps : List Nat} : ∀ {m m' : Pool α}, m.buffer p = none →
    m.freeAll ps = some m' → m'.buffer p = none := by
  induction ps with
  | nil =>
      intro m m' hp h
      cases h
      exact hp
  | cons q ps ih =>
      intro m m' hp h
      obtain ⟨m₁, hfree, hrest⟩ := Option.bind_eq_some_iff.mp h
      exact ih (free_freed hp hfree) hrest

/-- The first of the freed buffers is gone. -/
theorem freeAll_head {m m' : Pool α} {p : Nat} {ps : List Nat}
    (h : m.freeAll (p :: ps) = some m') : m'.buffer p = none := by
  obtain ⟨m₁, hfree, hrest⟩ := Option.bind_eq_some_iff.mp h
  refine freeAll_freed ?_ hrest
  rw [free] at hfree
  split at hfree
  · cases hfree
    simp
  · cases hfree

end Pool

end EfiLvgl.Memory
