import EfiLvgl.Gc.Keep
import EfiLvgl.Lib.Run

/-!
# EfiLvgl.Gc.Run — runs of the collector

What the interpreter asks of `py/gc.c`, in any order: it allocates, frees and resizes chains,
collects, locks and writes into the pool. A heap that is well formed stays so (`step_wf`), and an
object that every collection finds live is left alone until it is freed or resized
(`object_survives`).
-/

namespace EfiLvgl.Gc

/-- What is asked of the collector. There is a `World` for each collection that a call may make. -/
inductive Op where
  | alloc (w w' : World) (nBytes : Nat) (hasFinaliser : Bool)
  | free (ptr : Nat)
  | realloc (w w' : World) (ptr nBytes : Nat) (allowMove : Bool)
  | collect (w : World)
  | lock
  | unlock
  | setAuto (enabled : Bool)
  | setThreshold (threshold : Nat)
  | write (i v : Nat)

namespace Heap

open EfiLvgl.Run EfiLvgl.Reach

variable {L : Layout}

/-- `gc.enable` and `gc.disable` of Python. -/
def setAuto (h : Heap L) (enabled : Bool) : Heap L := { h with autoCollectEnabled := enabled }

def setThreshold (h : Heap L) (threshold : Nat) : Heap L := { h with allocThreshold := threshold }

/-- The interpreter writes a word of the pool. -/
def write (h : Heap L) (i v : Nat) : Heap L := { h with words := Function.update h.words i v }

/-- One call, with the pointer or the number that it answers. -/
def step : Step (Heap L) Op Nat
  | h, .alloc w w' nBytes hasFinaliser =>
      (h.gcAlloc w w' nBytes hasFinaliser).map fun r => (r.1, [r.2])
  | h, .free ptr => (h.gcFree ptr).map fun h => (h, [])
  | h, .realloc w w' ptr nBytes allowMove =>
      (h.gcRealloc w w' ptr nBytes allowMove).map fun r => (r.1, [r.2])
  | h, .collect w => (h.gcCollect w).map fun h => (h, [h.collected])
  | h, .lock => some (h.gcLock, [])
  | h, .unlock => some (h.gcUnlock, [])
  | h, .setAuto enabled => some (h.setAuto enabled, [])
  | h, .setThreshold threshold => some (h.setThreshold threshold, [])
  | h, .write i v => some (h.write i v, [])

/-- A size for `gc_realloc` that does not wrap around to no block at all. -/
def Sized (L : Layout) : Op → Prop
  | .realloc _ _ _ nBytes _ => 0 < nBytes → 0 < bytesToBlocks L nBytes
  | _ => True

/-- Each call leaves a well-formed heap behind. -/
theorem step_wf {h h' : Heap L} {op : Op} {answers : List Nat} (hwf : h.WellFormed)
    (hsized : Sized L op) (hstep : step h op = some (h', answers)) : h'.WellFormed := by
  cases op with
  | alloc w w' nBytes hasFinaliser =>
      obtain ⟨r, halloc, heq⟩ := Option.map_eq_some_iff.mp hstep
      cases heq
      exact gcAlloc_wf hwf halloc
  | free ptr =>
      obtain ⟨g, hfree, heq⟩ := Option.map_eq_some_iff.mp hstep
      cases heq
      exact gcFree_wf hwf hfree
  | realloc w w' ptr nBytes allowMove =>
      obtain ⟨r, hrealloc, heq⟩ := Option.map_eq_some_iff.mp hstep
      cases heq
      exact gcRealloc_wf hwf hsized hrealloc
  | collect w =>
      obtain ⟨g, hcollect, heq⟩ := Option.map_eq_some_iff.mp hstep
      cases heq
      exact (gcCollect_run hwf hcollect).wf
  | lock =>
      cases hstep
      exact hwf.congr rfl rfl
  | unlock =>
      cases hstep
      exact gcUnlock_wf hwf
  | setAuto enabled =>
      cases hstep
      exact hwf.congr rfl rfl
  | setThreshold threshold =>
      cases hstep
      exact hwf.congr rfl rfl
  | write i v =>
      cases hstep
      exact hwf.congr rfl rfl

/-- The collections that a call may make. -/
def Collects (h : Heap L) : Op → Heap L → World → Prop
  | .alloc w w' _ _, g, v => AllocCollects w w' h g v
  | .realloc w w' _ _ _, g, v => AllocCollects w w' h g v
  | .collect w, g, v => g = h ∧ v = w
  | _, _, _ => False

/-- The call is not about the object. -/
def Leaves (L : Layout) (b n : Nat) : Op → Prop
  | .free ptr => ptr ≠ L.ptrFromBlock b
  | .realloc _ _ ptr _ _ => ptr ≠ L.ptrFromBlock b
  | .write i _ => ¬ (b * wordsPerBlock ≤ i ∧ i < (b + n) * wordsPerBlock)
  | _ => True

/-- The object is live in the collections of the call, no finaliser writes into it, and the call
is about something else. -/
structure Held (b n : Nat) (h : Heap L) (op : Op) : Prop where
  live : ∀ g v, Collects h op g v → b ∈ g.live v ∧ v.Spares b n
  leaves : Leaves L b n op
  sized : Sized L op

theorem step_same {h h' : Heap L} {op : Op} {answers : List Nat} (hwf : h.WellFormed) {b n : Nat}
    (ho : h.Object b n) (hheld : Held b n h op) (hstep : step h op = some (h', answers)) :
    Same h h' b n := by
  cases op with
  | alloc w w' nBytes hasFinaliser =>
      obtain ⟨r, halloc, heq⟩ := Option.map_eq_some_iff.mp hstep
      cases heq
      exact (gcAlloc_same hwf halloc ho hheld.live).1
  | free ptr =>
      obtain ⟨g, hfree, heq⟩ := Option.map_eq_some_iff.mp hstep
      cases heq
      exact gcFree_same hwf hfree ho hheld.leaves
  | realloc w w' ptr nBytes allowMove =>
      obtain ⟨r, hrealloc, heq⟩ := Option.map_eq_some_iff.mp hstep
      cases heq
      exact gcRealloc_same hwf hheld.sized hrealloc ho hheld.leaves hheld.live
  | collect w =>
      obtain ⟨g, hcollect, heq⟩ := Option.map_eq_some_iff.mp hstep
      cases heq
      obtain ⟨hin, hspares⟩ := hheld.live h w ⟨rfl, rfl⟩
      exact (gcCollect_run hwf hcollect).same ho hin hspares
  | lock =>
      cases hstep
      exact Same.of_tables ho rfl fun _ _ _ => rfl
  | unlock =>
      cases hstep
      exact Same.of_tables ho (gcUnlock_tables h) fun i _ _ => by simp only [gcUnlock]
  | setAuto enabled =>
      cases hstep
      exact Same.of_tables ho rfl fun _ _ _ => rfl
  | setThreshold threshold =>
      cases hstep
      exact Same.of_tables ho rfl fun _ _ _ => rfl
  | write i v =>
      cases hstep
      refine Same.of_tables ho rfl ?_
      intro j hj hjn
      -- a word of the object is not written
      refine Function.update_of_ne ?_ v h.words
      rintro rfl
      exact hheld.leaves ⟨hj, hjn⟩

/-- An object that every collection of a run finds live, and that no call of the run is about, is
where it was, with what it holds. -/
theorem object_survives {h h' : Heap L} (hwf : h.WellFormed) {b n : Nat} (ho : h.Object b n)
    {ops : List Op} {answers : List Nat} (hheld : Guarded step (Held b n) h ops)
    (hrun : run step h ops = some (h', answers)) : Same h h' b n := by
  have hreach : Reach step (Held b n) h h' answers := Reach.of_run hheld hrun
  -- both hold of every heap that is reached
  have hinv : h'.WellFormed ∧ Same h h' b n := by
    refine Reach.invariant (fun g _ => g.WellFormed ∧ Same h g b n) ⟨hwf, Same.refl ho⟩ ?_ hreach
    rintro g g' _ _ op ⟨hg, hsame⟩ hop hstep
    exact ⟨step_wf hg hop.sized hstep, hsame.trans (step_same hg hsame.object hop hstep)⟩
  exact hinv.2

/-- The only object, which is a root, over a write beside it and a collection. -/
theorem object_survives_oneObject :
    ∃ h', run step oneObject [.write 7 5, .collect (.quiet [4224])] = some (h', [0]) ∧
      Same oneObject h' 0 1 := by
  have hrun : ∃ h', run step oneObject [.write 7 5, .collect (.quiet [4224])] = some (h', [0]) :=
    ⟨_, rfl⟩
  obtain ⟨h', hrun⟩ := hrun
  have hbeside : ¬ (0 * wordsPerBlock ≤ 7 ∧ 7 < (0 + 1) * wordsPerBlock) := by decide
  have hwrite : Held 0 1 oneObject (.write 7 5) := ⟨fun _ _ hc => absurd hc id, hbeside, trivial⟩
  have hcollect : Held 0 1 (oneObject.write 7 5) (.collect (.quiet [4224])) := by
    refine ⟨?_, trivial, trivial⟩
    rintro g v ⟨rfl, rfl⟩
    -- the root is the pointer to the object
    exact ⟨subset_reached _ ⟨4224, List.mem_singleton_self _, by decide, by decide, rfl⟩,
      fun _ _ _ _ _ => rfl⟩
  have hheld : Guarded step (Held 0 1) oneObject [.write 7 5, .collect (.quiet [4224])] := by
    refine ⟨hwrite, ?_⟩
    intro g evs hstep
    cases hstep
    exact ⟨hcollect, fun _ _ _ => trivial⟩
  exact ⟨h', hrun, object_survives oneObject_wf oneObject_object hheld hrun⟩

end Heap

end EfiLvgl.Gc
