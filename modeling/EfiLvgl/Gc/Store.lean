import EfiLvgl.Gc.Run
import EfiLvgl.Lib.Arena

/-!
# EfiLvgl.Gc.Store — what the heap is for

The heap without its tables: objects that lie apart in the pool, what they hold, and which of them
have a finaliser. An allocation takes the lowest place where it fits, a collection drops
what the roots do not reach. `step_refines` says that the tables are no more than that, and
`run_refines_store` carries it over to runs.
-/

namespace EfiLvgl.Gc

open EfiLvgl.Reach

/-- The objects of the pool and what they hold. -/
@[ext]
structure Store (L : Layout) where
  arena : Arena L.blocks
  finaliser : Nat → Bool
  words : Nat → Nat
  lockDepth : Nat
  auto : Bool
  flagged : ∀ b, finaliser b = true → ∃ n, arena.size b = some n

namespace Store

variable {L : Layout}

/-- The store before the first call. -/
def fresh (L : Layout) (words : Nat → Nat) : Store L where
  arena := Arena.empty L.blocks
  finaliser _ := false
  words := words
  lockDepth := 0
  auto := true
  flagged b hb := by cases hb

/-! ## Liveness -/

/-- The pointer is that of an object. -/
def PointsTo (s : Store L) (ptr b : Nat) : Prop :=
  ptr = L.ptrFromBlock b ∧ ∃ n, s.arena.size b = some n

/-- A word of the one object points to the other. -/
def next (s : Store L) (a b : Nat) : Prop :=
  ∃ n, s.arena.size a = some n ∧
    ∃ i, i < n * wordsPerBlock ∧ s.PointsTo (s.words (a * wordsPerBlock + i)) b

/-- What the roots reach. -/
def live (w : World) (s : Store L) : Set Nat :=
  Reached s.next {b | ∃ ptr ∈ w.ctx ++ w.regsAndStack, s.PointsTo ptr b}

/-! ## The calls -/

/-- What is not live is dropped, and its finalisers run from the lowest address on. -/
structure Collects (w : World) (s s' : Store L) : Prop where
  arena : s'.arena = s.arena.keep (s.live w)
  finaliser : ∀ b, s'.finaliser b = true ↔ s.finaliser b = true ∧ b ∈ s.live w
  words : ∃ freed : List Nat, freed.Pairwise (· < ·) ∧
    (∀ b, b ∈ freed ↔ s.finaliser b = true ∧ b ∉ s.live w) ∧
    s'.words = Heap.runFinalisers w freed s.words
  lockDepth : s'.lockDepth = s.lockDepth % 65536
  auto : s'.auto = s.auto

/-- A new object at the lowest place where it fits, all zero. -/
structure Takes (n : Nat) (hasFinaliser : Bool) (s s' : Store L) (b : Nat) : Prop where
  fits : s.arena.FirstFit b n
  arena : s'.arena = s.arena.put b n fits.fits
  finaliser : ∀ c, s'.finaliser c = (s.finaliser c || decide (c = b ∧ hasFinaliser = true))
  words : s'.words = Heap.zeroBlocks s.words b n
  lockDepth : s'.lockDepth = s.lockDepth
  auto : s'.auto = s.auto

def TakesAt (n : Nat) (hasFinaliser : Bool) (s s' : Store L) (ptr : Nat) : Prop :=
  ∃ b, Takes n hasFinaliser s s' b ∧ ptr = L.ptrFromBlock b

/-- Nothing fits, and `NULL` is answered. -/
def Refuses (n : Nat) (s s' : Store L) (ptr : Nat) : Prop := s.arena.Full n ∧ s' = s ∧ ptr = 0

/-- An allocation may collect first. It collects when nothing fits, and is refused only when nothing
fits behind that. -/
def Allocs (w w' : World) (nBytes : Nat) (hasFinaliser : Bool) (s s' : Store L) (ptr : Nat) :
    Prop :=
  (Heap.bytesToBlocks L nBytes = 0 ∨ 0 < s.lockDepth) ∧ s' = s ∧ ptr = 0 ∨
    0 < Heap.bytesToBlocks L nBytes ∧ s.lockDepth = 0 ∧
      ∃ t, (t = s ∨ s.auto = true ∧ Collects w s t) ∧
        (TakesAt (Heap.bytesToBlocks L nBytes) hasFinaliser t s' ptr ∨
          t.auto = false ∧ Refuses (Heap.bytesToBlocks L nBytes) t s' ptr ∨
          t.auto = true ∧ t.arena.Full (Heap.bytesToBlocks L nBytes) ∧ ∃ u, Collects w' t u ∧
            (TakesAt (Heap.bytesToBlocks L nBytes) hasFinaliser u s' ptr ∨
              Refuses (Heap.bytesToBlocks L nBytes) u s' ptr))

/-- One object is dropped; its finaliser does not run. -/
structure Drops (s s' : Store L) (b : Nat) : Prop where
  object : ∃ n, s.arena.size b = some n
  arena : s'.arena = s.arena.drop b
  finaliser : ∀ c, s'.finaliser c = (s.finaliser c && !decide (c = b))
  words : s'.words = s.words
  lockDepth : s'.lockDepth = s.lockDepth
  auto : s'.auto = s.auto

def Frees (ptr : Nat) (s s' : Store L) : Prop :=
  (0 < s.lockDepth ∨ ptr = 0) ∧ s' = s ∨
    s.lockDepth = 0 ∧ ∃ b, ptr = L.ptrFromBlock b ∧ Drops s s' b

/-- An object fits at its place with its new length. -/
structure Resizes (s s' : Store L) (b n m : Nat) : Prop where
  object : s.arena.size b = some n
  fits : (s.arena.drop b).Fits b m
  arena : s'.arena = (s.arena.drop b).put b m fits
  finaliser : s'.finaliser = s.finaliser
  words : s'.words = Heap.zeroBlocks s.words (b + n) (m - n)
  lockDepth : s'.lockDepth = s.lockDepth
  auto : s'.auto = s.auto

/-- The store with the words of one object copied to another. -/
def copy (s : Store L) (dst src n : Nat) : Store L :=
  { s with words := Heap.copyBlocks s.words dst src n }

/-- The ways of resizing an object. -/
inductive Reallocs (w w' : World) (ptrIn nBytes : Nat) (allowMove : Bool) (s : Store L) :
    Store L → Nat → Prop where
  | fresh {s' : Store L} {ptr : Nat} : ptrIn = 0 → Allocs w w' nBytes false s s' ptr →
      Reallocs w w' ptrIn nBytes allowMove s s' ptr
  | freed {s' : Store L} : ptrIn ≠ 0 → nBytes = 0 → Frees ptrIn s s' →
      Reallocs w w' ptrIn nBytes allowMove s s' 0
  | locked : ptrIn ≠ 0 → nBytes ≠ 0 → 0 < s.lockDepth →
      Reallocs w w' ptrIn nBytes allowMove s s 0
  | inPlace {s' : Store L} {b n : Nat} : ptrIn = L.ptrFromBlock b → nBytes ≠ 0 →
      s.lockDepth = 0 → Resizes s s' b n (Heap.bytesToBlocks L nBytes) →
      Reallocs w w' ptrIn nBytes allowMove s s' ptrIn
  | stuck {b n : Nat} : ptrIn = L.ptrFromBlock b → nBytes ≠ 0 → s.lockDepth = 0 →
      s.arena.size b = some n → ¬ (s.arena.drop b).Fits b (Heap.bytesToBlocks L nBytes) →
      allowMove = false → Reallocs w w' ptrIn nBytes allowMove s s 0
  | noRoom {s' : Store L} {b n : Nat} : ptrIn = L.ptrFromBlock b → nBytes ≠ 0 →
      s.lockDepth = 0 → s.arena.size b = some n →
      ¬ (s.arena.drop b).Fits b (Heap.bytesToBlocks L nBytes) → allowMove = true →
      Allocs w w' nBytes (s.finaliser b) s s' 0 →
      Reallocs w w' ptrIn nBytes allowMove s s' 0
  | moved {t s' : Store L} {b c n : Nat} : ptrIn = L.ptrFromBlock b → nBytes ≠ 0 →
      s.lockDepth = 0 → s.arena.size b = some n →
      ¬ (s.arena.drop b).Fits b (Heap.bytesToBlocks L nBytes) → allowMove = true →
      Allocs w w' nBytes (s.finaliser b) s t (L.ptrFromBlock c) →
      Frees ptrIn (t.copy c b n) s' →
      Reallocs w w' ptrIn nBytes allowMove s s' (L.ptrFromBlock c)

/-- One call. -/
def Next (s : Store L) (op : Op) (answers : List Nat) (s' : Store L) : Prop :=
  match op with
  | .alloc w w' nBytes hasFinaliser =>
      ∃ ptr, answers = [ptr] ∧ Allocs w w' nBytes hasFinaliser s s' ptr
  | .free ptr => answers = [] ∧ Frees ptr s s'
  | .realloc w w' ptr nBytes allowMove =>
      ∃ ptrOut, answers = [ptrOut] ∧ Reallocs w w' ptr nBytes allowMove s s' ptrOut
  | .collect w => ∃ collected, answers = [collected] ∧ Collects w s s' ∧
      s'.arena.count + collected = s.arena.count
  | .lock => answers = [] ∧ s' = { s with lockDepth := (s.lockDepth + 1) % 65536 }
  | .unlock => answers = [] ∧ s' = { s with lockDepth := (s.lockDepth + 65535) % 65536 }
  | .setAuto enabled => answers = [] ∧ s' = { s with auto := enabled }
  | .setThreshold _ => answers = [] ∧ s' = s
  | .write i v => answers = [] ∧ s' = { s with words := Function.update s.words i v }

end Store

/-! ## The heap as a store -/

namespace Heap

open EfiLvgl.Run

variable {L : Layout}

open Classical in
/-- The objects of the table. -/
noncomputable def arena (h : Heap L) : Arena L.blocks where
  size b := if ho : ∃ n, h.Object b n then some ho.choose else none
  pos b n hn := by
    split at hn
    · next ho =>
        obtain rfl := Option.some.inj hn
        exact ho.choose_spec.pos
    · cases hn
  le b n hn := by
    split at hn
    · next ho =>
        obtain rfl := Option.some.inj hn
        exact ho.choose_spec.le
    · cases hn
  apart b n c m hn hm hbc := by
    split at hn
    · next ho =>
        obtain rfl := Option.some.inj hn
        split at hm
        · next ho' => exact ho.choose_spec.le_of_lt ho'.choose_spec hbc
        · cases hm
    · cases hn

theorem arena_size {h : Heap L} {b n : Nat} : h.arena.size b = some n ↔ h.Object b n := by
  unfold arena
  dsimp only
  split
  · next ho =>
      constructor
      · intro heq
        obtain rfl := Option.some.inj heq
        exact ho.choose_spec
      · intro ho'
        rw [ho.choose_spec.unique ho']
  · next hno =>
      constructor
      · intro hnone
        cases hnone
      · intro ho
        exact absurd ⟨n, ho⟩ hno

/-- The heap seen from outside. -/
noncomputable def abs (h : Heap L) (hwf : h.WellFormed) : Store L where
  arena := h.arena
  finaliser b := decide (b < L.blocks) && h.tables.ftbGet b
  words := h.words
  lockDepth := h.lockDepth
  auto := h.autoCollectEnabled
  flagged b hb := by
    rw [Bool.and_eq_true, decide_eq_true_eq] at hb
    obtain ⟨n, ho⟩ := exists_object hb.1 (shape_eq_head.mpr (Or.inl (hwf.flags b hb.1 hb.2)))
    exact ⟨n, arena_size.mpr ho⟩

theorem abs_finaliser {h : Heap L} (hwf : h.WellFormed) {b : Nat} (hb : b < L.blocks) :
    (h.abs hwf).finaliser b = h.tables.ftbGet b := by
  change (decide (b < L.blocks) && h.tables.ftbGet b) = _
  rw [decide_eq_true hb, Bool.true_and]

/-- What holds of the flags of all blocks holds of the finalisers. -/
theorem abs_finaliser_eq {h h' : Heap L} {hwf : h.WellFormed} {hwf' : h'.WellFormed} (b : Nat)
    {f : Bool → Bool} (hf : f false = false ∨ b < L.blocks)
    (hflag : b < L.blocks → h'.tables.ftbGet b = f (h.tables.ftbGet b)) :
    (h'.abs hwf').finaliser b = f ((h.abs hwf).finaliser b) := by
  by_cases hb : b < L.blocks
  · rw [abs_finaliser _ hb, abs_finaliser _ hb]
    exact hflag hb
  · have hnone : ∀ {g : Heap L} {hg : g.WellFormed}, (g.abs hg).finaliser b = false := by
      intro g hg
      change (decide (b < L.blocks) && g.tables.ftbGet b) = false
      rw [decide_eq_false hb, Bool.false_and]
    rw [hnone, hnone]
    rcases hf with hf | hlt
    · exact hf.symm
    · exact absurd hlt hb

/-- A heap with the same tables has the same objects. -/
theorem abs_of_tables {h h' : Heap L} (hwf : h.WellFormed) (hwf' : h'.WellFormed)
    (ht : h'.tables = h.tables) : h'.abs hwf' = { h.abs hwf with
      words := h'.words
      lockDepth := h'.lockDepth
      auto := h'.autoCollectEnabled } := by
  apply Store.ext
  · change h'.arena = h.arena
    rw [Arena.ext_iff_size]
    intro b n
    rw [arena_size, arena_size]
    exact object_of_tables ht b n
  · funext b
    change (decide (b < L.blocks) && h'.tables.ftbGet b) = _
    rw [ht]
    rfl
  · rfl
  · rfl
  · rfl

/-! ## Room -/

/-- Free blocks are those in no object. -/
theorem fits_iff {h : Heap L} (hwf : h.WellFormed) {b n : Nat} :
    h.arena.Fits b n ↔ h.FreeRun b n := by
  constructor
  · intro hfits
    refine ⟨hfits.pos, hfits.le, ?_⟩
    intro c hbc hcn
    by_contra hne
    have hle := hfits.le
    -- a block in use would be in an object that lies across the place
    obtain ⟨a, m, ho, hac, hcm⟩ := hwf.tails.exists_object (show c < L.blocks by omega) hne
    have := hfits.apart a m (arena_size.mpr ho)
    omega
  · intro hrun
    exact ⟨hrun.pos, hrun.le, fun c m hc => (arena_size.mp hc).apart_run hrun⟩

theorem firstFit_iff {h : Heap L} (hwf : h.WellFormed) {b n : Nat} :
    h.arena.FirstFit b n ↔ h.FreeRun b n ∧ ∀ c, h.FreeRun c n → b ≤ c := by
  constructor
  · intro hfirst
    exact ⟨(fits_iff hwf).mp hfirst.fits, fun c hc => hfirst.least c ((fits_iff hwf).mpr hc)⟩
  · rintro ⟨hrun, hleast⟩
    exact ⟨(fits_iff hwf).mpr hrun, fun c hc => hleast c ((fits_iff hwf).mp hc)⟩

theorem full_iff {h : Heap L} (hwf : h.WellFormed) {n : Nat} : h.arena.Full n ↔ h.Full n :=
  forall_congr' fun _ => not_congr (fits_iff hwf)

/-- An object has room when its place and the blocks behind it are in no other object. -/
theorem room_iff {h : Heap L} (hwf : h.WellFormed) {b n m : Nat} (ho : h.Object b n) (hm : 0 < m) :
    (h.arena.drop b).Fits b m ↔ h.Room b n m := by
  constructor
  · intro hfits
    refine ⟨ho, hfits.le, ?_⟩
    intro c hc hcm
    by_contra hne
    have hle := hfits.le
    have hpos := ho.pos
    obtain ⟨a, k, ho', hac, hck⟩ := hwf.tails.exists_object (show c < L.blocks by omega) hne
    -- the block is in another object, since the one at `b` ends before it
    by_cases hab : a = b
    · subst hab
      have := ho'.unique ho
      omega
    · have := hfits.apart a k (Arena.drop_size.mpr ⟨arena_size.mpr ho', hab⟩)
      have := ho'.pos
      omega
  · intro hroom
    refine ⟨hm, hroom.le, ?_⟩
    intro c k hc
    obtain ⟨hc, hne⟩ := Arena.drop_size.mp hc
    have := hroom.outside (arena_size.mp hc) hne
    omega

/-! ## Liveness -/

theorem pointsTo_iff {h : Heap L} {hwf : h.WellFormed} {ptr b : Nat} :
    (h.abs hwf).PointsTo ptr b ↔ h.IsChild ptr b := by
  constructor
  · rintro ⟨rfl, n, hn⟩
    have ho := arena_size.mp hn
    exact ⟨L.verifyPtr_ptrFromBlock ho.lt, L.blockFromPtr_ptrFromBlock b, ho.head⟩
  · rintro ⟨hverify, rfl, hhead⟩
    -- every head is that of an object
    obtain ⟨n, ho⟩ := exists_object (L.blockFromPtr_lt hverify) hhead
    exact ⟨(L.ptrFromBlock_blockFromPtr hverify).symm, n, arena_size.mpr ho⟩

theorem abs_next (h : Heap L) (hwf : h.WellFormed) : (h.abs hwf).next = h.next := by
  funext a b
  apply propext
  constructor
  · rintro ⟨n, hn, i, hi, hpoints⟩
    refine ⟨n, arena_size.mp hn, h.words (a * wordsPerBlock + i), ?_, pointsTo_iff.mp hpoints⟩
    exact List.mem_map.mpr ⟨i, List.mem_range.mpr hi, rfl⟩
  · rintro ⟨n, ho, ptr, hptr, hchild⟩
    obtain ⟨i, hi, rfl⟩ := List.mem_map.mp hptr
    exact ⟨n, arena_size.mpr ho, i, List.mem_range.mp hi, pointsTo_iff.mpr hchild⟩

theorem abs_live (w : World) (h : Heap L) (hwf : h.WellFormed) :
    (h.abs hwf).live w = h.live w := by
  rw [Store.live, abs_next, live]
  congr 1
  ext b
  constructor
  · rintro ⟨ptr, hptr, hpoints⟩
    exact ⟨ptr, hptr, pointsTo_iff.mp hpoints⟩
  · rintro ⟨ptr, hptr, hchild⟩
    exact ⟨ptr, hptr, pointsTo_iff.mpr hchild⟩

/-! ## The calls refine those of the store -/

theorem arena_count {h : Heap L} (hwf : h.WellFormed) : h.arena.count = h.headCount := by
  rw [Arena.count, headCount]
  congr 1
  apply Finset.filter_congr
  intro b hb
  rw [Finset.mem_range] at hb
  rw [Option.isSome_iff_exists]
  constructor
  · rintro ⟨n, hn⟩
    exact hwf.head_of_shape hb (arena_size.mp hn).head
  · intro hhead
    obtain ⟨n, ho⟩ := exists_object hb (shape_eq_head.mpr (Or.inl hhead))
    exact ⟨n, arena_size.mpr ho⟩

theorem Collected.abs {w : World} {h h' : Heap L} (hwf : h.WellFormed) (hc : Collected w h h') :
    Store.Collects w (h.abs hwf) (h'.abs hc.wf) := by
  have harena : h'.arena = h.arena.keep ((h.abs hwf).live w) := by
    rw [Arena.ext_iff_size]
    intro b n
    rw [arena_size, hc.objects, Arena.keep_size, arena_size, abs_live]
  refine ⟨harena, ?_, ?_, ?_, ?_⟩
  · intro b
    rw [abs_live]
    by_cases hb : b < L.blocks
    · rw [abs_finaliser _ hb, abs_finaliser _ hb, hc.flags b hb, Bool.and_eq_true,
        Bool.not_eq_true', decide_eq_false_iff_not]
      constructor
      · rintro ⟨hflag, hstays⟩
        refine ⟨hflag, ?_⟩
        -- a flag that is still set is that of a head that has stayed
        by_contra hdead
        have hhead := hwf.flags b hb hflag
        refine hstays ⟨hhead, ?_⟩
        by_contra hne
        obtain ⟨n, ho⟩ := exists_object hb (shape_eq_head.mpr (Or.inl hhead))
        have hflag' : h'.tables.ftbGet b = true := by
          rw [hc.flags b hb, hflag, decide_eq_false (fun h => hne h.2)]
          rfl
        have hhead' := hc.wf.flags b hb hflag'
        obtain ⟨m, ho'⟩ := exists_object hb (shape_eq_head.mpr (Or.inl hhead'))
        exact hdead ((hc.objects b m).mp ho').2
      · rintro ⟨hflag, hlive⟩
        refine ⟨hflag, ?_⟩
        rintro ⟨hhead, hfree⟩
        obtain ⟨n, ho⟩ := exists_object hb (shape_eq_head.mpr (Or.inl hhead))
        have ho' := (hc.objects b n).mpr ⟨ho, hlive⟩
        exact ho'.not_free (Nat.le_refl b) (by have := ho.pos; omega) hfree
    · have hnone : ∀ {g : Heap L} {hg : g.WellFormed}, (g.abs hg).finaliser b = false := by
        intro g hg
        change (decide (b < L.blocks) && g.tables.ftbGet b) = false
        rw [decide_eq_false hb, Bool.false_and]
      rw [hnone, hnone]
      simp
  · obtain ⟨freed, hsorted, hmem, hwords⟩ := hc.words
    refine ⟨freed, hsorted, ?_, hwords⟩
    intro b
    rw [hmem, abs_live]
    constructor
    · rintro ⟨hb, -, hdead, hflag⟩
      rw [abs_finaliser _ hb]
      exact ⟨hflag, hdead⟩
    · rintro ⟨hflag, hdead⟩
      have hin : b < L.blocks ∧ h.tables.ftbGet b = true := by
        change (decide (b < L.blocks) && h.tables.ftbGet b) = true at hflag
        rw [Bool.and_eq_true, decide_eq_true_eq] at hflag
        exact hflag
      exact ⟨hin.1, hwf.flags b hin.1 hin.2, hdead, hin.2⟩
  · change h'.lockDepth = h.lockDepth % 65536
    rw [hc.frame]
  · change h'.autoCollectEnabled = h.autoCollectEnabled
    rw [hc.frame]

theorem Allocated.abs {h h' : Heap L} (hwf : h.WellFormed) {b n : Nat} {hasFinaliser : Bool}
    (ha : Allocated h h' b n hasFinaliser) (hleast : ∀ c, h.FreeRun c n → b ≤ c) :
    Store.Takes n hasFinaliser (h.abs hwf) (h'.abs ha.wf) b := by
  have hfirst : h.arena.FirstFit b n := (firstFit_iff hwf).mpr ⟨ha.run, hleast⟩
  have hb : b < L.blocks := by
    have := ha.run.pos
    have := ha.run.le
    omega
  refine ⟨hfirst, ?_, ?_, ha.words, ?_, ?_⟩
  · change h'.arena = h.arena.put b n hfirst.fits
    rw [Arena.ext_iff_size]
    intro c m
    rw [arena_size, ha.objects, Arena.put_size, arena_size]
    constructor
    · -- the objects there were, and the new one
      rintro (ho | heq)
      · exact Or.inr ⟨(ha.ne ho).symm, ho⟩
      · exact Or.inl heq
    · rintro (heq | ⟨-, ho⟩)
      · exact Or.inr heq
      · exact Or.inl ho
  · intro c
    refine abs_finaliser_eq (f := fun x => x || decide (c = b ∧ hasFinaliser = true)) c ?_
      (ha.flags c)
    by_cases hc : c < L.blocks
    · exact Or.inr hc
    · refine Or.inl ?_
      rw [decide_eq_false (fun h => hc (by omega))]
      rfl
  · change h'.lockDepth = h.lockDepth
    rw [ha.frame]
  · change h'.autoCollectEnabled = h.autoCollectEnabled
    rw [ha.frame]

theorem Freed.abs {h h' : Heap L} (hwf : h.WellFormed) {b n : Nat} (hf : Freed h h' b n) :
    Store.Drops (h.abs hwf) (h'.abs hf.wf) b := by
  refine ⟨⟨n, arena_size.mpr hf.object⟩, ?_, ?_, ?_, ?_, ?_⟩
  · change h'.arena = h.arena.drop b
    rw [Arena.ext_iff_size]
    intro c k
    rw [arena_size, hf.objects, Arena.drop_size, arena_size]
  · intro c
    exact abs_finaliser_eq (f := fun x => x && !decide (c = b)) c (Or.inl rfl) (hf.flags c)
  · change h'.words = h.words
    rw [hf.frame]
  · change h'.lockDepth = h.lockDepth
    rw [hf.frame]
  · change h'.autoCollectEnabled = h.autoCollectEnabled
    rw [hf.frame]

theorem Resized.abs {h h' : Heap L} (hwf : h.WellFormed) {b n m : Nat} (hr : Resized h h' b n m)
    (hroom : h.Room b n m) : Store.Resizes (h.abs hwf) (h'.abs hr.wf) b n m := by
  have hm : 0 < m := ((hr.objects b m).mpr (Or.inr ⟨rfl, rfl⟩)).pos
  have hfits : (h.arena.drop b).Fits b m := (room_iff hwf hr.object hm).mpr hroom
  refine ⟨arena_size.mpr hr.object, hfits, ?_, ?_, hr.words, ?_, ?_⟩
  · change h'.arena = (h.arena.drop b).put b m hfits
    rw [Arena.ext_iff_size]
    intro c k
    rw [arena_size, hr.objects, Arena.put_size, Arena.drop_size, arena_size]
    constructor
    · rintro (⟨hne, ho⟩ | heq)
      · exact Or.inr ⟨hne, ho, hne⟩
      · exact Or.inl heq
    · rintro (heq | ⟨hne, ho, -⟩)
      · exact Or.inr heq
      · exact Or.inl ⟨hne, ho⟩
  · funext c
    exact abs_finaliser_eq (f := fun x => x) c (Or.inl rfl) (hr.flags c)
  · change h'.lockDepth = h.lockDepth
    rw [hr.frame]
  · change h'.autoCollectEnabled = h.autoCollectEnabled
    rw [hr.frame]

theorem AllocatedOrFull.abs {h h' : Heap L} (hwf : h.WellFormed) {n ptr : Nat} {hasFinaliser : Bool}
    (hor : AllocatedOrFull h h' n ptr hasFinaliser) (hwf' : h'.WellFormed) :
    Store.TakesAt n hasFinaliser (h.abs hwf) (h'.abs hwf') ptr ∨
      Store.Refuses n (h.abs hwf) (h'.abs hwf') ptr := by
  rcases hor with ⟨b, hallocated, hleast, hptr⟩ | ⟨hfull, rfl, hnull⟩
  · exact Or.inl ⟨b, hallocated.abs hwf hleast, hptr⟩
  · exact Or.inr ⟨(full_iff hwf).mpr hfull, rfl, hnull⟩

theorem gcAlloc_refines {w w' : World} {h h' : Heap L} (hwf : h.WellFormed) {nBytes ptr : Nat}
    {hasFinaliser : Bool} (hsome : h.gcAlloc w w' nBytes hasFinaliser = some (h', ptr))
    (hwf' : h'.WellFormed) :
    Store.Allocs w w' nBytes hasFinaliser (h.abs hwf) (h'.abs hwf') ptr := by
  rcases gcAlloc_run hsome with ⟨hwhy, rfl, hnull⟩ | ⟨hpos, hlock, g, hthreshold, hfirst⟩
  · exact Or.inl ⟨hwhy, rfl, hnull⟩
  · have hg := thresholdCollect_wf hwf hthreshold
    -- `g` is the heap behind the collection that the threshold asks for
    refine Or.inr ⟨hpos, hlock, g.abs hg, ?_, ?_⟩
    · rcases thresholdCollect_run hthreshold with ⟨rfl, -⟩ | ⟨hcollect, hauto, -⟩
      · exact Or.inl rfl
      · exact Or.inr ⟨hauto, (gcCollect_run hwf hcollect).abs hwf⟩
    · rcases allocFirst_run hg hpos hfirst with
        ⟨b, hallocated, hleast, hptr⟩ | ⟨hfull, hauto, rfl, hnull⟩ |
          ⟨hfull, hauto, g', hcollect, hor⟩
      · exact Or.inl ⟨b, hallocated.abs hg hleast, hptr⟩
      · exact Or.inr (Or.inl ⟨hauto, (full_iff hg).mpr hfull, rfl, hnull⟩)
      · have hcollected := gcCollect_run hg hcollect
        exact Or.inr (Or.inr ⟨hauto, (full_iff hg).mpr hfull, _, hcollected.abs hg,
          hor.abs hcollected.wf hwf'⟩)

theorem gcFree_refines {h h' : Heap L} (hwf : h.WellFormed) {ptr : Nat}
    (hsome : h.gcFree ptr = some h') (hwf' : h'.WellFormed) :
    Store.Frees ptr (h.abs hwf) (h'.abs hwf') := by
  rcases gcFree_run hwf hsome with ⟨hwhy, rfl⟩ | ⟨hlock, b, n, hptr, hfreed⟩
  · exact Or.inl ⟨hwhy, rfl⟩
  · exact Or.inr ⟨hlock, b, hptr, hfreed.abs hwf⟩

theorem gcRealloc_refines {w w' : World} {h h' : Heap L} (hwf : h.WellFormed)
    {ptrIn nBytes ptr : Nat} {allowMove : Bool}
    (hsized : 0 < nBytes → 0 < bytesToBlocks L nBytes)
    (hsome : h.gcRealloc w w' ptrIn nBytes allowMove = some (h', ptr)) (hwf' : h'.WellFormed) :
    Store.Reallocs w w' ptrIn nBytes allowMove (h.abs hwf) (h'.abs hwf') ptr := by
  have hroom : ∀ {b n : Nat}, nBytes ≠ 0 → h.Object b n →
      ¬ h.Room b n (bytesToBlocks L nBytes) →
      ¬ (h.arena.drop b).Fits b (bytesToBlocks L nBytes) := by
    intro b n hne ho hno hfits
    exact hno ((room_iff hwf ho (hsized (by omega))).mp hfits)
  cases gcRealloc_run hwf hsized hsome with
  | fresh hnull halloc => exact .fresh hnull (gcAlloc_refines hwf halloc hwf')
  | freed hne hzero hfree => exact .freed hne hzero (gcFree_refines hwf hfree hwf')
  | locked hne hbytes hlock => exact .locked hne hbytes hlock
  | inPlace hptr hbytes hlock hroom hresized =>
      exact .inPlace hptr hbytes hlock (hresized.abs hwf hroom)
  | stuck hptr hbytes hlock ho hno hmove =>
      exact .stuck hptr hbytes hlock (arena_size.mpr ho) (hroom hbytes ho hno) hmove
  | @noRoom _ b _ hptr hbytes hlock ho hno hmove halloc =>
      have hallocs := gcAlloc_refines hwf halloc hwf'
      rw [← abs_finaliser hwf ho.lt] at hallocs
      exact .noRoom hptr hbytes hlock (arena_size.mpr ho) (hroom hbytes ho hno) hmove hallocs
  | @moved g _ b n _ hptr hbytes hlock ho hno hmove halloc hout hfree =>
      have hg := gcAlloc_wf hwf halloc
      have hallocs := gcAlloc_refines hwf halloc hg
      -- the new object gets the finaliser of the old one
      rw [← abs_finaliser hwf ho.lt] at hallocs
      rcases gcAlloc_behind hwf halloc with ⟨-, hnull⟩ | ⟨-, t, -, hor⟩
      · exact absurd hnull hout
      · rcases hor with ⟨c, -, -, rfl⟩ | ⟨-, -, hnull⟩
        · rw [L.blockFromPtr_ptrFromBlock] at hfree
          have hcopied : ({ g with words := copyBlocks g.words c b n } : Heap L).WellFormed :=
            hg.congr rfl rfl
          have hfrees := gcFree_refines hcopied hfree hwf'
          -- copying changes what the objects hold, and no object
          rw [abs_of_tables hg hcopied rfl] at hfrees
          exact .moved hptr hbytes hlock (arena_size.mpr ho) (hroom hbytes ho hno) hmove hallocs
            hfrees
        · exact absurd hnull hout

/-- Only the lock depth of the store changes with that of the heap. -/
theorem abs_lockDepth (h : Heap L) (depth : Nat) (hwf : h.WellFormed)
    (hwf' : ({ h with lockDepth := depth } : Heap L).WellFormed) :
    ({ h with lockDepth := depth } : Heap L).abs hwf' = { h.abs hwf with lockDepth := depth } :=
  abs_of_tables hwf hwf' rfl

/-- Each call of the collector is one of the store. -/
theorem step_refines {h h' : Heap L} {op : Op} {answers : List Nat} (hwf : h.WellFormed)
    (hsized : Sized L op) (hstep : step h op = some (h', answers)) :
    Store.Next (h.abs hwf) op answers (h'.abs (step_wf hwf hsized hstep)) := by
  have hwf' := step_wf hwf hsized hstep
  cases op with
  | alloc w w' nBytes hasFinaliser =>
      obtain ⟨r, halloc, heq⟩ := Option.map_eq_some_iff.mp hstep
      cases heq
      exact ⟨r.2, rfl, gcAlloc_refines hwf halloc hwf'⟩
  | free ptr =>
      obtain ⟨g, hfree, heq⟩ := Option.map_eq_some_iff.mp hstep
      cases heq
      exact ⟨rfl, gcFree_refines hwf hfree hwf'⟩
  | realloc w w' ptr nBytes allowMove =>
      obtain ⟨r, hrealloc, heq⟩ := Option.map_eq_some_iff.mp hstep
      cases heq
      exact ⟨r.2, rfl, gcRealloc_refines hwf hsized hrealloc hwf'⟩
  | collect w =>
      obtain ⟨g, hcollect, heq⟩ := Option.map_eq_some_iff.mp hstep
      cases heq
      have hcollected := gcCollect_run hwf hcollect
      refine ⟨h'.collected, rfl, hcollected.abs hwf, ?_⟩
      change h'.arena.count + h'.collected = h.arena.count
      rw [arena_count hwf', arena_count hwf]
      exact hcollected.count
  | lock =>
      cases hstep
      exact ⟨rfl, abs_of_tables hwf hwf' rfl⟩
  | unlock =>
      cases hstep
      exact ⟨rfl, abs_lockDepth h _ hwf hwf'⟩
  | setAuto enabled =>
      cases hstep
      exact ⟨rfl, abs_of_tables hwf hwf' rfl⟩
  | setThreshold threshold =>
      cases hstep
      exact ⟨rfl, abs_of_tables hwf hwf' rfl⟩
  | write i v =>
      cases hstep
      exact ⟨rfl, abs_of_tables hwf hwf' rfl⟩

/-- Each run of the collector is one of the store. -/
theorem run_refines_store {h h' : Heap L} (hwf : h.WellFormed) {ops : List Op} {answers : List Nat}
    (hsized : ∀ op ∈ ops, Sized L op) (hrun : run step h ops = some (h', answers)) :
    ∃ hwf' : h'.WellFormed, Trace Store.Next (h.abs hwf) ops answers (h'.abs hwf') := by
  have hguarded : Guarded step (fun _ op => Sized L op) h ops :=
    (guarded_iff_forall_mem ops hrun).mpr hsized
  -- a heap stands for its store, and each step keeps that
  have hsimulates : ∀ (g : Heap L) (s : Store L) (g' : Heap L) (op : Op) (answers : List Nat),
      (∃ hg : g.WellFormed, s = g.abs hg) → Sized L op → step g op = some (g', answers) →
      ∃ s', Store.Next s op answers s' ∧ ∃ hg' : g'.WellFormed, s' = g'.abs hg' := by
    rintro g _ g' op answers ⟨hg, rfl⟩ hop hstep
    exact ⟨_, step_refines hg hop hstep, step_wf hg hop hstep, rfl⟩
  obtain ⟨s', htrace, hwf', rfl⟩ := run_simulates
    (fun (h : Heap L) (s : Store L) => ∃ hwf : h.WellFormed, s = h.abs hwf) hsimulates ops
    ⟨hwf, rfl⟩ hguarded hrun
  exact ⟨hwf', htrace⟩

theorem abs_init (words : Nat → Nat) :
    (init L words).abs (init_wf L words) = Store.fresh L words := by
  have hkind : ∀ c, (init L words).kind c = .free := fun c => Tables.kind_clear c
  apply Store.ext
  · change (init L words).arena = Arena.empty L.blocks
    rw [Arena.ext_iff_size]
    intro b n
    rw [arena_size]
    constructor
    · -- a cleared table has free blocks only
      intro ho
      have hpos := ho.pos
      exact absurd (hkind b) (ho.not_free (Nat.le_refl b) (by omega))
    · intro hnone
      cases hnone
  · funext b
    change (decide (b < L.blocks) && (Tables.clear L).ftbGet b) = false
    rw [Tables.ftbGet_clear, Bool.and_false]
  · rfl
  · rfl
  · rfl

/-- Each run from the heap that `gc_init` sets up is one from the empty store. -/
theorem run_from_init {words : Nat → Nat} {h' : Heap L} {ops : List Op} {answers : List Nat}
    (hsized : ∀ op ∈ ops, Sized L op) (hrun : run step (init L words) ops = some (h', answers)) :
    ∃ hwf' : h'.WellFormed, Trace Store.Next (Store.fresh L words) ops answers (h'.abs hwf') := by
  rw [← abs_init]
  exact run_refines_store (init_wf L words) hsized hrun

/-- An object of two blocks is allocated, and grows to three where it is. -/
theorem run_from_init_four : ∃ h', run step (init Layout.four fun _ => 0)
      [.alloc (.quiet []) (.quiet []) 40 true, .realloc (.quiet []) (.quiet []) 4224 96 true] =
        some (h', [4224, 4224]) ∧
    ∃ hwf' : h'.WellFormed, Trace Store.Next (Store.fresh Layout.four fun _ => 0)
      [.alloc (.quiet []) (.quiet []) 40 true, .realloc (.quiet []) (.quiet []) 4224 96 true]
      [4224, 4224] (h'.abs hwf') := by
  have hrun : ∃ h', run step (init Layout.four fun _ => 0)
      [.alloc (.quiet []) (.quiet []) 40 true, .realloc (.quiet []) (.quiet []) 4224 96 true] =
        some (h', [4224, 4224]) := ⟨_, rfl⟩
  obtain ⟨h', hrun⟩ := hrun
  have hsized : ∀ op ∈ [Op.alloc (.quiet []) (.quiet []) 40 true,
      Op.realloc (.quiet []) (.quiet []) 4224 96 true], Sized Layout.four op := by
    intro op hop
    rw [List.mem_cons, List.mem_singleton] at hop
    rcases hop with rfl | rfl
    · exact trivial
    · exact fun _ => by decide
  exact ⟨h', hrun, run_from_init hsized hrun⟩

end Heap

end EfiLvgl.Gc
