import EfiLvgl.Gc.Free

/-!
# EfiLvgl.Gc.Realloc — `gc_realloc`

`gc_realloc` counts the blocks of the chain and the free ones behind it in one loop
(`countBlocks_spec`), which it leaves as soon as there are enough. A chain that cannot stay where
it is goes to a new place, if it may. `gcRealloc_run` gives the ways through the function;
what becomes of the words is said in `EfiLvgl.Gc.Keep`.
-/

namespace EfiLvgl.Gc.Heap

open EfiLvgl.Reach

variable {L : Layout}

/-! ## Counting -/

/-- The part of the loop over the chain itself. -/
theorem countBlocks_tails {h : Heap L} {b n new : Nat} (ho : h.Object b n) (k : Nat) {j : Nat}
    (hj : 0 < j) (hjk : j + k = n) :
    countBlocks h.tables new (List.range' (b + j) (L.blocks - (b + j))) j 0 =
      countBlocks h.tables new (List.range' (b + n) (L.blocks - (b + n))) n 0 := by
  induction k generalizing j with
  | zero => rw [show j = n by omega]
  | succ k ih =>
      have hle := ho.le
      obtain ⟨m, hm⟩ : ∃ m, L.blocks - (b + j) = m + 1 := ⟨L.blocks - (b + j) - 1, by omega⟩
      have htail : h.tables.kind (b + j) = .tail := ho.tails (b + j) (by omega) (by omega)
      rw [hm, List.range'_succ, countBlocks, htail]
      dsimp only
      rw [← ih (j := j + 1) (by omega) (by omega), show b + (j + 1) = b + j + 1 by omega,
        show L.blocks - (b + j + 1) = m by omega]

/-- What the loop has counted. -/
structure Counted (h : Heap L) (b n new f : Nat) : Prop where
  le : b + n + f ≤ L.blocks
  free : ∀ c, b + n ≤ c → c < b + n + f → h.kind c = .free
  stop : new ≤ n + f ∨ b + n + f = L.blocks ∨ h.kind (b + n + f) ≠ .free

/-- The part of the loop over the free blocks behind the chain. -/
theorem countBlocks_free {h : Heap L} (ht : h.TailsBehind) {b n new : Nat} (ho : h.Object b n)
    (k : Nat) {f : Nat} (hk : b + n + f + k = L.blocks)
    (hfree : ∀ c, b + n ≤ c → c < b + n + f → h.kind c = .free) :
    ∃ f', countBlocks h.tables new (List.range' (b + n + f) k) n f = (n, f') ∧
      h.Counted b n new f' := by
  induction k generalizing f with
  | zero => exact ⟨f, rfl, by omega, hfree, Or.inr (Or.inl hk)⟩
  | succ k ih =>
      have hstop : h.kind (b + n + f) ≠ .free → h.Counted b n new f :=
        fun hne => ⟨by omega, hfree, Or.inr (Or.inr hne)⟩
      rw [List.range'_succ, countBlocks]
      cases hcase : h.tables.kind (b + n + f) with
      | free =>
          have hfree' : ∀ c, b + n ≤ c → c < b + n + (f + 1) → h.kind c = .free := by
            intro c hc hcf
            by_cases hlast : c = b + n + f
            · rw [hlast]
              exact hcase
            · exact hfree c hc (by omega)
          dsimp only
          by_cases henough : new ≤ n + (f + 1)
          · rw [if_pos henough]
            exact ⟨f + 1, rfl, by omega, hfree', Or.inl henough⟩
          · rw [if_neg henough]
            exact ih (f := f + 1) (by omega) hfree'
      | head =>
          refine ⟨f, rfl, hstop ?_⟩
          rw [Heap.kind, hcase]
          exact Kind.noConfusion
      | mark =>
          refine ⟨f, rfl, hstop ?_⟩
          rw [Heap.kind, hcase]
          exact Kind.noConfusion
      | tail =>
          -- behind the chain and behind free blocks there is no tail block
          exfalso
          obtain ⟨a, ha, hne⟩ := ht _ (show b + n + f < L.blocks by omega) hcase
          by_cases hzero : f = 0
          · subst hzero
            exact ho.last (by omega) hcase
          · exact hne (hfree a (by omega) (by omega))

theorem countBlocks_spec {h : Heap L} (ht : h.TailsBehind) {b n : Nat} (ho : h.Object b n)
    (new : Nat) :
    ∃ f, countBlocks h.tables new (List.range' (b + 1) (L.blocks - (b + 1))) 1 0 = (n, f) ∧
      h.Counted b n new f := by
  have hpos := ho.pos
  have hle := ho.le
  rw [countBlocks_tails ho (n - 1) Nat.one_pos (by omega)]
  exact countBlocks_free ht ho (L.blocks - (b + n)) (f := 0) (by omega)
    fun c hc hcn => absurd hcn (by omega)

/-! ## In place -/

/-- What happens to a chain that stays in its place. -/
structure Resized (h h' : Heap L) (b n m : Nat) : Prop where
  object : h.Object b n
  wf : h'.WellFormed
  objects : ∀ c k, h'.Object c k ↔ c ≠ b ∧ h.Object c k ∨ c = b ∧ k = m
  flags : ∀ c, c < L.blocks → h'.tables.ftbGet c = h.tables.ftbGet c
  words : h'.words = zeroBlocks h.words (b + n) (m - n)
  frame : h' = { h with
    tables := h'.tables
    words := h'.words
    lastFreeAtbIndex := h'.lastFreeAtbIndex }

theorem zeroBlocks_zero (words : Nat → Nat) (b : Nat) : zeroBlocks words b 0 = words := by
  funext i
  rw [zeroBlocks, if_neg (by rw [Nat.add_zero]; omega)]

/-- A chain is cut, or it grows into the free blocks behind it. -/
theorem reallocInPlace_some {h : Heap L} (hwf : h.WellFormed) {b n m : Nat} (hm : 0 < m)
    (hroom : h.Room b n m) : ∃ h', h.reallocInPlace b n m = some h' ∧ Resized h h' b n m := by
  have ho := hroom.object
  have hle := ho.le
  have hmle := hroom.le
  have hobjects : ∀ {g : Heap L}, (∀ c, c < L.blocks → g.kind c = h.resizedKind b n m c) →
      ∀ c k, g.Object c k ↔ c ≠ b ∧ h.Object c k ∨ c = b ∧ k = m := by
    intro g hkind c k
    rw [object_resized hwf.tails hroom hkind]
    simp only [hm, and_true]
  rw [reallocInPlace]
  rcases Nat.lt_trichotomy m n with hlt | heq | hgt
  · -- shorter: the blocks at the end are freed
    rw [if_neg (by omega), if_pos hlt]
    refine ⟨_, rfl, ?_⟩
    set g : Heap L := { h with
      tables := anyToFrees h.tables (List.range' (b + m) (n - m))
      lastFreeAtbIndex := h.lowerLastFree (b + m) } with hg
    have hkind : ∀ c, c < L.blocks → g.kind c = h.resizedKind b n m c := by
      intro c _
      rw [resizedKind]
      refine (kind_anyToFrees (n - m) (by omega) c).trans ?_
      by_cases hin : b + m ≤ c ∧ c < b + n
      · rw [if_pos (by omega), if_pos hin]
      · rw [if_neg (by omega), if_neg hin, if_neg (by omega)]
        rfl
    have hflags : ∀ c, g.tables.ftbGet c = h.tables.ftbGet c := by
      intro c
      apply ftbGet_anyToFrees
      intro d hd
      rw [List.mem_range'_1] at hd
      omega
    refine ⟨ho, ?_, hobjects hkind, fun c _ => hflags c, ?_, rfl⟩
    · refine wellFormed_resized hwf hroom hkind ?_ (Or.inr rfl)
      intro c _ hflag
      rw [hflags] at hflag
      exact ⟨hflag, fun _ => hm⟩
    · rw [show m - n = 0 by omega, zeroBlocks_zero]
  · -- as long as before
    subst heq
    rw [if_pos rfl]
    refine ⟨h, rfl, ho, hwf, hobjects ?_, fun _ _ => rfl, ?_, rfl⟩
    · intro c _
      rw [resizedKind, if_neg (by omega), if_neg (by omega)]
    · rw [Nat.sub_self, zeroBlocks_zero]
  · -- longer: the blocks behind the chain are free
    have hall : (List.range' (b + n) (m - n)).all (h.kind · == .free) = true := by
      rw [List.all_eq_true]
      intro c hc
      rw [List.mem_range'_1] at hc
      rw [hroom.free c (by omega) (by omega)]
      rfl
    rw [if_neg (by omega), if_neg (by omega), if_pos hall]
    refine ⟨_, rfl, ?_⟩
    set g : Heap L := { h with
      tables := freeToTails h.tables (List.range' (b + n) (m - n))
      words := zeroBlocks h.words (b + n) (m - n) } with hg
    have hkind : ∀ c, c < L.blocks → g.kind c = h.resizedKind b n m c := by
      intro c _
      rw [resizedKind, if_neg (by omega)]
      refine (kind_freeToTails (m - n) (by omega) ?_ c).trans ?_
      · intro d hd hdm
        exact hroom.free d hd (by omega)
      · by_cases hin : b + n ≤ c ∧ c < b + m
        · rw [if_pos (by omega), if_pos hin]
        · rw [if_neg (by omega), if_neg hin]
          rfl
    have hflags : ∀ c, g.tables.ftbGet c = h.tables.ftbGet c := by
      intro c
      apply ftbGet_freeToTails
      intro d hd
      rw [List.mem_range'_1] at hd
      omega
    refine ⟨ho, ?_, hobjects hkind, fun c _ => hflags c, rfl, rfl⟩
    refine wellFormed_resized hwf hroom hkind ?_ (Or.inl ⟨rfl, Nat.le_of_lt hgt⟩)
    intro c _ hflag
    rw [hflags] at hflag
    exact ⟨hflag, fun _ => hm⟩

/-! ## The ways of `gc_realloc` -/

/-- What `gc_realloc` comes to. -/
inductive Reallocated (w w' : World) (h : Heap L) (ptrIn nBytes : Nat) (allowMove : Bool) :
    Heap L → Nat → Prop where
  /-- `NULL` is allocated. -/
  | fresh {h' : Heap L} {ptr : Nat} : ptrIn = 0 → h.gcAlloc w w' nBytes false = some (h', ptr) →
      Reallocated w w' h ptrIn nBytes allowMove h' ptr
  /-- No bytes are asked for. -/
  | freed {h' : Heap L} : ptrIn ≠ 0 → nBytes = 0 → h.gcFree ptrIn = some h' →
      Reallocated w w' h ptrIn nBytes allowMove h' 0
  | locked : ptrIn ≠ 0 → nBytes ≠ 0 → 0 < h.lockDepth →
      Reallocated w w' h ptrIn nBytes allowMove h 0
  | inPlace {h' : Heap L} {b n : Nat} : ptrIn = L.ptrFromBlock b → nBytes ≠ 0 → h.lockDepth = 0 →
      h.Room b n (bytesToBlocks L nBytes) → Resized h h' b n (bytesToBlocks L nBytes) →
      Reallocated w w' h ptrIn nBytes allowMove h' ptrIn
  /-- The chain cannot grow and may not move. -/
  | stuck {b n : Nat} : ptrIn = L.ptrFromBlock b → nBytes ≠ 0 → h.lockDepth = 0 → h.Object b n →
      ¬ h.Room b n (bytesToBlocks L nBytes) → allowMove = false →
      Reallocated w w' h ptrIn nBytes allowMove h 0
  /-- There is no new chain. -/
  | noRoom {h' : Heap L} {b n : Nat} : ptrIn = L.ptrFromBlock b → nBytes ≠ 0 → h.lockDepth = 0 →
      h.Object b n → ¬ h.Room b n (bytesToBlocks L nBytes) → allowMove = true →
      h.gcAlloc w w' nBytes (h.tables.ftbGet b) = some (h', 0) →
      Reallocated w w' h ptrIn nBytes allowMove h' 0
  | moved {g h' : Heap L} {b n ptrOut : Nat} : ptrIn = L.ptrFromBlock b → nBytes ≠ 0 →
      h.lockDepth = 0 → h.Object b n → ¬ h.Room b n (bytesToBlocks L nBytes) → allowMove = true →
      h.gcAlloc w w' nBytes (h.tables.ftbGet b) = some (g, ptrOut) → ptrOut ≠ 0 →
      ({ g with words := copyBlocks g.words (L.blockFromPtr ptrOut) b n } : Heap L).gcFree ptrIn =
        some h' →
      Reallocated w w' h ptrIn nBytes allowMove h' ptrOut

/-- What the loop did not find is not there. -/
theorem Counted.not_room {h : Heap L} {b n new f : Nat} (hc : Counted h b n new f)
    (hlt : n + f < new) : ¬ h.Room b n new := by
  intro hroom
  have hle := hroom.le
  rcases hc.stop with henough | hend | hne
  · omega
  · omega
  · exact hne (hroom.free _ (by omega) (by omega))

theorem gcRealloc_run {w w' : World} {h h' : Heap L} (hwf : h.WellFormed)
    {ptrIn nBytes ptr : Nat} {allowMove : Bool}
    (hblocks : 0 < nBytes → 0 < bytesToBlocks L nBytes)
    (hsome : h.gcRealloc w w' ptrIn nBytes allowMove = some (h', ptr)) :
    Reallocated w w' h ptrIn nBytes allowMove h' ptr := by
  rw [gcRealloc] at hsome
  by_cases hnull : ptrIn = 0
  · rw [if_pos hnull] at hsome
    exact .fresh hnull hsome
  rw [if_neg hnull] at hsome
  by_cases hzero : nBytes = 0
  · rw [if_pos hzero, Option.map_eq_some_iff] at hsome
    obtain ⟨g, hfree, heq⟩ := hsome
    cases heq
    exact .freed hnull hzero hfree
  rw [if_neg hzero] at hsome
  by_cases hlock : 0 < h.lockDepth
  · rw [if_pos hlock] at hsome
    cases hsome
    exact .locked hnull hzero hlock
  rw [if_neg hlock] at hsome
  by_cases hvalid : L.verifyPtr ptrIn = true ∧ h.kind (L.blockFromPtr ptrIn) = .head
  · rw [if_pos hvalid] at hsome
    obtain ⟨b, hb, rfl⟩ := (L.verifyPtr_iff ptrIn).mp hvalid.1
    rw [L.blockFromPtr_ptrFromBlock] at hvalid hsome
    have hm := hblocks (by omega)
    obtain ⟨n, ho⟩ := exists_object hb (shape_eq_head.mpr (Or.inl hvalid.2))
    obtain ⟨f, hcount, hcounted⟩ := countBlocks_spec hwf.tails ho (bytesToBlocks L nBytes)
    dsimp only at hsome
    rw [hcount] at hsome
    dsimp only at hsome
    have hflen := hcounted.le
    -- in place if the free blocks that were counted are enough
    by_cases hfits : bytesToBlocks L nBytes ≤ n + f
    · rw [if_pos hfits] at hsome
      have hroom : h.Room b n (bytesToBlocks L nBytes) :=
        ⟨ho, by omega, fun c hc hcm => hcounted.free c hc (by omega)⟩
      obtain ⟨g, hplace, hresized⟩ := reallocInPlace_some hwf hm hroom
      rw [hplace] at hsome
      cases hsome
      exact .inPlace rfl hzero (by omega) hroom hresized
    · rw [if_neg hfits] at hsome
      have hno := hcounted.not_room (by omega)
      have hdepth : h.lockDepth = 0 := by omega
      cases hmove : allowMove with
      | false =>
          rw [hmove, if_neg Bool.false_ne_true] at hsome
          cases hsome
          exact .stuck rfl hzero hdepth ho hno rfl
      | true =>
          rw [hmove, if_pos rfl, reallocMove, L.blockFromPtr_ptrFromBlock,
            Option.bind_eq_some_iff] at hsome
          obtain ⟨⟨g, ptrOut⟩, halloc, hrest⟩ := hsome
          dsimp only at hrest
          -- the new chain may be refused; then the old one stays
          by_cases hout : ptrOut = 0
          · rw [if_pos hout] at hrest
            cases hrest
            rw [hout] at halloc
            exact .noRoom rfl hzero hdepth ho hno rfl halloc
          · rw [if_neg hout, Option.map_eq_some_iff] at hrest
            obtain ⟨g', hfree, heq⟩ := hrest
            cases heq
            exact .moved rfl hzero hdepth ho hno rfl halloc hout hfree
  · rw [if_neg hvalid] at hsome
    cases hsome

end EfiLvgl.Gc.Heap
