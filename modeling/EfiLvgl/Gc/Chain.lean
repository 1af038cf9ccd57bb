import EfiLvgl.Gc.Model

/-!
# EfiLvgl.Gc.Chain — chains of blocks

A chain is a head (marked or not) and the tail blocks behind it. `chainBlocks_eq_some` says what
the walk along a chain counts, and `chainBlocks_eq_none` when it leaves the table: the last
block is in the chain, and the first bits of the finaliser table, which lie behind the kinds, read
as a tail block (`kind_blocks_eq_tail`).

`WellFormed` is what holds between two operations of the collector; `objects` is the table seen
from outside, the length of the chain at each head.
-/

namespace EfiLvgl.Gc

/-- A marked head is a head. -/
def Kind.unmark : Kind → Kind
  | .mark => .head
  | k => k

namespace Heap

variable {L : Layout}

/-- The kind of a block, whether it is marked or not. -/
def shape (h : Heap L) (block : Nat) : Kind := (h.kind block).unmark

theorem shape_eq_tail {h : Heap L} {b : Nat} : h.shape b = .tail ↔ h.kind b = .tail := by
  rw [shape]
  cases h.kind b <;> simp [Kind.unmark]

theorem shape_eq_free {h : Heap L} {b : Nat} : h.shape b = .free ↔ h.kind b = .free := by
  rw [shape]
  cases h.kind b <;> simp [Kind.unmark]

theorem shape_eq_head {h : Heap L} {b : Nat} :
    h.shape b = .head ↔ h.kind b = .head ∨ h.kind b = .mark := by
  rw [shape]
  cases h.kind b <;> simp [Kind.unmark]

/-! ## Counting -/

theorem countTail_eq_some {h : Heap L} {b fuel n m : Nat} :
    h.countTail b fuel n = some m ↔
      n ≤ m ∧ m < n + fuel ∧ (∀ i, n ≤ i → i < m → h.kind (b + i) = .tail) ∧
        h.kind (b + m) ≠ .tail := by
  induction fuel generalizing n with
  | zero =>
      constructor
      · intro hsome
        cases hsome
      · rintro ⟨hle, hlt, -, -⟩
        omega
  | succ fuel ih =>
      rw [countTail]
      by_cases htail : h.kind (b + n) = .tail
      · rw [if_pos htail, ih]
        constructor
        · rintro ⟨hle, hlt, hall, hend⟩
          refine ⟨by omega, by omega, ?_, hend⟩
          intro i hi him
          by_cases hin : i = n
          · rw [hin]
            exact htail
          · exact hall i (by omega) him
        · rintro ⟨hle, hlt, hall, hend⟩
          have hne : n ≠ m := by
            rintro rfl
            exact hend htail
          exact ⟨by omega, by omega, fun i hi him => hall i (by omega) him, hend⟩
      · rw [if_neg htail, Option.some.injEq]
        constructor
        · -- the walk stops here
          rintro rfl
          exact ⟨Nat.le_refl _, by omega, fun i hi him => absurd him (by omega), htail⟩
        · rintro ⟨hle, -, hall, -⟩
          by_contra hne
          exact htail (hall n (Nat.le_refl n) (by omega))

/-- What the walk counts: the head and the tail blocks up to the first block that is none. -/
theorem chainBlocks_eq_some {h : Heap L} {b n : Nat} (hb : b < L.blocks) :
    h.chainBlocks b = some n ↔
      0 < n ∧ b + n ≤ L.blocks ∧ (∀ c, b < c → c < b + n → h.kind c = .tail) ∧
        h.kind (b + n) ≠ .tail := by
  rw [chainBlocks, countTail_eq_some]
  constructor
  · rintro ⟨hle, hlt, hall, hend⟩
    refine ⟨by omega, by omega, ?_, hend⟩
    intro c hbc hcn
    have htail := hall (c - b) (by omega) (by omega)
    rwa [show b + (c - b) = c by omega] at htail
  · rintro ⟨hpos, hle, hall, hend⟩
    exact ⟨by omega, by omega, fun i hi hin => hall (b + i) (by omega) (by omega), hend⟩

/-- The walk leaves the table when all blocks behind the head are tail blocks, and so is what is
read behind the last one. -/
theorem chainBlocks_eq_none {h : Heap L} {b : Nat} (hb : b < L.blocks) :
    h.chainBlocks b = none ↔ ∀ c, b < c → c ≤ L.blocks → h.kind c = .tail := by
  constructor
  · intro hnone
    by_contra hex
    push Not at hex
    -- the first block behind the head that is no tail block ends the chain
    obtain ⟨c, ⟨hbc, hle, hend⟩, hleast⟩ :
        ∃ c, (b < c ∧ c ≤ L.blocks ∧ h.kind c ≠ .tail) ∧
          ∀ d, d < c → ¬ (b < d ∧ d ≤ L.blocks ∧ h.kind d ≠ .tail) :=
      ⟨Nat.find hex, Nat.find_spec hex, fun d hd => Nat.find_min hex hd⟩
    have hsome : h.chainBlocks b = some (c - b) := by
      rw [chainBlocks_eq_some hb]
      refine ⟨by omega, by omega, ?_, ?_⟩
      · intro d hbd hdc
        by_contra htail
        exact hleast d (by omega) ⟨hbd, by omega, htail⟩
      · rwa [show b + (c - b) = c by omega]
    rw [hnone] at hsome
    cases hsome
  · intro hall
    cases hsome : h.chainBlocks b with
    | none => rfl
    | some n =>
        obtain ⟨hpos, hle, -, hend⟩ := (chainBlocks_eq_some hb).mp hsome
        exact absurd (hall (b + n) (by omega) hle) hend

/-- Two heaps with the same tail blocks have the same chains. -/
theorem chainBlocks_congr {h h' : Heap L} (htail : ∀ c, h'.kind c = .tail ↔ h.kind c = .tail)
    (b : Nat) : h'.chainBlocks b = h.chainBlocks b := by
  have hcount : ∀ fuel n, h'.countTail b fuel n = h.countTail b fuel n := by
    intro fuel
    induction fuel with
    | zero =>
        intro n
        rfl
    | succ fuel ih =>
        intro n
        rw [countTail, countTail, ih, if_congr (htail _) rfl rfl]
  exact hcount _ _

/-- What `ATB_GET_KIND` reads behind the last block: the flags of the first two blocks. -/
theorem kind_blocks_eq_tail (t : Tables L) :
    t.kind L.blocks = .tail ↔ t.ftbGet 0 = false ∧ t.ftbGet 1 = true := by
  have hbyte : ∀ a : BitVec 8, Kind.ofBits ((a >>> 0) &&& 3) = .tail ↔
      ((a >>> 0) &&& 1 == 1) = false ∧ ((a >>> 1) &&& 1 == 1) = true := by
    decide +kernel
  have hdiv : L.blocks / blocksPerAtb = L.allocTableByteLen := Nat.mul_div_cancel _ (by decide)
  have hmod : L.blocks % blocksPerAtb = 0 := Nat.mul_mod_left _ _
  rw [Tables.kind, hdiv, Tables.blockShift, hmod]
  exact hbyte _

/-! ## Objects -/

/-- A head with the tail blocks behind it, up to the first block that is none or the end of the
table. -/
structure Object (h : Heap L) (b n : Nat) : Prop where
  head : h.shape b = .head
  pos : 0 < n
  le : b + n ≤ L.blocks
  tails : ∀ c, b < c → c < b + n → h.kind c = .tail
  last : b + n < L.blocks → h.kind (b + n) ≠ .tail

theorem shape_ne_tail_of_head {h : Heap L} {b : Nat} (hb : h.shape b = .head) :
    h.kind b ≠ .tail := by
  intro htail
  rw [shape_eq_tail.mpr htail] at hb
  cases hb

namespace Object

variable {h : Heap L} {b c m n : Nat}

theorem lt (ho : h.Object b n) : b < L.blocks := by
  have hpos := ho.pos
  have hle := ho.le
  omega

theorem len_le_of (ho : h.Object b n) (ho' : h.Object b m) : n ≤ m := by
  by_contra hlt
  have hle := ho.le
  exact ho'.last (by omega) (ho.tails (b + m) (by have := ho'.pos; omega) (by omega))

theorem unique (ho : h.Object b n) (ho' : h.Object b m) : n = m :=
  Nat.le_antisymm (ho.len_le_of ho') (ho'.len_le_of ho)

/-- An object ends before the next one begins. -/
theorem le_of_lt (ho : h.Object b n) (ho' : h.Object c m) (hbc : b < c) : b + n ≤ c := by
  by_contra hlt
  exact shape_ne_tail_of_head ho'.head (ho.tails c hbc (by omega))

theorem apart (ho : h.Object b n) (ho' : h.Object c m) (hne : b ≠ c) : b + n ≤ c ∨ c + m ≤ b := by
  rcases Nat.lt_or_gt_of_ne hne with hlt | hgt
  · exact Or.inl (ho.le_of_lt ho' hlt)
  · exact Or.inr (ho'.le_of_lt ho hgt)

theorem not_free (ho : h.Object b n) (hbc : b ≤ c) (hcn : c < b + n) : h.kind c ≠ .free := by
  intro hfree
  rcases Nat.eq_or_lt_of_le hbc with rfl | hlt
  · have hhead := ho.head
    rw [shape_eq_free.mpr hfree] at hhead
    cases hhead
  · rw [ho.tails c hlt hcn] at hfree
    cases hfree

end Object

/-- Heaps that differ in marks only have the same objects. -/
theorem object_congr {h h' : Heap L} (hshape : ∀ b, h'.shape b = h.shape b) (b n : Nat) :
    h'.Object b n ↔ h.Object b n := by
  have htail : ∀ c, h'.kind c = .tail ↔ h.kind c = .tail := by
    intro c
    rw [← shape_eq_tail, ← shape_eq_tail, hshape]
  constructor
  · intro ho
    exact ⟨hshape b ▸ ho.head, ho.pos, ho.le, fun c hbc hcn => (htail c).mp (ho.tails c hbc hcn),
      fun hlt h => ho.last hlt ((htail _).mpr h)⟩
  · intro ho
    exact ⟨(hshape b).trans ho.head, ho.pos, ho.le,
      fun c hbc hcn => (htail c).mpr (ho.tails c hbc hcn),
      fun hlt h => ho.last hlt ((htail _).mp h)⟩

/-- What the walk counts is the length of the object, if it does not leave the table. -/
theorem object_of_chainBlocks {h : Heap L} {b n : Nat} (hb : b < L.blocks)
    (hhead : h.shape b = .head) (hn : h.chainBlocks b = some n) : h.Object b n := by
  obtain ⟨hpos, hle, hall, hend⟩ := (chainBlocks_eq_some hb).mp hn
  exact ⟨hhead, hpos, hle, hall, fun _ => hend⟩

theorem Object.chainBlocks {h : Heap L} {b n : Nat} (ho : h.Object b n)
    (hedge : b + n = L.blocks → h.kind L.blocks ≠ .tail) : h.chainBlocks b = some n := by
  rw [chainBlocks_eq_some ho.lt]
  refine ⟨ho.pos, ho.le, ho.tails, ?_⟩
  rcases Nat.eq_or_lt_of_le ho.le with heq | hlt
  · rw [heq]
    exact hedge heq
  · exact ho.last hlt

/-- Each head is the head of an object. -/
theorem exists_object {h : Heap L} {b : Nat} (hb : b < L.blocks) (hhead : h.shape b = .head) :
    ∃ n, h.Object b n := by
  have hex : ∃ n, 0 < n ∧ (b + n = L.blocks ∨ h.kind (b + n) ≠ .tail) :=
    ⟨L.blocks - b, by omega, Or.inl (by omega)⟩
  -- the first place where the chain ends, at the end of the table at the latest
  obtain ⟨n, ⟨hpos, hend⟩, hleast⟩ :
      ∃ n, (0 < n ∧ (b + n = L.blocks ∨ h.kind (b + n) ≠ .tail)) ∧
        ∀ m, m < n → ¬ (0 < m ∧ (b + m = L.blocks ∨ h.kind (b + m) ≠ .tail)) :=
    ⟨Nat.find hex, Nat.find_spec hex, fun m hm => Nat.find_min hex hm⟩
  have hle : b + n ≤ L.blocks := by
    by_contra hgt
    exact hleast (L.blocks - b) (by omega) ⟨by omega, Or.inl (by omega)⟩
  refine ⟨n, hhead, hpos, hle, ?_, ?_⟩
  · intro c hbc hcn
    by_contra htail
    refine hleast (c - b) (by omega) ⟨by omega, Or.inr ?_⟩
    rwa [show b + (c - b) = c by omega]
  · intro hlt
    rcases hend with heq | hne
    · omega
    · exact hne

/-- Tail blocks are behind a head or another tail block. -/
def TailsBehind (h : Heap L) : Prop :=
  ∀ b, b < L.blocks → h.kind b = .tail → ∃ a, b = a + 1 ∧ h.kind a ≠ .free

/-- Each block that is not free is in an object. -/
theorem TailsBehind.exists_object {h : Heap L} (ht : h.TailsBehind) {c : Nat} (hc : c < L.blocks)
    (hne : h.kind c ≠ .free) : ∃ b n, h.Object b n ∧ b ≤ c ∧ c < b + n := by
  induction c with
  | zero =>
      have hhead : h.shape 0 = .head := by
        cases hk : h.kind 0 with
        | free => exact absurd hk hne
        | head => exact shape_eq_head.mpr (Or.inl hk)
        | mark => exact shape_eq_head.mpr (Or.inr hk)
        | tail =>
            obtain ⟨a, ha, -⟩ := ht 0 hc hk
            omega
      obtain ⟨n, ho⟩ := Heap.exists_object hc hhead
      exact ⟨0, n, ho, Nat.le_refl 0, by have := ho.pos; omega⟩
  | succ c ih =>
      by_cases htail : h.kind (c + 1) = .tail
      · -- a tail block is in the object of the block before it
        obtain ⟨a, ha, hnfree⟩ := ht (c + 1) hc htail
        obtain rfl : c = a := by omega
        obtain ⟨b, n, ho, hbc, hcn⟩ := ih (by omega) hnfree
        refine ⟨b, n, ho, by omega, ?_⟩
        by_contra hge
        have heq : b + n = c + 1 := by omega
        exact ho.last (by omega) (by rwa [heq])
      · have hhead : h.shape (c + 1) = .head := by
          cases hk : h.kind (c + 1) with
          | free => exact absurd hk hne
          | head => exact shape_eq_head.mpr (Or.inl hk)
          | mark => exact shape_eq_head.mpr (Or.inr hk)
          | tail => exact absurd hk htail
        obtain ⟨n, ho⟩ := Heap.exists_object hc hhead
        exact ⟨c + 1, n, ho, Nat.le_refl _, by have := ho.pos; omega⟩

/-! ## The heap between two operations -/

/-- What holds between two operations: no block is marked, tail blocks are behind others in
use, only heads are flagged for a finaliser, and there is no free block before the byte at which
`gc_alloc` begins. -/
structure WellFormed (h : Heap L) : Prop where
  unmarked : ∀ b, b < L.blocks → h.kind b ≠ .mark
  tails : h.TailsBehind
  flags : ∀ b, b < L.blocks → h.tables.ftbGet b = true → h.kind b = .head
  lastFree : ∀ b, b < h.lastFreeAtbIndex * blocksPerAtb → b < L.blocks → h.kind b ≠ .free

/-- `gc_nbytes` of an object, when the walk along it does not leave the table. -/
theorem gcNbytes_object {h : Heap L} (hwf : h.WellFormed) {b n : Nat} (ho : h.Object b n)
    (hedge : b + n = L.blocks → h.kind L.blocks ≠ .tail) :
    h.gcNbytes (L.ptrFromBlock b) = some (n * L.bytesPerBlock) := by
  have hhead : h.kind b = .head := by
    rcases shape_eq_head.mp ho.head with hhead | hmark
    · exact hhead
    · exact absurd hmark (hwf.unmarked b ho.lt)
  rw [gcNbytes, L.blockFromPtr_ptrFromBlock, if_pos ⟨L.verifyPtr_ptrFromBlock ho.lt, hhead⟩,
    ho.chainBlocks hedge, Option.map_some]

end Heap

/-! ## A heap of four blocks -/

/-- Four blocks of 32 bytes. -/
def Layout.four : Layout where
  bytesPerWord := 8
  gcStackSize := 1
  allocTableStart := 4096
  allocTableByteLen := 1
  finaliserTableByteLen := 1
  poolStart := 4224
  poolEnd := 4352
  word_pos := by decide
  start_pos := by decide
  finaliser_le := by decide
  tables_le := by decide
  pool_eq := by decide
  aligned := by decide

/-- Some roots, and no finalisers. -/
def World.quiet (roots : List Nat) : World := ⟨roots, [], fun _ words => words⟩

namespace Heap

/-- An object in the first block, with a finaliser. -/
def oneObject : Heap Layout.four :=
  { init Layout.four fun _ => 0 with
    tables := ((Tables.clear Layout.four).freeToHead 0).ftbSet 0 }

theorem oneObject_kind : ∀ c, c < 4 → oneObject.kind c = if c = 0 then .head else .free := by
  decide

theorem oneObject_wf : oneObject.WellFormed where
  unmarked b hb := by
    rw [oneObject_kind b hb]
    split <;> exact Kind.noConfusion
  tails b hb htail := by
    rw [oneObject_kind b hb] at htail
    split at htail <;> cases htail
  flags := by decide
  lastFree b hb := absurd hb (Nat.not_lt_zero b)

theorem oneObject_object : oneObject.Object 0 1 where
  head := rfl
  pos := Nat.one_pos
  le := by decide
  tails c hc hcn := by omega
  last _ := by decide

end Heap

end EfiLvgl.Gc
