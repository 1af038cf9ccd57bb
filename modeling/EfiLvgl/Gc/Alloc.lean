import EfiLvgl.Gc.Sweep
import EfiLvgl.Lib.Streak

/-!
# EfiLvgl.Gc.Alloc — allocation

The scan of `gc_alloc` reads the table a byte at a time; it counts free blocks in a row
(`scanFrom_spec`), and takes the first run that is long enough. `n_free` is not set back to 0
when the scan is repeated behind a collection: if the heap ended with free blocks before it, and
begins with free blocks behind it, the count of the ones goes on with the others
(`gcAlloc_eq_none`).
-/

namespace EfiLvgl.Gc.Heap

open EfiLvgl.Streak

variable {L : Layout}

/-! ## The scan -/

/-- The checks of `gc_alloc` block by block. -/
def scanBlocks (t : Tables L) (nBlocks : Nat) : Nat → Nat → Nat → Except (Nat × Nat) Nat
  | 0, _, nFree => .ok nFree
  | m + 1, block, nFree =>
      checkSlot (decide (t.kind block = .free)) nBlocks block nFree >>=
        scanBlocks t nBlocks m (block + 1)

theorem scanBlocks_add (t : Tables L) (nBlocks m k block nFree : Nat) :
    scanBlocks t nBlocks (m + k) block nFree =
      scanBlocks t nBlocks m block nFree >>= scanBlocks t nBlocks k (block + m) := by
  induction m generalizing block nFree with
  | zero =>
      rw [Nat.zero_add, scanBlocks, Nat.add_zero]
      rfl
  | succ m ih =>
      rw [Nat.add_right_comm, scanBlocks, scanBlocks]
      cases checkSlot (decide (t.kind block = .free)) nBlocks block nFree with
      | error found => rfl
      | ok nFree =>
          change scanBlocks t nBlocks (m + k) (block + 1) nFree = _
          rw [ih, Nat.add_right_comm, Nat.add_assoc]
          rfl

theorem scanByte_eq (t : Tables L) (nBlocks i nFree : Nat) :
    scanByte (t.byte i) nBlocks i nFree =
      scanBlocks t nBlocks blocksPerAtb (i * blocksPerAtb) nFree := by
  have hslot : ∀ slot : Fin 4, Tables.atbIsFree (t.byte i) slot =
      decide (t.kind (i * blocksPerAtb + slot.val) = .free) := by
    intro slot
    rw [Nat.mul_comm]
    exact t.atbIsFree_iff i slot
  have hlast : ∀ x : Except (Nat × Nat) Nat, (x >>= fun nFree => Except.ok nFree) = x := by
    intro x
    cases x <;> rfl
  simp only [scanByte, hslot, blocksPerAtb, scanBlocks, hlast]
  rfl

theorem scan_eq (t : Tables L) (nBlocks m i nFree : Nat) :
    scan t nBlocks (List.range' i m) nFree =
      scanBlocks t nBlocks (m * blocksPerAtb) (i * blocksPerAtb) nFree := by
  induction m generalizing i nFree with
  | zero =>
      rw [Nat.zero_mul]
      rfl
  | succ m ih =>
      rw [List.range'_succ, scan, Nat.succ_mul, Nat.add_comm (m * blocksPerAtb), scanBlocks_add,
        scanByte_eq]
      have hnext : i * blocksPerAtb + blocksPerAtb = (i + 1) * blocksPerAtb :=
        (Nat.succ_mul _ _).symm
      rw [hnext]
      congr 1
      funext nFree
      exact ih (i + 1) nFree

/-- The test of the scan, for the blocks from `s` on. -/
def isFree (t : Tables L) (s j : Nat) : Bool := decide (t.kind (s + j) = .free)

/-- The scan from block `s + j` on, when none has been found up to there. -/
theorem scanBlocks_spec (t : Tables L) {n carry s : Nat} (m j : Nat)
    (hlt : ∀ i, i ≤ j → streak (isFree t s) carry i < n) :
    (∃ i, j ≤ i ∧ i < j + m ∧ FirstStreak (isFree t s) carry n i ∧
      scanBlocks t n m (s + j) (streak (isFree t s) carry j) = .error (s + i, n)) ∨
    ((∀ i, i ≤ j + m → streak (isFree t s) carry i < n) ∧
      scanBlocks t n m (s + j) (streak (isFree t s) carry j) =
        .ok (streak (isFree t s) carry (j + m))) := by
  induction m generalizing j with
  | zero => exact Or.inr ⟨hlt, rfl⟩
  | succ m ih =>
      have hj := hlt j (Nat.le_refl j)
      have htest : decide (t.kind (s + j) = .free) = isFree t s j := rfl
      rw [scanBlocks, htest, checkSlot]
      -- the streak is too short: the scan goes on with the next block
      have hgoon : streak (isFree t s) carry (j + 1) < n →
          (∃ i, j ≤ i ∧ i < j + (m + 1) ∧ FirstStreak (isFree t s) carry n i ∧
            scanBlocks t n m (s + j + 1) (streak (isFree t s) carry (j + 1)) = .error (s + i, n)) ∨
          ((∀ i, i ≤ j + (m + 1) → streak (isFree t s) carry i < n) ∧
            scanBlocks t n m (s + j + 1) (streak (isFree t s) carry (j + 1)) =
              .ok (streak (isFree t s) carry (j + (m + 1)))) := by
        intro hnext
        have hlt' : ∀ i, i ≤ j + 1 → streak (isFree t s) carry i < n := by
          intro i hi
          rcases Nat.eq_or_lt_of_le hi with rfl | hi
          · exact hnext
          · exact hlt i (by omega)
        have hassoc : j + (m + 1) = j + 1 + m := by omega
        rw [hassoc]
        rcases ih (j + 1) hlt' with ⟨i, hji, him, hfirst, heq⟩ | ⟨hall, heq⟩
        · exact Or.inl ⟨i, by omega, him, hfirst, heq⟩
        · exact Or.inr ⟨hall, heq⟩
      cases hfree : isFree t s j with
      | false =>
          -- a block in use begins the count again
          have hzero := streak_succ_of_false (c := carry) hfree
          rw [hzero] at hgoon
          exact hgoon (by omega)
      | true =>
          have hsucc := streak_succ_of_true (c := carry) hfree
          rw [if_pos rfl]
          by_cases hfound : n ≤ streak (isFree t s) carry j + 1
          · -- this is the last of the blocks that are needed
            rw [if_pos hfound]
            refine Or.inl ⟨j, Nat.le_refl j, by omega, ⟨by omega, hlt⟩, ?_⟩
            rw [show streak (isFree t s) carry j + 1 = n by omega]
            rfl
          · rw [if_neg hfound, ← hsucc]
            exact hgoon (by omega)

/-- What the scan of `gc_alloc` comes to. -/
theorem scanFrom_spec (h : Heap L) {n carry : Nat} (hcarry : carry < n) :
    (∃ i, h.lastFreeAtbIndex * blocksPerAtb + i < L.blocks ∧
      FirstStreak (isFree h.tables (h.lastFreeAtbIndex * blocksPerAtb)) carry n i ∧
      h.scanFrom n carry = .error (h.lastFreeAtbIndex * blocksPerAtb + i, n)) ∨
    ((∀ i, i ≤ L.blocks - h.lastFreeAtbIndex * blocksPerAtb →
        streak (isFree h.tables (h.lastFreeAtbIndex * blocksPerAtb)) carry i < n) ∧
      h.scanFrom n carry = .ok (streak (isFree h.tables (h.lastFreeAtbIndex * blocksPerAtb)) carry
        (L.blocks - h.lastFreeAtbIndex * blocksPerAtb))) := by
  have hlen : (L.allocTableByteLen - h.lastFreeAtbIndex) * blocksPerAtb =
      L.blocks - h.lastFreeAtbIndex * blocksPerAtb := Nat.sub_mul _ _ _
  have hstart : ∀ i, i ≤ 0 →
      streak (isFree h.tables (h.lastFreeAtbIndex * blocksPerAtb)) carry i < n := by
    intro i hi
    rw [Nat.le_zero.mp hi]
    exact hcarry
  have hspec := scanBlocks_spec h.tables (L.blocks - h.lastFreeAtbIndex * blocksPerAtb) 0 hstart
  rw [Nat.zero_add, Nat.add_zero] at hspec
  rw [scanFrom, scan_eq, hlen]
  rcases hspec with ⟨i, -, hi, hfirst, heq⟩ | hnone
  · exact Or.inl ⟨i, by omega, hfirst, heq⟩
  · exact Or.inr hnone

/-! ## A new chain -/

theorem kind_freeToTails (m : Nat) {t : Tables L} {a : Nat} (hle : a + m ≤ L.blocks)
    (hfree : ∀ c, a ≤ c → c < a + m → t.kind c = .free) (c : Nat) :
    (freeToTails t (List.range' a m)).kind c = if a ≤ c ∧ c < a + m then .tail else t.kind c := by
  induction m generalizing t a with
  | zero =>
      rw [if_neg (by omega)]
      rfl
  | succ m ih =>
      have ha := hfree a (Nat.le_refl a) (by omega)
      have hfirst := Tables.kind_freeToTail t (show a < L.blocks by omega) ha
      rw [List.range'_succ, freeToTails, ih (by omega), hfirst]
      · by_cases hca : c = a
        · rw [if_neg (by omega), if_pos hca, if_pos (by omega)]
        · by_cases hin : a + 1 ≤ c ∧ c < a + 1 + m
          · rw [if_pos hin, if_pos (by omega)]
          · rw [if_neg hin, if_neg hca, if_neg (by omega)]
      · intro d hd hdm
        rw [hfirst, if_neg (by omega)]
        exact hfree d (by omega) (by omega)

theorem ftbGet_freeToTails {t : Tables L} {blocks : List Nat} (hlt : ∀ b ∈ blocks, b < L.blocks)
    (c : Nat) : (freeToTails t blocks).ftbGet c = t.ftbGet c := by
  induction blocks generalizing t with
  | nil => rfl
  | cons b blocks ih =>
      rw [List.forall_mem_cons] at hlt
      rw [freeToTails, ih hlt.2]
      exact Tables.ftbGet_modify_atb _ (Tables.atb_lt hlt.1) _ _

/-- The kinds behind an allocation. -/
def newKind (h : Heap L) (b n c : Nat) : Kind :=
  if c = b then .head else if b < c ∧ c < b + n then .tail else h.kind c

theorem newKind_of_outside {h : Heap L} {b n c : Nat} (hn : 0 < n) (hout : ¬ (b ≤ c ∧ c < b + n)) :
    h.newKind b n c = h.kind c := by
  rw [newKind, if_neg (by omega), if_neg (by omega)]

theorem newKind_of_tail {h : Heap L} {b n c : Nat} (hbc : b < c) (hcn : c < b + n) :
    h.newKind b n c = .tail := by
  rw [newKind, if_neg (by omega), if_pos ⟨hbc, hcn⟩]

theorem newKind_self (h : Heap L) (b n : Nat) : h.newKind b n b = .head := if_pos rfl

/-- Some free blocks. -/
structure FreeRun (h : Heap L) (b n : Nat) : Prop where
  pos : 0 < n
  le : b + n ≤ L.blocks
  free : ∀ c, b ≤ c → c < b + n → h.kind c = .free

/-- An object has no free block, so it lies on one side of free blocks. -/
theorem Object.apart_run {h : Heap L} {b c m n : Nat} (ho : h.Object c m) (hrun : h.FreeRun b n) :
    c + m ≤ b ∨ b + n ≤ c := by
  have hpos := hrun.pos
  have hom := ho.pos
  by_contra hmeet
  by_cases hcb : c ≤ b
  · exact ho.not_free hcb (by omega) (hrun.free b (Nat.le_refl b) (by omega))
  · exact ho.not_free (Nat.le_refl c) (by omega) (hrun.free c (by omega) (by omega))

section NewChain

variable {h h' : Heap L} {b n : Nat}

theorem tailsBehind_newChain (ht : h.TailsBehind) (hrun : h.FreeRun b n)
    (hkind : ∀ c, c < L.blocks → h'.kind c = h.newKind b n c) : h'.TailsBehind := by
  intro c hc htail
  rw [hkind c hc] at htail
  have hpos := hrun.pos
  -- a tail block is one of the new chain, or was there before
  by_cases hin : b ≤ c ∧ c < b + n
  · have hne : c ≠ b := by
      rintro rfl
      rw [newKind_self] at htail
      cases htail
    refine ⟨c - 1, by omega, ?_⟩
    rw [hkind _ (by omega)]
    by_cases hfirst : c - 1 = b
    · rw [hfirst, newKind_self]
      exact Kind.noConfusion
    · rw [newKind_of_tail (by omega) (by omega)]
      exact Kind.noConfusion
  · rw [newKind_of_outside hpos hin] at htail
    obtain ⟨a, rfl, hne⟩ := ht c hc htail
    have hout : ¬ (b ≤ a ∧ a < b + n) := fun h => hne (hrun.free a h.1 h.2)
    refine ⟨a, rfl, ?_⟩
    rw [hkind a (by omega), newKind_of_outside hpos hout]
    exact hne

/-- The objects there were, and the new one. -/
theorem object_newChain (ht : h.TailsBehind) (hrun : h.FreeRun b n)
    (hkind : ∀ c, c < L.blocks → h'.kind c = h.newKind b n c) (c m : Nat) :
    h'.Object c m ↔ h.Object c m ∨ c = b ∧ m = n := by
  have hpos := hrun.pos
  have hle := hrun.le
  have hnew : h'.Object b n := by
    refine ⟨?_, hpos, hle, ?_, ?_⟩
    · rw [shape, hkind b (by omega), newKind_self]
      rfl
    · intro d hbd hdn
      rw [hkind d (by omega), newKind_of_tail hbd hdn]
    · -- a tail block behind the run would have a free block in front
      intro hlt htail
      rw [hkind _ hlt, newKind_of_outside hpos (by omega)] at htail
      obtain ⟨a, ha, hne⟩ := ht _ hlt htail
      exact hne (hrun.free a (by omega) (by omega))
  -- an object that was there lies beside the run
  have hold : ∀ {c m}, h.Object c m → h'.Object c m := by
    intro c m ho
    have hom := ho.pos
    have hole := ho.le
    have hside := ho.apart_run hrun
    refine ⟨?_, hom, hole, ?_, ?_⟩
    · rw [shape, hkind c ho.lt, newKind_of_outside hpos (by omega)]
      exact ho.head
    · intro d hcd hdm
      rw [hkind d (by omega), newKind_of_outside hpos (by omega)]
      exact ho.tails d hcd hdm
    · intro hlt
      rw [hkind _ hlt]
      by_cases hnext : c + m = b
      · rw [hnext, newKind_self]
        exact Kind.noConfusion
      · rw [newKind_of_outside hpos (by omega)]
        exact ho.last hlt
  constructor
  · intro ho'
    -- any other head was there before
    by_cases hcb : c = b
    · subst hcb
      exact Or.inr ⟨rfl, ho'.unique hnew⟩
    · have hout : ¬ (b ≤ c ∧ c < b + n) := by
        rintro ⟨hbc, hcn⟩
        refine shape_ne_tail_of_head ho'.head ?_
        rw [hkind c ho'.lt, newKind_of_tail (by omega) hcn]
      have hhead := ho'.head
      rw [shape, hkind c ho'.lt, newKind_of_outside hpos hout] at hhead
      obtain ⟨k, ho⟩ := exists_object ho'.lt hhead
      obtain rfl := ho'.unique (hold ho)
      exact Or.inl ho
  · rintro (ho | ⟨rfl, rfl⟩)
    · exact hold ho
    · exact hnew

end NewChain

/-- What an allocation does with the free blocks it has found. -/
structure Allocated (h h' : Heap L) (b n : Nat) (hasFinaliser : Bool) : Prop where
  run : h.FreeRun b n
  wf : h'.WellFormed
  objects : ∀ c m, h'.Object c m ↔ h.Object c m ∨ c = b ∧ m = n
  flags : ∀ c, c < L.blocks →
    h'.tables.ftbGet c = (h.tables.ftbGet c || decide (c = b ∧ hasFinaliser = true))
  words : h'.words = zeroBlocks h.words b n
  frame : h' = { h with
    tables := h'.tables
    words := h'.words
    lastFreeAtbIndex := h'.lastFreeAtbIndex
    allocAmount := (h.allocAmount + n) % L.sizes }

/-- The blocks that the scan ends with, when nothing was carried over. -/
theorem freeRun_of_firstStreak {h : Heap L} {s n i : Nat} (hn : 0 < n) (hi : s + i < L.blocks)
    (hle : n ≤ i + 1) {carry : Nat} (hfirst : FirstStreak (isFree h.tables s) carry n i) :
    h.FreeRun (s + i + 1 - n) n := by
  refine ⟨hn, by omega, ?_⟩
  intro c hc hcn
  have heq := hfirst.eq
  have hfree := holds_of_streak (p := isFree h.tables s) (c := carry) (i := c - s) (j := i + 1)
    (by omega) (by omega)
  rw [isFree, decide_eq_true_eq, show s + (c - s) = c by omega] at hfree
  exact hfree

/-- The tables of a new chain, without the flag. -/
theorem kind_newTables {h : Heap L} {b n : Nat} (hrun : h.FreeRun b n) (c : Nat) :
    (freeToTails (h.tables.freeToHead b) (List.range' (b + 1) (n - 1))).kind c =
      h.newKind b n c := by
  have hpos := hrun.pos
  have hle := hrun.le
  have hhead := Tables.kind_freeToHead h.tables (show b < L.blocks by omega)
    (hrun.free b (Nat.le_refl b) (by omega))
  rw [kind_freeToTails (n - 1) (by omega), newKind, hhead]
  · by_cases hcb : c = b
    · rw [if_neg (by omega), if_pos hcb, if_pos hcb]
    · by_cases hin : b < c ∧ c < b + n
      · rw [if_pos (by omega), if_neg hcb, if_pos hin]
      · rw [if_neg (by omega), if_neg hcb, if_neg hcb, if_neg hin]
        rfl
  · intro d hd hdn
    rw [hhead, if_neg (by omega)]
    exact hrun.free d (by omega) (by omega)

theorem ftbGet_newTables {h : Heap L} {b n : Nat} (hrun : h.FreeRun b n) (c : Nat) :
    (freeToTails (h.tables.freeToHead b) (List.range' (b + 1) (n - 1))).ftbGet c =
      h.tables.ftbGet c := by
  have hpos := hrun.pos
  have hle := hrun.le
  rw [ftbGet_freeToTails]
  · exact Tables.ftbGet_modify_atb _ (Tables.atb_lt (by omega)) _ _
  · intro d hd
    rw [List.mem_range'_1] at hd
    omega

section Found

variable {h h' : Heap L} {b n : Nat} {hasFinaliser : Bool}

/-- The tables of a new chain, with the flag. -/
theorem kind_flagged (hrun : h.FreeRun b n) {c : Nat} (hc : c < L.blocks) :
    (if hasFinaliser = true then
        (freeToTails (h.tables.freeToHead b) (List.range' (b + 1) (n - 1))).ftbSet b
      else freeToTails (h.tables.freeToHead b) (List.range' (b + 1) (n - 1))).kind c =
      h.newKind b n c := by
  split
  · rw [Tables.ftbSet, Tables.kind_modify_ftb _ _ _ hc, kind_newTables hrun]
  · exact kind_newTables hrun c

theorem ftbGet_flagged (hrun : h.FreeRun b n) (c : Nat) :
    (if hasFinaliser = true then
        (freeToTails (h.tables.freeToHead b) (List.range' (b + 1) (n - 1))).ftbSet b
      else freeToTails (h.tables.freeToHead b) (List.range' (b + 1) (n - 1))).ftbGet c =
      (h.tables.ftbGet c || decide (c = b ∧ hasFinaliser = true)) := by
  have hpos := hrun.pos
  have hle := hrun.le
  cases hasFinaliser with
  | false => simp [ftbGet_newTables hrun c]
  | true =>
      rw [if_pos rfl, Tables.ftbGet_ftbSet _ (show b < L.blocks by omega),
        ftbGet_newTables hrun c]
      by_cases hcb : c = b
      · simp [hcb]
      · simp [hcb]

/-- A new chain keeps the heap well formed, if the blocks before the next scan are in use. -/
theorem newChain_wf (hwf : h.WellFormed) (hrun : h.FreeRun b n)
    (hkind : ∀ c, c < L.blocks → h'.kind c = h.newKind b n c)
    (hflags : ∀ c, c < L.blocks →
      h'.tables.ftbGet c = (h.tables.ftbGet c || decide (c = b ∧ hasFinaliser = true)))
    (hlast : ∀ c, c < h'.lastFreeAtbIndex * blocksPerAtb → c < L.blocks →
      h.newKind b n c ≠ .free) : h'.WellFormed := by
  constructor
  · intro c hc
    rw [hkind c hc, newKind]
    split
    · exact Kind.noConfusion
    · split
      · exact Kind.noConfusion
      · exact hwf.unmarked c hc
  · exact tailsBehind_newChain hwf.tails hrun hkind
  · intro c hc hflag
    rw [hkind c hc]
    rw [hflags c hc, Bool.or_eq_true, decide_eq_true_eq] at hflag
    -- a flag that was set is that of another head, since the run was free
    rcases hflag with hold | ⟨rfl, -⟩
    · have hhead := hwf.flags c hc hold
      rw [newKind_of_outside hrun.pos]
      · exact hhead
      · rintro ⟨hbc, hcn⟩
        rw [hrun.free c hbc hcn] at hhead
        cases hhead
    · exact newKind_self h _ n
  · intro c hc hclt
    rw [hkind c hclt]
    exact hlast c hc hclt

/-- Where the next scan begins, all blocks before are in use. -/
theorem newKind_before_next {i carry s : Nat} (hwf : h.WellFormed) (hn : 0 < n)
    (hs : h.lastFreeAtbIndex * blocksPerAtb = s) (hb : s + i + 1 - n = b)
    (hfirst : FirstStreak (isFree h.tables s) carry n i) {c : Nat}
    (hc : c < (if n = 1 then (s + i + 1) / blocksPerAtb else h.lastFreeAtbIndex) * blocksPerAtb)
    (hclt : c < L.blocks) : h.newKind b n c ≠ .free := by
  have hbefore : c < s → h.kind c ≠ .free := fun hcs => hwf.lastFree c (by omega) hclt
  by_cases hone : n = 1
  · -- all blocks before the one that was found are in use
    subst hone
    rw [if_pos rfl] at hc
    have hci : c < s + i + 1 := Nat.lt_of_lt_of_le hc (Nat.div_mul_le_self _ _)
    by_cases hcb : c = b
    · rw [hcb, newKind_self]
      exact Kind.noConfusion
    · rw [newKind_of_outside hn (by omega)]
      by_cases hcs : c < s
      · exact hbefore hcs
      · obtain ⟨k, hk, hk', htest⟩ := hfirst.none_before (i := c - s) (by omega) (by omega)
        obtain rfl : k = c - s := by omega
        rw [isFree, decide_eq_false_iff_not, show s + (c - s) = c by omega] at htest
        exact htest
  · -- the scan begins where it did
    rw [if_neg hone, hs] at hc
    rw [newKind]
    split
    · exact Kind.noConfusion
    · split
      · exact Kind.noConfusion
      · exact hbefore hc

end Found

/-- At the first run of free blocks that is long enough, the new chain is set up there. -/
theorem allocAt_some {h : Heap L} (hwf : h.WellFormed) {n i carry : Nat} (hn : 0 < n)
    (hi : h.lastFreeAtbIndex * blocksPerAtb + i < L.blocks) (hle : n ≤ i + 1)
    (hfirst : FirstStreak (isFree h.tables (h.lastFreeAtbIndex * blocksPerAtb)) carry n i)
    (hasFinaliser : Bool) :
    ∃ h', h.allocAt (h.lastFreeAtbIndex * blocksPerAtb + i) n hasFinaliser =
        some (h', L.ptrFromBlock (h.lastFreeAtbIndex * blocksPerAtb + i + 1 - n)) ∧
      Allocated h h' (h.lastFreeAtbIndex * blocksPerAtb + i + 1 - n) n hasFinaliser := by
  have hrun := freeRun_of_firstStreak hn hi hle hfirst
  generalize hs : h.lastFreeAtbIndex * blocksPerAtb = s at hi hfirst hrun ⊢
  generalize hb : s + i + 1 - n = b at hrun ⊢
  rw [allocAt, if_neg (by omega), hb]
  refine ⟨_, rfl, ?_⟩
  constructor
  · exact hrun
  · refine newChain_wf hwf hrun (fun c hc => kind_flagged hrun hc)
      (fun c _ => ftbGet_flagged hrun c) ?_
    intro c hc hclt
    exact newKind_before_next hwf hn hs hb hfirst hc hclt
  · exact object_newChain hwf.tails hrun fun c hc => kind_flagged hrun hc
  · exact fun c _ => ftbGet_flagged hrun c
  · rfl
  · rfl

/-! ## What an allocation comes to -/

/-- A new chain at the lowest run of free blocks. -/
def AllocatedAt (h h' : Heap L) (n ptr : Nat) (hasFinaliser : Bool) : Prop :=
  ∃ b, Allocated h h' b n hasFinaliser ∧ (∀ c, h.FreeRun c n → b ≤ c) ∧ ptr = L.ptrFromBlock b

/-- No run of free blocks is long enough. -/
def Full (h : Heap L) (n : Nat) : Prop := ∀ b, ¬ h.FreeRun b n

/-- The free blocks at the end of the heap. -/
structure TrailingFree (h : Heap L) (k : Nat) : Prop where
  le : k ≤ L.blocks
  free : ∀ c, c < L.blocks → L.blocks ≤ c + k → h.kind c = .free
  last : k < L.blocks → h.kind (L.blocks - k - 1) ≠ .free

/-- A run of free blocks does not begin before the byte at which the scan begins. -/
theorem FreeRun.le_start {h : Heap L} (hwf : h.WellFormed) {b n : Nat} (hrun : h.FreeRun b n) :
    h.lastFreeAtbIndex * blocksPerAtb ≤ b := by
  by_contra hlt
  have hpos := hrun.pos
  have hle := hrun.le
  exact hwf.lastFree b (by omega) (by omega) (hrun.free b (Nat.le_refl b) (by omega))

theorem FreeRun.test {h : Heap L} {b n s k : Nat} (hrun : h.FreeRun b n) (hk : b ≤ s + k)
    (hkn : s + k < b + n) : isFree h.tables s k = true := by
  rw [isFree, decide_eq_true_eq]
  exact hrun.free (s + k) hk hkn

/-- One scan. Where the blocks that were carried over are counted, the chain would begin before
the heap. -/
theorem scanFrom_cases {h : Heap L} (hwf : h.WellFormed) {n carry : Nat} (hcarry : carry < n)
    (hasFinaliser : Bool) :
    (∃ i h' ptr, h.scanFrom n carry = .error (i, n) ∧
      h.allocAt i n hasFinaliser = some (h', ptr) ∧ AllocatedAt h h' n ptr hasFinaliser) ∨
    (∃ k, h.scanFrom n carry = .ok k ∧ h.Full n ∧ k < n ∧ (carry = 0 → h.TrailingFree k)) ∨
    (∃ i, h.scanFrom n carry = .error (h.lastFreeAtbIndex * blocksPerAtb + i, n) ∧
      carry + i + 1 = n ∧ 0 < carry ∧
      h.FreeRun (h.lastFreeAtbIndex * blocksPerAtb) (i + 1)) := by
  have hn : 0 < n := by omega
  rcases scanFrom_spec h hcarry with ⟨i, hi, hfirst, heq⟩ | ⟨hall, heq⟩
  · by_cases hle : n ≤ i + 1
    · refine Or.inl ?_
      obtain ⟨h', hsome, hallocated⟩ := allocAt_some hwf hn hi hle hfirst hasFinaliser
      refine ⟨_, h', _, heq, hsome, _, hallocated, ?_, rfl⟩
      intro c hrun
      have hstart := hrun.le_start hwf
      -- a run before it would have been found first
      by_contra hlt
      obtain ⟨k, hk, hkn, htest⟩ := hfirst.none_before
        (i := c - h.lastFreeAtbIndex * blocksPerAtb + n - 1) (by omega) (by omega)
      rw [hrun.test (by omega) (by omega)] at htest
      cases htest
    · -- the count did not begin again, so the carry is in it
      refine Or.inr (Or.inr ⟨i, heq, ?_⟩)
      have hcount := hfirst.eq
      rcases streak_le_or_eq (isFree h.tables (h.lastFreeAtbIndex * blocksPerAtb)) carry (i + 1)
        with hreset | hsum
      · omega
      · refine ⟨by omega, by omega, by omega, by omega, ?_⟩
        intro c hc hci
        have htest := holds_of_streak
          (p := isFree h.tables (h.lastFreeAtbIndex * blocksPerAtb)) (c := carry)
          (i := c - h.lastFreeAtbIndex * blocksPerAtb) (j := i + 1) (by omega) (by omega)
        rw [isFree, decide_eq_true_eq] at htest
        rwa [show h.lastFreeAtbIndex * blocksPerAtb + (c - h.lastFreeAtbIndex * blocksPerAtb) = c
          by omega] at htest
  · refine Or.inr (Or.inl ⟨_, heq, ?_, hall _ (Nat.le_refl _), ?_⟩)
    · intro b hrun
      have hstart := hrun.le_start hwf
      have hle := hrun.le
      -- the scan would have counted the run to its end
      have hstreak := le_streak (c := carry)
        (p := isFree h.tables (h.lastFreeAtbIndex * blocksPerAtb))
        (n := n) (j := b - h.lastFreeAtbIndex * blocksPerAtb + n) (by omega)
        fun k hk hkn => hrun.test (by omega) (by omega)
      have hlt := hall (b - h.lastFreeAtbIndex * blocksPerAtb + n) (by omega)
      omega
    · -- without a carry, what is counted at the end are the free blocks there
      rintro rfl
      generalize hs : h.lastFreeAtbIndex * blocksPerAtb = s at hall ⊢
      have hle := streak_zero_le (isFree h.tables s) (L.blocks - s)
      refine ⟨by omega, ?_, ?_⟩
      · intro c hc hck
        have htest := holds_of_streak (p := isFree h.tables s) (c := 0) (i := c - s)
          (j := L.blocks - s) (by omega) (by omega)
        rw [isFree, decide_eq_true_eq, show s + (c - s) = c by omega] at htest
        exact htest
      · generalize hk : streak (isFree h.tables s) 0 (L.blocks - s) = k at hle ⊢
        intro hklt hfree
        by_cases hbefore : L.blocks - k - 1 < s
        · exact hwf.lastFree _ (by omega) (by omega) hfree
        · have hstreak := le_streak (c := 0) (p := isFree h.tables s) (n := k + 1)
            (j := L.blocks - s) (by omega) ?_
          · omega
          · intro c hc hck
            by_cases hfirst : s + c = L.blocks - k - 1
            · rw [isFree, hfirst, decide_eq_true_eq]
              exact hfree
            · exact holds_of_streak (c := 0) hc (by omega)

theorem TrailingFree.unique {h : Heap L} {k m : Nat} (hk : h.TrailingFree k)
    (hm : h.TrailingFree m) : k = m := by
  have hkle := hk.le
  have hmle := hm.le
  by_contra hne
  rcases Nat.lt_or_gt_of_ne hne with hlt | hgt
  · exact hk.last (by omega) (hm.free _ (by omega) (by omega))
  · exact hm.last (by omega) (hk.free _ (by omega) (by omega))

/-- A new chain, or there is no room for it. -/
def AllocatedOrFull (h h' : Heap L) (n ptr : Nat) (hasFinaliser : Bool) : Prop :=
  AllocatedAt h h' n ptr hasFinaliser ∨ h.Full n ∧ h' = h ∧ ptr = 0

theorem Collected.scan_start {w : World} {h h' : Heap L} (hc : Collected w h h') :
    h'.lastFreeAtbIndex * blocksPerAtb = 0 := by
  rw [hc.frame]
  exact Nat.zero_mul _

theorem allocAgain_run {w : World} {h h' : Heap L} (hwf : h.WellFormed) {n k ptr : Nat}
    (hk : k < n) {hasFinaliser : Bool} (hsome : h.allocAgain w n k hasFinaliser = some (h', ptr)) :
    ∃ g, h.gcCollect w = some g ∧ AllocatedOrFull g h' n ptr hasFinaliser := by
  rw [allocAgain, Option.bind_eq_some_iff] at hsome
  obtain ⟨g, hcollect, hsome⟩ := hsome
  have hc := gcCollect_run hwf hcollect
  refine ⟨g, hcollect, ?_⟩
  rcases scanFrom_cases hc.wf hk hasFinaliser with
    ⟨i, g', ptr', heq, halloc, hat⟩ | ⟨m, heq, hfull, -, -⟩ | ⟨i, heq, hsum, hpos, -⟩
  · rw [heq] at hsome
    dsimp only at hsome
    rw [halloc, Option.some.injEq, Prod.mk.injEq] at hsome
    obtain ⟨rfl, rfl⟩ := hsome
    exact Or.inl hat
  · rw [heq] at hsome
    dsimp only at hsome
    rw [Option.some.injEq, Prod.mk.injEq] at hsome
    obtain ⟨rfl, rfl⟩ := hsome
    exact Or.inr ⟨hfull, rfl, rfl⟩
  · -- the chain would begin before the heap
    rw [heq, hc.scan_start, Nat.zero_add] at hsome
    dsimp only at hsome
    rw [allocAt, if_pos (by omega)] at hsome
    cases hsome

/-- The repeated scan goes wrong when the blocks that were carried over and the first blocks of the
heap are enough together. -/
theorem allocAgain_eq_none {w : World} {h : Heap L} (hwf : h.WellFormed) {n k : Nat} (hk : k < n)
    (hasFinaliser : Bool) :
    h.allocAgain w n k hasFinaliser = none ↔
      h.gcCollect w = none ∨ ∃ g, h.gcCollect w = some g ∧ 0 < k ∧ g.FreeRun 0 (n - k) := by
  rw [allocAgain]
  cases hcollect : h.gcCollect w with
  | none => simp
  | some g =>
      have hc := gcCollect_run hwf hcollect
      rw [Option.bind_some]
      have hstart := hc.scan_start
      constructor
      · intro hnone
        refine Or.inr ⟨g, rfl, ?_⟩
        rcases scanFrom_cases hc.wf hk hasFinaliser with
          ⟨i, g', ptr', heq, halloc, -⟩ | ⟨m, heq, -, -, -⟩ | ⟨i, -, hsum, hpos, hrun⟩
        · rw [heq] at hnone
          dsimp only at hnone
          rw [halloc] at hnone
          cases hnone
        · rw [heq] at hnone
          cases hnone
        · rw [hstart, show i + 1 = n - k by omega] at hrun
          exact ⟨hpos, hrun⟩
      · rintro (hnone | ⟨g', heq, hpos, hrun⟩)
        · cases hnone
        · obtain rfl := Option.some.inj heq
          have hle := hrun.le
          -- the carry and the first blocks are counted together
          have hcount : streak (isFree g.tables 0) k (n - k) = n := by
            rw [streak_of_all fun i hi => hrun.test (by omega) (by omega)]
            omega
          rcases scanFrom_spec g hk with ⟨i, -, hfirst, heq⟩ | ⟨hall, -⟩
          · rw [hstart] at hfirst
            rw [heq, hstart, Nat.zero_add]
            dsimp only
            have hbefore : i < n - k := by
              by_contra hge
              have := hfirst.least (n - k) (by omega)
              omega
            rw [allocAt, if_pos (by omega)]
          · rw [hstart] at hall
            have := hall (n - k) (by omega)
            omega

theorem allocFirst_run {w : World} {h h' : Heap L} (hwf : h.WellFormed) {n ptr : Nat} (hn : 0 < n)
    {hasFinaliser : Bool} (hsome : h.allocFirst w n hasFinaliser = some (h', ptr)) :
    AllocatedAt h h' n ptr hasFinaliser ∨
      h.Full n ∧ h.autoCollectEnabled = false ∧ h' = h ∧ ptr = 0 ∨
      h.Full n ∧ h.autoCollectEnabled = true ∧
        ∃ g, h.gcCollect w = some g ∧ AllocatedOrFull g h' n ptr hasFinaliser := by
  rw [allocFirst] at hsome
  rcases scanFrom_cases hwf hn hasFinaliser with
    ⟨i, g', ptr', heq, halloc, hat⟩ | ⟨m, heq, hfull, hlt, -⟩ | ⟨i, -, -, hpos, -⟩
  · rw [heq] at hsome
    dsimp only at hsome
    rw [halloc, Option.some.injEq, Prod.mk.injEq] at hsome
    obtain ⟨rfl, rfl⟩ := hsome
    exact Or.inl hat
  · rw [heq] at hsome
    dsimp only at hsome
    cases hauto : h.autoCollectEnabled with
    | false =>
        rw [hauto, if_neg Bool.false_ne_true, Option.some.injEq, Prod.mk.injEq] at hsome
        obtain ⟨rfl, rfl⟩ := hsome
        exact Or.inr (Or.inl ⟨hfull, rfl, rfl, rfl⟩)
    | true =>
        rw [hauto, if_pos rfl] at hsome
        exact Or.inr (Or.inr ⟨hfull, rfl, allocAgain_run hwf hlt hsome⟩)
  · -- the first scan carries nothing over
    exact absurd hpos (Nat.lt_irrefl 0)

theorem allocFirst_eq_none {w : World} {h : Heap L} (hwf : h.WellFormed) {n : Nat} (hn : 0 < n)
    (hasFinaliser : Bool) :
    h.allocFirst w n hasFinaliser = none ↔
      h.autoCollectEnabled = true ∧ h.Full n ∧ (h.gcCollect w = none ∨
        ∃ k g, h.TrailingFree k ∧ h.gcCollect w = some g ∧ 0 < k ∧ g.FreeRun 0 (n - k)) := by
  rw [allocFirst]
  rcases scanFrom_cases hwf hn hasFinaliser with
    ⟨i, g', ptr', heq, halloc, b, hallocated, -⟩ | ⟨m, heq, hfull, hlt, htrailing⟩ |
    ⟨i, -, -, hpos, -⟩
  · rw [heq]
    dsimp only
    rw [halloc]
    constructor
    · intro hnone
      cases hnone
    · rintro ⟨-, hfull, -⟩
      exact absurd hallocated.run (hfull b)
  · have hm := htrailing rfl
    rw [heq]
    dsimp only
    cases hauto : h.autoCollectEnabled with
    | false => simp
    | true =>
        rw [if_pos rfl, allocAgain_eq_none hwf hlt]
        constructor
        · rintro (hnone | ⟨g, hcollect, hpos, hrun⟩)
          · exact ⟨rfl, hfull, Or.inl hnone⟩
          · exact ⟨rfl, hfull, Or.inr ⟨m, g, hm, hcollect, hpos, hrun⟩⟩
        · rintro ⟨-, -, hnone | ⟨k, g, hk, hcollect, hpos, hrun⟩⟩
          · exact Or.inl hnone
          · obtain rfl := hk.unique hm
            exact Or.inr ⟨g, hcollect, hpos, hrun⟩
  · -- the first scan carries nothing over
    exact absurd hpos (Nat.lt_irrefl 0)

/-! ## `gc_alloc` -/

/-- Behind the collection that the threshold asks for, or without it. -/
theorem thresholdCollect_run {w : World} {h g : Heap L} (hsome : h.thresholdCollect w = some g) :
    g = h ∧ ¬ (h.autoCollectEnabled = true ∧ h.allocThreshold ≤ h.allocAmount) ∨
      h.gcCollect w = some g ∧ h.autoCollectEnabled = true ∧ h.allocThreshold ≤ h.allocAmount := by
  rw [thresholdCollect] at hsome
  split at hsome
  · next hdue =>
      rw [Bool.and_eq_true, decide_eq_true_eq] at hdue
      exact Or.inr ⟨hsome, hdue⟩
  · next hdue =>
      rw [Bool.and_eq_true, decide_eq_true_eq] at hdue
      exact Or.inl ⟨(Option.some.inj hsome).symm, hdue⟩

theorem thresholdCollect_wf {w : World} {h g : Heap L} (hwf : h.WellFormed)
    (hsome : h.thresholdCollect w = some g) : g.WellFormed := by
  rcases thresholdCollect_run hsome with ⟨rfl, -⟩ | ⟨hcollect, -⟩
  · exact hwf
  · exact (gcCollect_run hwf hcollect).wf

theorem gcAlloc_run {w w' : World} {h h' : Heap L} {nBytes ptr : Nat} {hasFinaliser : Bool}
    (hsome : h.gcAlloc w w' nBytes hasFinaliser = some (h', ptr)) :
    (bytesToBlocks L nBytes = 0 ∨ 0 < h.lockDepth) ∧ h' = h ∧ ptr = 0 ∨
      0 < bytesToBlocks L nBytes ∧ h.lockDepth = 0 ∧ ∃ g, h.thresholdCollect w = some g ∧
        g.allocFirst w' (bytesToBlocks L nBytes) hasFinaliser = some (h', ptr) := by
  rw [gcAlloc] at hsome
  by_cases hzero : bytesToBlocks L nBytes = 0
  · rw [if_pos hzero, Option.some.injEq, Prod.mk.injEq] at hsome
    exact Or.inl ⟨Or.inl hzero, hsome.1.symm, hsome.2.symm⟩
  · rw [if_neg hzero] at hsome
    by_cases hlock : 0 < h.lockDepth
    · rw [if_pos hlock, Option.some.injEq, Prod.mk.injEq] at hsome
      exact Or.inl ⟨Or.inr hlock, hsome.1.symm, hsome.2.symm⟩
    · rw [if_neg hlock, Option.bind_eq_some_iff] at hsome
      exact Or.inr ⟨by omega, by omega, hsome⟩

/-- When `gc_alloc` goes wrong: a collection leaves the table, or the blocks at the end of the heap
that the first scan has counted are counted again for the run at its beginning. -/
theorem gcAlloc_eq_none {w w' : World} {h : Heap L} (hwf : h.WellFormed) (nBytes : Nat)
    (hasFinaliser : Bool) :
    h.gcAlloc w w' nBytes hasFinaliser = none ↔
      0 < bytesToBlocks L nBytes ∧ h.lockDepth = 0 ∧
        (h.thresholdCollect w = none ∨ ∃ g, h.thresholdCollect w = some g ∧
          g.autoCollectEnabled = true ∧ g.Full (bytesToBlocks L nBytes) ∧
          (g.gcCollect w' = none ∨ ∃ k g', g.TrailingFree k ∧ g.gcCollect w' = some g' ∧
            0 < k ∧ g'.FreeRun 0 (bytesToBlocks L nBytes - k))) := by
  rw [gcAlloc]
  by_cases hzero : bytesToBlocks L nBytes = 0
  · rw [if_pos hzero]
    constructor
    · intro hnone
      cases hnone
    · rintro ⟨hpos, -⟩
      omega
  · rw [if_neg hzero]
    by_cases hlock : 0 < h.lockDepth
    · rw [if_pos hlock]
      constructor
      · intro hnone
        cases hnone
      · rintro ⟨-, hdepth, -⟩
        omega
    · rw [if_neg hlock]
      have hpos : 0 < bytesToBlocks L nBytes := by omega
      have hdepth : h.lockDepth = 0 := by omega
      cases hthreshold : h.thresholdCollect w with
      | none => simp [hpos, hdepth]
      | some g =>
          rw [Option.bind_some, allocFirst_eq_none (thresholdCollect_wf hwf hthreshold) hpos]
          constructor
          · rintro ⟨hauto, hfull, hwhy⟩
            exact ⟨hpos, hdepth, Or.inr ⟨g, rfl, hauto, hfull, hwhy⟩⟩
          · rintro ⟨-, -, hnone | ⟨g', heq, hwhy⟩⟩
            · cases hnone
            · obtain rfl := Option.some.inj heq
              exact hwhy

/-- Four blocks are asked for: the three at the end are counted, and a fourth one when the object in
the first block is gone, so that the chain would begin three blocks before the heap. -/
theorem gcAlloc_eq_none_oneObject :
    oneObject.gcAlloc (.quiet []) (.quiet []) 128 false = none := by
  have hfull : oneObject.Full 4 := by
    intro b hrun
    have hle : b + 4 ≤ 4 := hrun.le
    have hfirst : oneObject.kind 0 = .free := hrun.free 0 (by omega) (by omega)
    exact absurd hfirst (by decide)
  have htrailing : oneObject.TrailingFree 3 := by
    refine ⟨by decide, ?_, fun _ => by decide⟩
    intro c hc hlast
    have hbehind : 4 ≤ c + 3 := hlast
    rw [oneObject_kind c hc, if_neg (by omega)]
  rw [gcAlloc_eq_none oneObject_wf]
  refine ⟨by decide, rfl, .inr ⟨oneObject, rfl, rfl, hfull, .inr ?_⟩⟩
  -- nothing is reached, so the collection frees the first block
  refine ⟨3, _, htrailing, rfl, by decide, ⟨by decide, by decide, ?_⟩⟩
  intro c _ hc
  have hlt : c < 0 + 1 := hc
  obtain rfl : c = 0 := by omega
  rfl

/-- Three blocks are found behind the object. -/
example : (oneObject.gcAlloc (.quiet []) (.quiet []) 96 false).isSome = true := rfl

end EfiLvgl.Gc.Heap
