import Mathlib.Data.Fintype.Basic
import Mathlib.Data.List.Basic

/-!
# EfiLvgl.Gc.Table — the allocation and the finaliser table

`py/gc.c` keeps two bits for each block of the heap in the bytes of an allocation table, and
behind it one bit for each block in a finaliser table. The macros that read and write these
bits are modelled on the bytes; what they do to the kinds of all blocks is said once
(`kind_anyToFree` and its siblings), so that nothing later looks at a byte again. Only the scan
of `gc_alloc` reads whole bytes, and for it `atbIsFree_iff` says what a byte tells.

Both tables are one piece of memory: `ATB_GET_KIND` of the block behind the last one reads the
first byte of the finaliser table.
-/

namespace EfiLvgl.Gc

/-! ## Layout -/

def blocksPerAtb : Nat := 4

def blocksPerFtb : Nat := 8

/-- Where `gc_init` has put the tables and the pool, with the size of a word and
`MICROPY_ALLOC_GC_STACK_SIZE`, which the port chooses. -/
structure Layout where
  bytesPerWord : Nat
  gcStackSize : Nat
  allocTableStart : Nat
  allocTableByteLen : Nat
  finaliserTableByteLen : Nat
  poolStart : Nat
  poolEnd : Nat
  word_pos : 0 < bytesPerWord
  start_pos : 0 < allocTableStart
  finaliser_le : allocTableByteLen * blocksPerAtb ≤ finaliserTableByteLen * blocksPerFtb
  tables_le : allocTableStart + allocTableByteLen + finaliserTableByteLen ≤ poolStart
  pool_eq : poolEnd = poolStart + allocTableByteLen * blocksPerAtb * (4 * bytesPerWord)
  aligned : poolStart % (4 * bytesPerWord) = 0

namespace Layout

variable (L : Layout)

/-- `BYTES_PER_BLOCK` -/
def bytesPerBlock : Nat := 4 * L.bytesPerWord

/-- The number of blocks in the pool. -/
def blocks : Nat := L.allocTableByteLen * blocksPerAtb

theorem bytesPerBlock_pos : 0 < L.bytesPerBlock := by
  have := L.word_pos
  unfold bytesPerBlock
  omega

theorem poolStart_pos : 0 < L.poolStart := by
  have hstart := L.start_pos
  have hle := L.tables_le
  omega

theorem poolEnd_eq : L.poolEnd = L.poolStart + L.blocks * L.bytesPerBlock := L.pool_eq

/-- `BLOCK_FROM_PTR` -/
def blockFromPtr (ptr : Nat) : Nat := (ptr - L.poolStart) / L.bytesPerBlock

/-- `PTR_FROM_BLOCK` -/
def ptrFromBlock (block : Nat) : Nat := block * L.bytesPerBlock + L.poolStart

/-- `VERIFY_PTR` -/
def verifyPtr (ptr : Nat) : Bool :=
  ptr % L.bytesPerBlock == 0 && decide (L.poolStart ≤ ptr) && decide (ptr < L.poolEnd)

theorem ptrFromBlock_pos (block : Nat) : 0 < L.ptrFromBlock block := by
  have := L.poolStart_pos
  unfold ptrFromBlock
  omega

@[simp] theorem blockFromPtr_ptrFromBlock (block : Nat) :
    L.blockFromPtr (L.ptrFromBlock block) = block := by
  rw [blockFromPtr, ptrFromBlock, Nat.add_sub_cancel, Nat.mul_div_cancel _ L.bytesPerBlock_pos]

/-- The pointers that the check lets through are those to the blocks of the pool. -/
theorem verifyPtr_iff (ptr : Nat) :
    L.verifyPtr ptr = true ↔ ∃ block, block < L.blocks ∧ ptr = L.ptrFromBlock block := by
  have hpos := L.bytesPerBlock_pos
  have haligned : L.poolStart % L.bytesPerBlock = 0 := L.aligned
  simp only [verifyPtr, Bool.and_eq_true, beq_iff_eq, decide_eq_true_eq, L.poolEnd_eq]
  constructor
  · rintro ⟨⟨hmod, hlo⟩, hhi⟩
    -- the pool is aligned, so the distance to its start is a number of blocks
    have hdvd : L.bytesPerBlock ∣ ptr - L.poolStart :=
      Nat.dvd_sub (Nat.dvd_of_mod_eq_zero hmod) (Nat.dvd_of_mod_eq_zero haligned)
    rcases hdvd with ⟨block, hblock⟩
    rw [Nat.mul_comm] at hblock
    refine ⟨block, ?_, ?_⟩
    · have hlt : block * L.bytesPerBlock < L.blocks * L.bytesPerBlock := by omega
      exact Nat.lt_of_mul_lt_mul_right hlt
    · unfold ptrFromBlock
      omega
  · rintro ⟨block, hlt, rfl⟩
    have hmul : block * L.bytesPerBlock < L.blocks * L.bytesPerBlock :=
      Nat.mul_lt_mul_of_pos_right hlt hpos
    refine ⟨⟨?_, ?_⟩, ?_⟩
    · rw [ptrFromBlock, Nat.mul_add_mod_self_right, haligned]
    · unfold ptrFromBlock
      omega
    · unfold ptrFromBlock
      omega

@[simp] theorem verifyPtr_ptrFromBlock {block : Nat} (h : block < L.blocks) :
    L.verifyPtr (L.ptrFromBlock block) = true :=
  (L.verifyPtr_iff _).mpr ⟨block, h, rfl⟩

theorem blockFromPtr_lt {ptr : Nat} (h : L.verifyPtr ptr = true) :
    L.blockFromPtr ptr < L.blocks := by
  rcases (L.verifyPtr_iff ptr).mp h with ⟨block, hlt, rfl⟩
  rwa [L.blockFromPtr_ptrFromBlock]

theorem ptrFromBlock_blockFromPtr {ptr : Nat} (h : L.verifyPtr ptr = true) :
    L.ptrFromBlock (L.blockFromPtr ptr) = ptr := by
  rcases (L.verifyPtr_iff ptr).mp h with ⟨block, -, rfl⟩
  rw [L.blockFromPtr_ptrFromBlock]

end Layout

/-! ## Kinds -/

/-- What the allocation table says of a block. -/
inductive Kind where
  | free
  | head
  | tail
  | mark
deriving DecidableEq, Repr

namespace Kind

/-- `AT_FREE`, `AT_HEAD`, `AT_TAIL`, `AT_MARK` -/
def bits : Kind → BitVec 8
  | free => 0
  | head => 1
  | tail => 2
  | mark => 3

def ofBits (a : BitVec 8) : Kind :=
  if a = free.bits then free else if a = head.bits then head else if a = tail.bits then tail
  else mark

end Kind

/-! ## The tables -/

/-- The bytes of both tables, one behind the other. -/
structure Tables (L : Layout) where
  bytes : List (BitVec 8)
  length_eq : bytes.length = L.allocTableByteLen + L.finaliserTableByteLen

namespace Tables

variable {L : Layout}

/-- `BLOCK_SHIFT` -/
def blockShift (block : Nat) : Nat := 2 * (block % blocksPerAtb)

def modify (t : Tables L) (i : Nat) (f : BitVec 8 → BitVec 8) : Tables L :=
  ⟨t.bytes.modify i f, by rw [List.length_modify, t.length_eq]⟩

def byte (t : Tables L) (i : Nat) : BitVec 8 := t.bytes.getD i 0

/-- `ATB_GET_KIND` -/
def kind (t : Tables L) (block : Nat) : Kind :=
  Kind.ofBits ((t.byte (block / blocksPerAtb) >>> blockShift block) &&& 3)

/-- `ATB_ANY_TO_FREE` -/
def anyToFree (t : Tables L) (block : Nat) : Tables L :=
  t.modify (block / blocksPerAtb) (· &&& ~~~(Kind.mark.bits <<< blockShift block))

/-- `ATB_FREE_TO_HEAD` -/
def freeToHead (t : Tables L) (block : Nat) : Tables L :=
  t.modify (block / blocksPerAtb) (· ||| (Kind.head.bits <<< blockShift block))

/-- `ATB_FREE_TO_TAIL` -/
def freeToTail (t : Tables L) (block : Nat) : Tables L :=
  t.modify (block / blocksPerAtb) (· ||| (Kind.tail.bits <<< blockShift block))

/-- `ATB_HEAD_TO_MARK` -/
def headToMark (t : Tables L) (block : Nat) : Tables L :=
  t.modify (block / blocksPerAtb) (· ||| (Kind.mark.bits <<< blockShift block))

/-- `ATB_MARK_TO_HEAD` -/
def markToHead (t : Tables L) (block : Nat) : Tables L :=
  t.modify (block / blocksPerAtb) (· &&& ~~~(Kind.tail.bits <<< blockShift block))

/-- `ATB_0_IS_FREE` to `ATB_3_IS_FREE` -/
def atbIsFree (a : BitVec 8) (slot : Fin 4) : Bool := (a &&& (3#8 <<< (2 * slot.val))) == 0

/-- `FTB_GET` -/
def ftbGet (t : Tables L) (block : Nat) : Bool :=
  ((t.byte (L.allocTableByteLen + block / blocksPerFtb) >>> (block % 8)) &&& 1) == 1

/-- `FTB_SET` -/
def ftbSet (t : Tables L) (block : Nat) : Tables L :=
  t.modify (L.allocTableByteLen + block / blocksPerFtb) (· ||| (1#8 <<< (block % 8)))

/-- `FTB_CLEAR` -/
def ftbClear (t : Tables L) (block : Nat) : Tables L :=
  t.modify (L.allocTableByteLen + block / blocksPerFtb) (· &&& ~~~(1#8 <<< (block % 8)))

/-- Two cleared tables. -/
def clear (L : Layout) : Tables L :=
  ⟨List.replicate (L.allocTableByteLen + L.finaliserTableByteLen) 0, List.length_replicate⟩

/-! ## What a byte holds -/

theorem byte_modify_of_ne (t : Tables L) {i j : Nat} (f : BitVec 8 → BitVec 8) (h : i ≠ j) :
    (t.modify i f).byte j = t.byte j := by
  simp only [byte, modify, List.getD_eq_getElem?_getD, List.getElem?_modify, if_neg h]
  cases t.bytes[j]? with
  | none => rfl
  | some a => rfl

theorem byte_modify_self (t : Tables L) {i : Nat} (f : BitVec 8 → BitVec 8)
    (h : i < L.allocTableByteLen + L.finaliserTableByteLen) :
    (t.modify i f).byte i = f (t.byte i) := by
  rw [← t.length_eq] at h
  simp only [byte, modify, List.getD_eq_getElem?_getD, List.getElem?_modify,
    List.getElem?_eq_getElem h]
  rfl

@[simp] theorem byte_clear (i : Nat) : (clear L).byte i = 0 := by
  rw [byte, clear, List.getD_eq_getElem?_getD, List.getElem?_replicate]
  split <;> rfl

/-- The two bits of a block. -/
def bitsAt (t : Tables L) (block : Nat) : BitVec 8 :=
  (t.byte (block / blocksPerAtb) >>> blockShift block) &&& 3

theorem kind_eq_ofBits (t : Tables L) (block : Nat) : t.kind block = Kind.ofBits (t.bitsAt block) :=
  rfl

theorem bits_ofBits : ∀ a : BitVec 8, (Kind.ofBits (a &&& 3)).bits = a &&& 3 := by
  decide +kernel

theorem bitsAt_eq_bits (t : Tables L) (block : Nat) : t.bitsAt block = (t.kind block).bits :=
  (bits_ofBits _).symm

/-- Bits are cleared in one slot of a byte, and in no other. -/
theorem slot_and (m : Kind) (a : BitVec 8) (i j : Fin 4) :
    ((a &&& ~~~(m.bits <<< (2 * i.val))) >>> (2 * j.val)) &&& 3 =
      if i = j then ((a >>> (2 * j.val)) &&& 3) &&& ~~~m.bits else (a >>> (2 * j.val)) &&& 3 := by
  have hslot : (~~~(m.bits <<< (2 * i.val)) >>> (2 * j.val)) &&& 3 =
      if i = j then 3 &&& ~~~m.bits else 3 := by
    -- 16 pairs of slots
    revert i j
    cases m <;> decide
  rw [BitVec.ushiftRight_and_distrib, BitVec.and_assoc, hslot]
  split
  · rw [BitVec.and_assoc]
  · rfl

/-- Bits are set in one slot of a byte, and in no other. -/
theorem slot_or (m : Kind) (a : BitVec 8) (i j : Fin 4) :
    ((a ||| (m.bits <<< (2 * i.val))) >>> (2 * j.val)) &&& 3 =
      if i = j then ((a >>> (2 * j.val)) &&& 3) ||| m.bits else (a >>> (2 * j.val)) &&& 3 := by
  have hslot : ((m.bits <<< (2 * i.val)) >>> (2 * j.val)) &&& 3 =
      if i = j then m.bits else 0#8 := by
    revert i j
    cases m <;> decide
  rw [BitVec.ushiftRight_or_distrib, BitVec.and_or_distrib_right, hslot]
  split
  · rfl
  · rw [BitVec.or_zero]

/-- A flag is set, and no other. -/
theorem flag_or (a : BitVec 8) (i j : Fin 8) :
    ((((a ||| (1#8 <<< i.val)) >>> j.val) &&& 1) == 1) =
      if i = j then true else ((a >>> j.val) &&& 1) == 1 := by
  have hslot : ((1#8 <<< i.val) >>> j.val) &&& 1 = if i = j then 1 else 0#8 := by
    -- 64 pairs of bits
    revert i j
    decide
  rw [BitVec.ushiftRight_or_distrib, BitVec.and_or_distrib_right, hslot]
  split
  · have hone : ∀ b : BitVec 8, ((b &&& 1 ||| 1) == 1) = true := by decide +kernel
    exact hone _
  · rw [BitVec.or_zero]

/-- A flag is cleared, and no other. -/
theorem flag_and (a : BitVec 8) (i j : Fin 8) :
    ((((a &&& ~~~(1#8 <<< i.val)) >>> j.val) &&& 1) == 1) =
      if i = j then false else ((a >>> j.val) &&& 1) == 1 := by
  have hslot : (~~~(1#8 <<< i.val) >>> j.val) &&& 1 = if i = j then 0#8 else 1 := by
    revert i j
    decide
  rw [BitVec.ushiftRight_and_distrib, BitVec.and_assoc, hslot]
  split
  · rw [BitVec.and_zero]
    rfl
  · rfl

/-! ## What the macros do to the kinds -/

theorem atb_lt {block : Nat} (h : block < L.blocks) : block / blocksPerAtb < L.allocTableByteLen :=
  Nat.div_lt_of_lt_mul (by rwa [Nat.mul_comm])

/-- A write to a block's own slot of its byte. -/
theorem bitsAt_modify (t : Tables L) {block : Nat} (h : block < L.blocks)
    {f g : BitVec 8 → BitVec 8}
    (hf : ∀ (a : BitVec 8) (j : Fin 4), (f a >>> (2 * j.val)) &&& 3 =
      if block % blocksPerAtb = j.val then g ((a >>> (2 * j.val)) &&& 3)
      else (a >>> (2 * j.val)) &&& 3) (c : Nat) :
    (t.modify (block / blocksPerAtb) f).bitsAt c =
      if c = block then g (t.bitsAt block) else t.bitsAt c := by
  have hlt := atb_lt h
  by_cases hbyte : block / blocksPerAtb = c / blocksPerAtb
  · have hslot := hf (t.byte (c / blocksPerAtb)) ⟨c % blocksPerAtb, Nat.mod_lt _ (by decide)⟩
    dsimp only at hslot
    rw [bitsAt, hbyte, byte_modify_self t f (by omega), blockShift, hslot]
    -- the same byte: the slot of the block, or another one
    by_cases hmod : block % blocksPerAtb = c % blocksPerAtb
    · have heq : c = block := by
        rw [← Nat.div_add_mod c blocksPerAtb, ← hbyte, ← hmod, Nat.div_add_mod]
      rw [if_pos hmod, if_pos heq, ← heq]
      rfl
    · have hne : c ≠ block := fun heq => hmod (by rw [heq])
      rw [if_neg hmod, if_neg hne]
      rfl
  · -- another byte
    have hne : c ≠ block := fun heq => hbyte (by rw [heq])
    rw [bitsAt, byte_modify_of_ne t f hbyte, if_neg hne]
    rfl

theorem kind_and (t : Tables L) {block : Nat} (h : block < L.blocks) (m : Kind) (c : Nat) :
    (t.modify (block / blocksPerAtb) (· &&& ~~~(m.bits <<< blockShift block))).kind c =
      if c = block then Kind.ofBits ((t.kind block).bits &&& ~~~m.bits) else t.kind c := by
  rw [kind_eq_ofBits, bitsAt_modify t h (g := (· &&& ~~~m.bits)), ← bitsAt_eq_bits]
  · split <;> rfl
  · intro a j
    have hslot := slot_and m a ⟨block % blocksPerAtb, Nat.mod_lt _ (by decide)⟩ j
    simpa only [blockShift, Fin.ext_iff] using hslot

theorem kind_or (t : Tables L) {block : Nat} (h : block < L.blocks) (m : Kind) (c : Nat) :
    (t.modify (block / blocksPerAtb) (· ||| (m.bits <<< blockShift block))).kind c =
      if c = block then Kind.ofBits ((t.kind block).bits ||| m.bits) else t.kind c := by
  rw [kind_eq_ofBits, bitsAt_modify t h (g := (· ||| m.bits)), ← bitsAt_eq_bits]
  · split <;> rfl
  · intro a j
    have hslot := slot_or m a ⟨block % blocksPerAtb, Nat.mod_lt _ (by decide)⟩ j
    simpa only [blockShift, Fin.ext_iff] using hslot

theorem kind_anyToFree (t : Tables L) {block : Nat} (h : block < L.blocks) (c : Nat) :
    (t.anyToFree block).kind c = if c = block then .free else t.kind c := by
  rw [anyToFree, kind_and t h]
  -- whatever was there, both bits are off
  cases t.kind block <;> rfl

theorem kind_freeToHead (t : Tables L) {block : Nat} (h : block < L.blocks)
    (hfree : t.kind block = .free) (c : Nat) :
    (t.freeToHead block).kind c = if c = block then .head else t.kind c := by
  rw [freeToHead, kind_or t h, hfree]
  rfl

theorem kind_freeToTail (t : Tables L) {block : Nat} (h : block < L.blocks)
    (hfree : t.kind block = .free) (c : Nat) :
    (t.freeToTail block).kind c = if c = block then .tail else t.kind c := by
  rw [freeToTail, kind_or t h, hfree]
  rfl

theorem kind_headToMark (t : Tables L) {block : Nat} (h : block < L.blocks) (c : Nat) :
    (t.headToMark block).kind c = if c = block then .mark else t.kind c := by
  rw [headToMark, kind_or t h]
  -- whatever was there, both bits are on
  cases t.kind block <;> rfl

theorem kind_markToHead (t : Tables L) {block : Nat} (h : block < L.blocks)
    (hmark : t.kind block = .mark) (c : Nat) :
    (t.markToHead block).kind c = if c = block then .head else t.kind c := by
  rw [markToHead, kind_and t h, hmark]
  rfl

@[simp] theorem kind_clear (c : Nat) : (clear L).kind c = .free := by
  rw [kind, byte_clear]
  cases hslot : blockShift c <;> simp [Kind.ofBits, Kind.bits]

/-- What one of the checks of `gc_alloc` sees. -/
theorem atbIsFree_iff (t : Tables L) (i : Nat) (slot : Fin 4) :
    atbIsFree (t.byte i) slot = decide (t.kind (blocksPerAtb * i + slot.val) = .free) := by
  have hslot : ∀ (a : BitVec 8) (j : Fin 4),
      atbIsFree a j = decide (Kind.ofBits ((a >>> (2 * j.val)) &&& 3) = .free) := by
    -- for all bytes and slots
    decide +kernel
  have hlt : slot.val < blocksPerAtb := slot.isLt
  have hdiv : (blocksPerAtb * i + slot.val) / blocksPerAtb = i := by
    rw [Nat.mul_add_div (by decide), Nat.div_eq_of_lt hlt, Nat.add_zero]
  have hmod : (blocksPerAtb * i + slot.val) % blocksPerAtb = slot.val := by
    rw [Nat.mul_add_mod, Nat.mod_eq_of_lt hlt]
  rw [hslot, kind, hdiv, blockShift, hmod]

/-! ## The finaliser flags -/

theorem ftb_lt {block : Nat} (h : block < L.blocks) :
    block / blocksPerFtb < L.finaliserTableByteLen := by
  apply Nat.div_lt_of_lt_mul
  have := L.finaliser_le
  rw [Nat.mul_comm]
  exact Nat.lt_of_lt_of_le h this

theorem ftbGet_modify (t : Tables L) {block : Nat} (h : block < L.blocks)
    {f : BitVec 8 → BitVec 8} {v : Bool}
    (hf : ∀ (a : BitVec 8) (j : Fin 8), ((f a >>> j.val) &&& 1 == 1) =
      if block % 8 = j.val then v else ((a >>> j.val) &&& 1 == 1)) (c : Nat) :
    (t.modify (L.allocTableByteLen + block / blocksPerFtb) f).ftbGet c =
      if c = block then v else t.ftbGet c := by
  have hlt := ftb_lt h
  by_cases hbyte : block / blocksPerFtb = c / blocksPerFtb
  · have hflag := hf (t.byte (L.allocTableByteLen + c / blocksPerFtb))
      ⟨c % 8, Nat.mod_lt _ (by decide)⟩
    dsimp only at hflag
    rw [ftbGet, hbyte, byte_modify_self t f (by omega), hflag]
    -- the same byte: the bit of the block, or another one
    by_cases hmod : block % 8 = c % 8
    · have heq : c = block := by
        rw [← Nat.div_add_mod c blocksPerFtb, ← hbyte]
        change 8 * (block / 8) + c % 8 = block
        omega
      rw [if_pos hmod, if_pos heq]
    · have hne : c ≠ block := fun heq => hmod (by rw [heq])
      rw [if_neg hmod, if_neg hne]
      rfl
  · have hne : c ≠ block := fun heq => hbyte (by rw [heq])
    rw [ftbGet, byte_modify_of_ne t f (by omega), if_neg hne]
    rfl

theorem ftbGet_ftbSet (t : Tables L) {block : Nat} (h : block < L.blocks) (c : Nat) :
    (t.ftbSet block).ftbGet c = if c = block then true else t.ftbGet c := by
  apply ftbGet_modify t h
  intro a j
  have hflag := flag_or a ⟨block % 8, Nat.mod_lt _ (by decide)⟩ j
  simpa only [Fin.ext_iff] using hflag

theorem ftbGet_ftbClear (t : Tables L) {block : Nat} (h : block < L.blocks) (c : Nat) :
    (t.ftbClear block).ftbGet c = if c = block then false else t.ftbGet c := by
  apply ftbGet_modify t h
  intro a j
  have hflag := flag_and a ⟨block % 8, Nat.mod_lt _ (by decide)⟩ j
  simpa only [Fin.ext_iff] using hflag

/-- The finaliser table is behind the kinds of all blocks. -/
theorem kind_modify_ftb (t : Tables L) (i : Nat) (f : BitVec 8 → BitVec 8) {c : Nat}
    (hc : c < L.blocks) : (t.modify (L.allocTableByteLen + i) f).kind c = t.kind c := by
  have hlt := atb_lt hc
  rw [kind, byte_modify_of_ne t f (by omega)]
  rfl

/-- A write to the allocation table leaves the flags alone. -/
theorem ftbGet_modify_atb (t : Tables L) {i : Nat} (hi : i < L.allocTableByteLen)
    (f : BitVec 8 → BitVec 8) (c : Nat) : (t.modify i f).ftbGet c = t.ftbGet c := by
  have hne : i ≠ L.allocTableByteLen + c / blocksPerFtb :=
    Nat.ne_of_lt (Nat.lt_of_lt_of_le hi (Nat.le_add_right _ _))
  rw [ftbGet, byte_modify_of_ne t f hne]
  rfl

@[simp] theorem ftbGet_clear (c : Nat) : (clear L).ftbGet c = false := by
  rw [ftbGet, byte_clear]
  simp

end Tables

end EfiLvgl.Gc
