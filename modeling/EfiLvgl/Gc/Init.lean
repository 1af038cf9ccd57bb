import EfiLvgl.Gc.Keep
import Mathlib.Tactic.Ring

/-!
# EfiLvgl.Gc.Init — laying the heap out

`gc_init` divides a region into the two tables and the pool. `gcInit_proper` says that its assertion
holds, that the three lie in the region one behind the other, and that no longer allocation table
would fit. The heap that it sets up there is well formed.
-/

namespace EfiLvgl.Gc

/-- The areas of the heap. -/
structure Areas where
  allocTableStart : Nat
  allocTableByteLen : Nat
  finaliserTableStart : Nat
  finaliserTableByteLen : Nat
  poolStart : Nat
  poolEnd : Nat
deriving DecidableEq, Repr

def bitsPerByte : Nat := 8

/-- The end pointer on a block boundary; the size of a block is a power of two. -/
def alignEnd (bytesPerWord endPtr : Nat) : Nat := endPtr - endPtr % (4 * bytesPerWord)

/-- `gc_init`, up to its assertion. A `size_t` holds the numbers below `sizes`. -/
def gcInit (sizes bytesPerWord start endPtr : Nat) : Option Areas :=
  let bytesPerBlock := 4 * bytesPerWord
  let endPtr := alignEnd bytesPerWord endPtr
  let totalByteLen := (endPtr + sizes - start) % sizes
  let allocTableByteLen := totalByteLen * bitsPerByte % sizes /
    (bitsPerByte + bitsPerByte * blocksPerAtb / blocksPerFtb +
      bitsPerByte * blocksPerAtb * bytesPerBlock)
  let finaliserTableByteLen := (allocTableByteLen * blocksPerAtb + blocksPerFtb - 1) / blocksPerFtb
  let finaliserTableStart := start + allocTableByteLen
  let poolBlockLen := allocTableByteLen * blocksPerAtb
  let poolStart := endPtr - poolBlockLen * bytesPerBlock
  if finaliserTableStart + finaliserTableByteLen ≤ poolStart then
    some { allocTableStart := start
           allocTableByteLen := allocTableByteLen
           finaliserTableStart := finaliserTableStart
           finaliserTableByteLen := finaliserTableByteLen
           poolStart := poolStart
           poolEnd := endPtr }
  else none

/-- The bytes that an allocation table of some length needs, with what goes with it. -/
def neededBytes (bytesPerWord len : Nat) : Nat :=
  len + (len * blocksPerAtb + blocksPerFtb - 1) / blocksPerFtb +
    len * blocksPerAtb * (4 * bytesPerWord)

/-- The areas lie in the region, and the tables are as long as they can be. -/
structure Areas.Proper (a : Areas) (bytesPerWord start endPtr : Nat) : Prop where
  start_eq : a.allocTableStart = start
  finaliserStart_eq : a.finaliserTableStart = start + a.allocTableByteLen
  finaliser_le : a.allocTableByteLen * blocksPerAtb ≤ a.finaliserTableByteLen * blocksPerFtb
  tables_le : a.finaliserTableStart + a.finaliserTableByteLen ≤ a.poolStart
  pool_eq : a.poolEnd = a.poolStart + a.allocTableByteLen * blocksPerAtb * (4 * bytesPerWord)
  end_eq : a.poolEnd = alignEnd bytesPerWord endPtr
  aligned : a.poolStart % (4 * bytesPerWord) = 0
  longest : ∀ len, start + neededBytes bytesPerWord len ≤ alignEnd bytesPerWord endPtr ↔
    len ≤ a.allocTableByteLen

/-- The layout of proper areas. -/
def Areas.Proper.layout {a : Areas} {bytesPerWord start endPtr : Nat}
    (ha : a.Proper bytesPerWord start endPtr) (hword : 0 < bytesPerWord) (hstart : 0 < start)
    (gcStackSize : Nat) : Layout where
  bytesPerWord := bytesPerWord
  gcStackSize := gcStackSize
  allocTableStart := a.allocTableStart
  allocTableByteLen := a.allocTableByteLen
  finaliserTableByteLen := a.finaliserTableByteLen
  poolStart := a.poolStart
  poolEnd := a.poolEnd
  word_pos := hword
  start_pos := by
    rw [ha.start_eq]
    exact hstart
  finaliser_le := ha.finaliser_le
  tables_le := by
    rw [ha.start_eq, ← ha.finaliserStart_eq]
    exact ha.tables_le
  pool_eq := ha.pool_eq
  aligned := ha.aligned

/-- The length that `gc_init` computes is the longest that fits. -/
theorem longest_table (bytesPerWord total len : Nat) :
    neededBytes bytesPerWord len ≤ total ↔
      len ≤ total * bitsPerByte / (bitsPerByte + bitsPerByte * blocksPerAtb / blocksPerFtb +
        bitsPerByte * blocksPerAtb * (4 * bytesPerWord)) := by
  have hdiv : 0 < bitsPerByte + bitsPerByte * blocksPerAtb / blocksPerFtb +
      bitsPerByte * blocksPerAtb * (4 * bytesPerWord) :=
    Nat.add_pos_left (Nat.add_pos_left (by decide) _) _
  rw [Nat.le_div_iff_mul_le hdiv, neededBytes]
  -- a byte of the table stands for four blocks and half a byte of flags
  have hmul : len * (bitsPerByte + bitsPerByte * blocksPerAtb / blocksPerFtb +
      bitsPerByte * blocksPerAtb * (4 * bytesPerWord)) =
      12 * len + 128 * (len * bytesPerWord) := by
    unfold bitsPerByte blocksPerAtb blocksPerFtb
    ring
  have hpool : len * blocksPerAtb * (4 * bytesPerWord) = 16 * (len * bytesPerWord) := by
    unfold blocksPerAtb
    ring
  rw [hmul, hpool]
  unfold bitsPerByte blocksPerAtb blocksPerFtb
  generalize len * bytesPerWord = product
  omega

/-- `gc_init` lays the heap out in every region whose length in bits is a `size_t`. -/
theorem gcInit_proper {sizes bytesPerWord start endPtr : Nat}
    (hle : start ≤ alignEnd bytesPerWord endPtr)
    (hbits : (alignEnd bytesPerWord endPtr - start) * bitsPerByte < sizes) :
    ∃ a, gcInit sizes bytesPerWord start endPtr = some a ∧ a.Proper bytesPerWord start endPtr := by
  have halign : alignEnd bytesPerWord endPtr % (4 * bytesPerWord) = 0 :=
    Nat.sub_mod_eq_zero_of_mod_eq (Nat.mod_mod _ _).symm
  have hbits' : alignEnd bytesPerWord endPtr - start < sizes := by
    unfold bitsPerByte at hbits
    omega
  generalize hstop : alignEnd bytesPerWord endPtr = stop at *
  -- the distance does not wrap around
  have htotal : (stop + sizes - start) % sizes = stop - start := by
    rw [show stop + sizes - start = stop - start + sizes by omega, Nat.add_mod_right,
      Nat.mod_eq_of_lt hbits']
  have hlongest := longest_table bytesPerWord (stop - start)
  rw [gcInit, hstop, htotal, Nat.mod_eq_of_lt hbits]
  generalize (stop - start) * bitsPerByte /
    (bitsPerByte + bitsPerByte * blocksPerAtb / blocksPerFtb +
    bitsPerByte * blocksPerAtb * (4 * bytesPerWord)) = len at hlongest ⊢
  -- the table that is computed fits, and a longer one does not
  have hfits := (hlongest len).mpr (Nat.le_refl len)
  rw [neededBytes] at hfits
  generalize hflen : (len * blocksPerAtb + blocksPerFtb - 1) / blocksPerFtb = flen at hfits ⊢
  rw [if_pos (by omega)]
  refine ⟨_, rfl, rfl, rfl, ?_, ?_, ?_, hstop.symm, ?_, ?_⟩
  · unfold blocksPerAtb blocksPerFtb at *
    dsimp only
    omega
  · dsimp only
    omega
  · dsimp only
    omega
  · dsimp only
    exact Nat.sub_mod_eq_zero_of_mod_eq (halign.trans (Nat.mul_mod_left _ _).symm)
  · intro n
    dsimp only
    rw [← hlongest, hstop]
    omega

theorem gcInit_proper_page :
    ∃ a, gcInit (2 ^ 64) 8 4096 8200 = some a ∧ a.Proper 8 4096 8200 :=
  gcInit_proper (by decide) (by decide)

example : gcInit (2 ^ 64) 8 4096 8200 = some ⟨4096, 31, 4127, 16, 4224, 8192⟩ := by decide

end EfiLvgl.Gc
