import EfiLvgl.Gc.Table
import Mathlib.Algebra.Group.Nat.Even

/-!
# EfiLvgl.Gc.Model — the heap of `py/gc.c`

The functions of `py/gc.c` over the two tables and the words of the pool. A function answers
`none` where the source does something that has no meaning in the heap: an assertion fails, a walk
along a chain of tail blocks leaves the allocation table (behind it `ATB_GET_KIND` reads the
finaliser table), or `gc_alloc` computes a block before the first one. That this happens, and
when, is the subject of `EfiLvgl.Gc.Alloc` and `EfiLvgl.Gc.Chain`.
-/

namespace EfiLvgl.Gc

/-- `WORDS_PER_BLOCK` -/
def wordsPerBlock : Nat := 4

/-- The numbers that a `size_t` holds. -/
def Layout.sizes (L : Layout) : Nat := 2 ^ (8 * L.bytesPerWord)

/-- The fields `gc_*` of `MP_STATE_MEM` and the words of the pool. -/
@[ext]
structure Heap (L : Layout) where
  tables : Tables L
  words : Nat → Nat
  lastFreeAtbIndex : Nat
  lockDepth : Nat
  autoCollectEnabled : Bool
  allocThreshold : Nat
  allocAmount : Nat
  stackOverflow : Bool
  collected : Nat

/-- What a collection meets outside the heap: the root words of `mp_state_ctx`, those of the
registers and the stack, and what the `__del__` method of the object in a block does to the
words of the pool (nothing, if it has none). -/
structure World where
  ctx : List Nat
  regsAndStack : List Nat
  del : Nat → (Nat → Nat) → (Nat → Nat)

namespace Heap

variable {L : Layout}

/-- `gc_init`, behind the layout. -/
def init (L : Layout) (words : Nat → Nat) : Heap L where
  tables := Tables.clear L
  words := words
  lastFreeAtbIndex := 0
  lockDepth := 0
  autoCollectEnabled := true
  allocThreshold := L.sizes - 1
  allocAmount := 0
  stackOverflow := false
  collected := 0

def kind (h : Heap L) (block : Nat) : Kind := h.tables.kind block

/-! ## Locking -/

/-- `gc_lock`; the depth is a `uint16_t`. -/
def gcLock (h : Heap L) : Heap L := { h with lockDepth := (h.lockDepth + 1) % 65536 }

def gcUnlock (h : Heap L) : Heap L := { h with lockDepth := (h.lockDepth + 65535) % 65536 }

/-! ## Chains -/

/-- `do { n_blocks += 1; } while (ATB_GET_KIND(block + n_blocks) == AT_TAIL);`
There is fuel for all blocks of the pool and the one behind them. -/
def countTail (h : Heap L) (block : Nat) : Nat → Nat → Option Nat
  | 0, _ => none
  | fuel + 1, nBlocks =>
      if h.kind (block + nBlocks) = .tail then countTail h block fuel (nBlocks + 1)
      else some nBlocks

/-- The number of blocks in the chain that starts with the block. -/
def chainBlocks (h : Heap L) (block : Nat) : Option Nat :=
  countTail h block (L.blocks - block) 1

/-- The words of a run of blocks. -/
def blockWords (h : Heap L) (block nBlocks : Nat) : List Nat :=
  (List.range (nBlocks * wordsPerBlock)).map fun i => h.words (block * wordsPerBlock + i)

/-- `memset(…, 0, …)` on a run of blocks. -/
def zeroBlocks (words : Nat → Nat) (block nBlocks : Nat) : Nat → Nat := fun i =>
  if block * wordsPerBlock ≤ i ∧ i < (block + nBlocks) * wordsPerBlock then 0 else words i

/-- `memcpy` of a run of blocks. -/
def copyBlocks (words : Nat → Nat) (dst src nBlocks : Nat) : Nat → Nat := fun i =>
  if dst * wordsPerBlock ≤ i ∧ i < (dst + nBlocks) * wordsPerBlock then
    words (src * wordsPerBlock + (i - dst * wordsPerBlock))
  else words i

/-! ## Marking -/

/-- The loop of `gc_mark_subtree` over the words of a chain: a child that is an unmarked head
is marked and put on the stack, if there is room for it. -/
def markChildren (h : Heap L) (stack : List Nat) : List Nat → Heap L × List Nat
  | [] => (h, stack)
  | ptr :: ptrs =>
      if L.verifyPtr ptr = true ∧ h.kind (L.blockFromPtr ptr) = .head then
        let h := { h with tables := h.tables.headToMark (L.blockFromPtr ptr) }
        if stack.length < L.gcStackSize then
          markChildren h (L.blockFromPtr ptr :: stack) ptrs
        else
          markChildren { h with stackOverflow := true } stack ptrs
      else markChildren h stack ptrs

/-- The outer loop of `gc_mark_subtree`; the last block put on the stack comes first. -/
def markLoop : Nat → Heap L → Nat → List Nat → Option (Heap L)
  | 0, _, _, _ => none
  | fuel + 1, h, block, stack =>
      match h.chainBlocks block with
      | none => none
      | some nBlocks =>
          match markChildren h stack (h.blockWords block nBlocks) with
          | (h, []) => some h
          | (h, block :: stack) => markLoop fuel h block stack

/-- `gc_mark_subtree`. A block is on the stack once at most, so that this fuel is enough
(`gcMarkSubtree_some`). -/
def gcMarkSubtree (h : Heap L) (block : Nat) : Option (Heap L) :=
  markLoop (L.blocks + 1) h block []

/-- The scan of `gc_deal_with_stack_overflow` over all blocks. -/
def traceMarked : List Nat → Heap L → Option (Heap L)
  | [], h => some h
  | block :: blocks, h =>
      if h.kind block = .mark then (h.gcMarkSubtree block).bind (traceMarked blocks)
      else traceMarked blocks h

/-- `gc_deal_with_stack_overflow`. Each round that overflows has marked a block, so that this
fuel is enough (`gcDealWithStackOverflow_some`). -/
def dealLoop : Nat → Heap L → Option (Heap L)
  | 0, _ => none
  | fuel + 1, h =>
      if h.stackOverflow then
        (traceMarked (List.range L.blocks) { h with stackOverflow := false }).bind (dealLoop fuel)
      else some h

def gcDealWithStackOverflow (h : Heap L) : Option (Heap L) := dealLoop (L.blocks + 2) h

/-! ## Sweeping -/

/-- The finaliser of an unmarked head runs, and its flag is cleared. -/
def finalise (w : World) (h : Heap L) (block : Nat) : Heap L :=
  if h.tables.ftbGet block then
    { h with
      words := if h.words (block * wordsPerBlock) ≠ 0 then w.del block h.words else h.words
      tables := h.tables.ftbClear block }
  else h

/-- The loop of `gc_sweep`. -/
def sweepLoop (w : World) : List Nat → Heap L → Bool → Heap L
  | [], h, _ => h
  | block :: blocks, h, freeTail =>
      match h.kind block with
      | .head =>
          let h := finalise w h block
          sweepLoop w blocks
            { h with tables := h.tables.anyToFree block, collected := h.collected + 1 } true
      | .tail =>
          if freeTail then
            sweepLoop w blocks { h with tables := h.tables.anyToFree block } true
          else sweepLoop w blocks h false
      | .mark => sweepLoop w blocks { h with tables := h.tables.markToHead block } false
      | .free => sweepLoop w blocks h freeTail

/-- `gc_sweep` -/
def gcSweep (w : World) (h : Heap L) : Heap L :=
  sweepLoop w (List.range L.blocks) { h with collected := 0 } false

/-! ## Collecting -/

/-- `gc_collect_root` -/
def gcCollectRoot : List Nat → Heap L → Option (Heap L)
  | [], h => some h
  | ptr :: ptrs, h =>
      if L.verifyPtr ptr = true ∧ h.kind (L.blockFromPtr ptr) = .head then
        let h := { h with tables := h.tables.headToMark (L.blockFromPtr ptr) }
        (h.gcMarkSubtree (L.blockFromPtr ptr)).bind (gcCollectRoot ptrs)
      else gcCollectRoot ptrs h

/-- `gc_collect_start` -/
def gcCollectStart (w : World) (h : Heap L) : Option (Heap L) :=
  gcCollectRoot w.ctx { h.gcLock with allocAmount := 0, stackOverflow := false }

/-- `gc_collect_end` -/
def gcCollectEnd (w : World) (h : Heap L) : Option (Heap L) :=
  h.gcDealWithStackOverflow.map fun h =>
    ({ gcSweep w h with lastFreeAtbIndex := 0 } : Heap L).gcUnlock

/-- `gc_collect` of the port. -/
def gcCollect (w : World) (h : Heap L) : Option (Heap L) :=
  (h.gcCollectStart w).bind fun h =>
    (gcCollectRoot w.regsAndStack h).bind fun h => h.gcCollectEnd w

/-! ## Allocating -/

/-- `n_bytes` rounded up to blocks; the addition wraps around. -/
def bytesToBlocks (L : Layout) (nBytes : Nat) : Nat :=
  (nBytes + L.bytesPerBlock - 1) % L.sizes / L.bytesPerBlock

/-- `if (ATB_k_IS_FREE(a)) { if (++n_free >= n_blocks) goto found; } else { n_free = 0; }`
An `error` is the jump, with the block and `n_free`. -/
def checkSlot (isFree : Bool) (nBlocks block nFree : Nat) : Except (Nat × Nat) Nat :=
  if isFree then
    if nBlocks ≤ nFree + 1 then .error (block, nFree + 1) else .ok (nFree + 1)
  else .ok 0

/-- The four checks of one byte. -/
def scanByte (a : BitVec 8) (nBlocks i nFree : Nat) : Except (Nat × Nat) Nat := do
  let nFree ← checkSlot (Tables.atbIsFree a 0) nBlocks (i * blocksPerAtb + 0) nFree
  let nFree ← checkSlot (Tables.atbIsFree a 1) nBlocks (i * blocksPerAtb + 1) nFree
  let nFree ← checkSlot (Tables.atbIsFree a 2) nBlocks (i * blocksPerAtb + 2) nFree
  checkSlot (Tables.atbIsFree a 3) nBlocks (i * blocksPerAtb + 3) nFree

/-- The scan for a run of free blocks, over the bytes of the table. -/
def scan (t : Tables L) (nBlocks : Nat) : List Nat → Nat → Except (Nat × Nat) Nat
  | [], nFree => .ok nFree
  | i :: is, nFree => scanByte (t.byte i) nBlocks i nFree >>= scan t nBlocks is

/-- The bytes that the scan looks at. -/
def scanFrom (h : Heap L) (nBlocks nFree : Nat) : Except (Nat × Nat) Nat :=
  scan h.tables nBlocks
    (List.range' h.lastFreeAtbIndex (L.allocTableByteLen - h.lastFreeAtbIndex)) nFree

/-- The tail blocks of a new chain. -/
def freeToTails (t : Tables L) : List Nat → Tables L
  | [] => t
  | block :: blocks => freeToTails (t.freeToTail block) blocks

/-- What `gc_alloc` does at `found`, with the block the scan ended at. `start_block` wraps around
when more free blocks were counted than there are up to this one. -/
def allocAt (h : Heap L) (i nFree : Nat) (hasFinaliser : Bool) : Option (Heap L × Nat) :=
  if i + 1 < nFree then none
  else
    let startBlock := i + 1 - nFree
    let tables :=
      freeToTails (h.tables.freeToHead startBlock) (List.range' (startBlock + 1) (nFree - 1))
    some ({ h with
      tables := if hasFinaliser then tables.ftbSet startBlock else tables
      words := zeroBlocks h.words startBlock nFree
      lastFreeAtbIndex := if nFree = 1 then (i + 1) / blocksPerAtb else h.lastFreeAtbIndex
      allocAmount := (h.allocAmount + nFree) % L.sizes }, L.ptrFromBlock startBlock)

/-- The collection that `gc_alloc` begins with when enough was allocated since the last one. -/
def thresholdCollect (w : World) (h : Heap L) : Option (Heap L) :=
  if h.autoCollectEnabled && decide (h.allocThreshold ≤ h.allocAmount) then h.gcCollect w
  else some h

/-- The second round of the loop, behind a collection. `n_free` is not set back to 0. -/
def allocAgain (w : World) (h : Heap L) (nBlocks nFree : Nat) (hasFinaliser : Bool) :
    Option (Heap L × Nat) :=
  (h.gcCollect w).bind fun h =>
  match h.scanFrom nBlocks nFree with
  | .error (i, nFree) => h.allocAt i nFree hasFinaliser
  | .ok _ => some (h, 0)

/-- The first round of the loop. -/
def allocFirst (w : World) (h : Heap L) (nBlocks : Nat) (hasFinaliser : Bool) :
    Option (Heap L × Nat) :=
  match h.scanFrom nBlocks 0 with
  | .error (i, nFree) => h.allocAt i nFree hasFinaliser
  | .ok nFree =>
      if h.autoCollectEnabled then h.allocAgain w nBlocks nFree hasFinaliser else some (h, 0)

/-- `gc_alloc`; the pointer 0 is `NULL`. A collection leaves `gc_auto_collect_enabled` alone, so
that it is looked at where the source has the variable `collected`. -/
def gcAlloc (w w' : World) (h : Heap L) (nBytes : Nat) (hasFinaliser : Bool) :
    Option (Heap L × Nat) :=
  if bytesToBlocks L nBytes = 0 then some (h, 0)
  else if 0 < h.lockDepth then some (h, 0)
  else
    (h.thresholdCollect w).bind fun h =>
      h.allocFirst w' (bytesToBlocks L nBytes) hasFinaliser

/-! ## Freeing -/

/-- `if (block / BLOCKS_PER_ATB < gc_last_free_atb_index) { … }` -/
def lowerLastFree (h : Heap L) (block : Nat) : Nat :=
  if block / blocksPerAtb < h.lastFreeAtbIndex then block / blocksPerAtb else h.lastFreeAtbIndex

/-- `do { ATB_ANY_TO_FREE(block); block += 1; } while (ATB_GET_KIND(block) == AT_TAIL);` -/
def freeChain : Nat → Tables L → Nat → Option (Tables L)
  | 0, _, _ => none
  | fuel + 1, t, block =>
      if (t.anyToFree block).kind (block + 1) = .tail then
        freeChain fuel (t.anyToFree block) (block + 1)
      else some (t.anyToFree block)

/-- `gc_free` -/
def gcFree (h : Heap L) (ptr : Nat) : Option (Heap L) :=
  if 0 < h.lockDepth then some h
  else if ptr = 0 then some h
  else if L.verifyPtr ptr = true ∧ h.kind (L.blockFromPtr ptr) = .head then
    let block := L.blockFromPtr ptr
    (freeChain (L.blocks - block) (h.tables.ftbClear block) block).map fun tables =>
      { h with
        tables := tables
        lastFreeAtbIndex := h.lowerLastFree block }
  else none

/-- `gc_nbytes` -/
def gcNbytes (h : Heap L) (ptr : Nat) : Option Nat :=
  if L.verifyPtr ptr = true ∧ h.kind (L.blockFromPtr ptr) = .head then
    (h.chainBlocks (L.blockFromPtr ptr)).map (· * L.bytesPerBlock)
  else some 0

/-! ## Reallocating -/

/-- The loop of `gc_realloc` that counts the blocks of the chain and the free ones behind it. -/
def countBlocks (t : Tables L) (newBlocks : Nat) : List Nat → Nat → Nat → Nat × Nat
  | [], nBlocks, nFree => (nBlocks, nFree)
  | bl :: bls, nBlocks, nFree =>
      match t.kind bl with
      | .tail => countBlocks t newBlocks bls (nBlocks + 1) nFree
      | .free =>
          if newBlocks ≤ nBlocks + (nFree + 1) then (nBlocks, nFree + 1)
          else countBlocks t newBlocks bls nBlocks (nFree + 1)
      | .head => (nBlocks, nFree)
      | .mark => (nBlocks, nFree)

/-- Tail blocks that are no longer needed. -/
def anyToFrees (t : Tables L) : List Nat → Tables L
  | [] => t
  | block :: blocks => anyToFrees (t.anyToFree block) blocks

/-- The three ways of `gc_realloc` that leave the chain in its place: it has the size, it is
cut, or it takes free blocks behind it. -/
def reallocInPlace (h : Heap L) (block nBlocks newBlocks : Nat) : Option (Heap L) :=
  if newBlocks = nBlocks then some h
  else if newBlocks < nBlocks then
    some { h with
      tables := anyToFrees h.tables (List.range' (block + newBlocks) (nBlocks - newBlocks))
      lastFreeAtbIndex := h.lowerLastFree (block + newBlocks) }
  else if (List.range' (block + nBlocks) (newBlocks - nBlocks)).all (h.kind · == .free) then
    some { h with
      tables := freeToTails h.tables (List.range' (block + nBlocks) (newBlocks - nBlocks))
      words := zeroBlocks h.words (block + nBlocks) (newBlocks - nBlocks) }
  else none

/-- The rest of `gc_realloc`: a new chain, the copy, and the old chain is freed. -/
def reallocMove (w w' : World) (h : Heap L) (ptrIn nBlocks nBytes : Nat) : Option (Heap L × Nat) :=
  (h.gcAlloc w w' nBytes (h.tables.ftbGet (L.blockFromPtr ptrIn))).bind fun (h, ptrOut) =>
    if ptrOut = 0 then some (h, 0)
    else
      (({ h with
        words := copyBlocks h.words (L.blockFromPtr ptrOut) (L.blockFromPtr ptrIn) nBlocks
        } : Heap L).gcFree ptrIn).map fun h => (h, ptrOut)

/-- `gc_realloc` -/
def gcRealloc (w w' : World) (h : Heap L) (ptrIn nBytes : Nat) (allowMove : Bool) :
    Option (Heap L × Nat) :=
  if ptrIn = 0 then h.gcAlloc w w' nBytes false
  else if nBytes = 0 then (h.gcFree ptrIn).map fun h => (h, 0)
  else if 0 < h.lockDepth then some (h, 0)
  else if L.verifyPtr ptrIn = true ∧ h.kind (L.blockFromPtr ptrIn) = .head then
    let block := L.blockFromPtr ptrIn
    let newBlocks := bytesToBlocks L nBytes
    let counted := countBlocks h.tables newBlocks
      (List.range' (block + 1) (L.blocks - (block + 1))) 1 0
    if newBlocks ≤ counted.1 + counted.2 then
      (h.reallocInPlace block counted.1 newBlocks).map fun h => (h, ptrIn)
    else if allowMove then h.reallocMove w w' ptrIn counted.1 nBytes
    else some (h, 0)
  else none

end Heap

end EfiLvgl.Gc
