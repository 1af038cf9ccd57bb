import EfiLvgl.Lib.CString
import Mathlib.Data.UInt

/-!
# EfiLvgl.Repl.Vstr — variable strings

The operations of `vstr.c` that the REPL uses. A string has a buffer of which the first
`len` bytes are in use; shortening it leaves the bytes behind, and the buffer grows when
the heap has a larger block. Each operation has one lemma that says what becomes of the
length (`Fits` keeps the buffer within the heap).
-/

namespace EfiLvgl.Repl

open EfiLvgl.CString

/-- `mHeapSize`, 64 MB. -/
def mHeapSize : Nat := 0x4000000

/-- The MicroPython heap at one moment: the sizes of which a block can be had. -/
structure Heap where
  gets : Nat → Bool
  gets_le : ∀ size, gets size = true → size ≤ mHeapSize

/-- A heap of which all can be had. -/
def wholeHeap : Heap where
  gets size := size ≤ mHeapSize
  gets_le _ h := of_decide_eq_true h

/-- `vstr_t`; `alloc` is the length of the buffer. -/
structure Vstr where
  buf : List UInt8
  len : Nat
  deriving DecidableEq, Repr

/-- The bytes in use. -/
def Vstr.text (v : Vstr) : List UInt8 := v.buf.take v.len

/-- `ROUND_ALLOC`, which masks with 32 bits. -/
def roundAlloc (a : Nat) : Nat := a % 2 ^ 32 / 8 * 8 + 8

/-- `m_renew`; without a block it raises a `MemoryError`. -/
def renew (heap : Heap) (buf : List UInt8) (newAlloc : Nat) : Option (List UInt8) :=
  if heap.gets newAlloc then
    some (buf.take newAlloc ++ List.replicate (newAlloc - buf.length) 0)
  else none

/-- `vstr_ensure_extra`. -/
def Vstr.ensureExtra (heap : Heap) (v : Vstr) (size : Nat) : Option Vstr :=
  if v.buf.length < v.len + size then
    (renew heap v.buf (roundAlloc (v.len + size + 16))).map fun buf => { v with buf := buf }
  else some v

/-- `vstr_reset`. -/
def Vstr.reset (v : Vstr) : Vstr := { v with len := 0 }

/-- `vstr_null_terminated_str`. -/
def Vstr.nullTerminated (heap : Heap) (v : Vstr) : Option Vstr :=
  let terminate (buf : List UInt8) : Vstr := { v with buf := buf.set v.len 0 }
  if v.buf.length = v.len then (renew heap v.buf (v.buf.length + 1)).map terminate
  else some (terminate v.buf)

/-- `vstr_ins_byte`, and `vstr_ins_char`, which is the same. -/
def Vstr.insByte (heap : Heap) (v : Vstr) (bytePos : Nat) (b : UInt8) : Option Vstr :=
  let bytePos := if v.len < bytePos then v.len else bytePos
  (v.ensureExtra heap 1).map fun w =>
    { buf := (copyMem w.buf (bytePos + 1) bytePos (v.len - bytePos)).set bytePos b
      len := v.len + 1 }

/-- `vstr_add_str`. -/
def Vstr.addStr (heap : Heap) (v : Vstr) (str : List UInt8) : Option Vstr :=
  (v.ensureExtra heap str.length).map fun w =>
    { buf := w.buf.take v.len ++ str ++ w.buf.drop (v.len + str.length)
      len := v.len + str.length }

/-- `vstr_cut_tail_bytes`. -/
def Vstr.cutTailBytes (v : Vstr) (len : Nat) : Vstr :=
  if v.len < len then { v with len := 0 } else { v with len := v.len - len }

/-- `vstr_cut_out_bytes`. -/
def Vstr.cutOutBytes (v : Vstr) (bytePos bytesToCut : Nat) : Vstr :=
  if v.len ≤ bytePos then v
  else if v.len ≤ bytePos + bytesToCut then { v with len := bytePos }
  else
    { buf := copyMem v.buf bytePos (bytePos + bytesToCut) (v.len - bytePos - bytesToCut)
      len := v.len - bytesToCut }

/-! ## Lengths -/

/-- The buffer holds the string, and the heap the buffer. -/
structure Vstr.Fits (v : Vstr) : Prop where
  len_le : v.len ≤ v.buf.length
  alloc_le : v.buf.length ≤ mHeapSize

theorem Vstr.Fits.le {v : Vstr} (h : v.Fits) : v.len ≤ mHeapSize := h.len_le.trans h.alloc_le

theorem Vstr.Fits.shorten {v : Vstr} (h : v.Fits) {len : Nat} (hlen : len ≤ v.len) :
    Vstr.Fits { v with len := len } :=
  ⟨hlen.trans h.len_le, h.alloc_le⟩

theorem length_copyMem {mem : List UInt8} {dst src n : Nat} (hdst : dst + n ≤ mem.length)
    (hsrc : src + n ≤ mem.length) : (copyMem mem dst src n).length = mem.length := by
  simp only [copyMem, List.length_append, List.length_take, List.length_drop]
  omega

theorem renew_eq_some {heap : Heap} {buf buf' : List UInt8} {newAlloc : Nat}
    (h : renew heap buf newAlloc = some buf') :
    newAlloc ≤ mHeapSize ∧ buf'.length = newAlloc := by
  rw [renew] at h
  split at h
  · next hgets =>
      cases h
      refine ⟨heap.gets_le _ hgets, ?_⟩
      rw [List.length_append, List.length_take, List.length_replicate]
      omega
  · cases h

section Operations

variable {heap : Heap} {v w : Vstr}

theorem Vstr.ensureExtra_fits (hv : v.Fits) {size : Nat} (hsize : size ≤ mHeapSize)
    (h : v.ensureExtra heap size = some w) :
    w.len = v.len ∧ v.len + size ≤ w.buf.length ∧ w.buf.length ≤ mHeapSize := by
  have hlen := hv.le
  rw [Vstr.ensureExtra] at h
  split at h
  · obtain ⟨buf, hrenew, rfl⟩ := Option.map_eq_some_iff.mp h
    obtain ⟨hheap, hlength⟩ := renew_eq_some hrenew
    refine ⟨rfl, ?_, hlength ▸ hheap⟩
    rw [hlength, roundAlloc]
    rw [mHeapSize] at hlen hsize
    omega
  · cases h
    exact ⟨rfl, by omega, hv.alloc_le⟩

theorem Vstr.nullTerminated_fits (hv : v.Fits) (h : v.nullTerminated heap = some w) :
    w.Fits ∧ w.len = v.len ∧ w.text = v.text := by
  rw [Vstr.nullTerminated] at h
  split at h
  · next hfull =>
      obtain ⟨buf, hrenew, rfl⟩ := Option.map_eq_some_iff.mp h
      obtain ⟨hheap, hlength⟩ := renew_eq_some hrenew
      refine ⟨⟨?_, ?_⟩, rfl, ?_⟩
      · rw [List.length_set, hlength, hfull]
        exact Nat.le_succ _
      · rw [List.length_set, hlength]
        exact hheap
      · -- the new byte is behind the old ones
        rw [renew] at hrenew
        split at hrenew
        · cases hrenew
          simp [Vstr.text, ← hfull, List.take_of_length_le (Nat.le_succ v.buf.length)]
        · cases hrenew
  · cases h
    refine ⟨⟨?_, ?_⟩, rfl, ?_⟩
    · rw [List.length_set]
      exact hv.len_le
    · rw [List.length_set]
      exact hv.alloc_le
    · exact List.take_set_of_le (Nat.le_refl v.len)

/-- The string ends at the new byte at the latest. -/
theorem Vstr.nullTerminated_cstr (hv : v.Fits) (h : v.nullTerminated heap = some w) :
    cstr w.buf = cstr v.text := by
  obtain ⟨hw, hlen, htext⟩ := Vstr.nullTerminated_fits hv h
  have hzero : w.buf[v.len]? = some 0 := by
    rw [Vstr.nullTerminated] at h
    split at h
    · next hfull =>
        obtain ⟨buf, hrenew, rfl⟩ := Option.map_eq_some_iff.mp h
        obtain ⟨-, hlength⟩ := renew_eq_some hrenew
        exact List.getElem?_set_self (by omega)
    · next hfull =>
        have hle := hv.len_le
        cases h
        exact List.getElem?_set_self (by omega)
  obtain ⟨hlt, hbyte⟩ := List.getElem?_eq_some_iff.mp hzero
  have hsplit : w.buf = v.text ++ 0 :: w.buf.drop (v.len + 1) := by
    rw [← htext, Vstr.text, hlen, ← hbyte, ← List.drop_eq_getElem_cons hlt,
      List.take_append_drop]
  rw [hsplit, cstr_terminated]

theorem Vstr.insByte_fits (hv : v.Fits) {bytePos : Nat} {b : UInt8}
    (h : v.insByte heap bytePos b = some w) : w.Fits ∧ w.len = v.len + 1 := by
  have hone : 1 ≤ mHeapSize := by decide
  obtain ⟨w', hextra, rfl⟩ := Option.map_eq_some_iff.mp h
  obtain ⟨-, hroom, hheap⟩ := Vstr.ensureExtra_fits hv hone hextra
  have hlength : (copyMem w'.buf ((if v.len < bytePos then v.len else bytePos) + 1)
      (if v.len < bytePos then v.len else bytePos)
      (v.len - if v.len < bytePos then v.len else bytePos)).length = w'.buf.length := by
    refine length_copyMem ?_ ?_
    · split
      · omega
      · omega
    · split
      · omega
      · omega
  refine ⟨⟨?_, ?_⟩, rfl⟩
  · rw [List.length_set, hlength]
    exact hroom
  · rw [List.length_set, hlength]
    exact hheap

theorem Vstr.addStr_fits (hv : v.Fits) {str : List UInt8} (hstr : str.length ≤ mHeapSize)
    (h : v.addStr heap str = some w) : w.Fits ∧ w.len = v.len + str.length := by
  obtain ⟨w', hextra, rfl⟩ := Option.map_eq_some_iff.mp h
  obtain ⟨-, hroom, hheap⟩ := Vstr.ensureExtra_fits hv hstr hextra
  have hlength : (w'.buf.take v.len ++ str ++ w'.buf.drop (v.len + str.length)).length =
      w'.buf.length := by
    simp only [List.length_append, List.length_take, List.length_drop]
    omega
  refine ⟨⟨?_, ?_⟩, rfl⟩
  · rw [hlength]
    exact hroom
  · rw [hlength]
    exact hheap

/-- One byte is cut out. -/
theorem Vstr.cutOutBytes_fits (hv : v.Fits) {bytePos : Nat} (hpos : bytePos < v.len) :
    (v.cutOutBytes bytePos 1).Fits ∧ (v.cutOutBytes bytePos 1).len = v.len - 1 := by
  have hlen := hv.len_le
  rw [Vstr.cutOutBytes, if_neg (Nat.not_le_of_lt hpos)]
  split
  · exact ⟨hv.shorten hpos.le, by simp only; omega⟩
  · have hlength : (copyMem v.buf bytePos (bytePos + 1) (v.len - bytePos - 1)).length =
        v.buf.length := length_copyMem (by omega) (by omega)
    refine ⟨⟨?_, ?_⟩, rfl⟩
    · rw [hlength]
      simp only
      omega
    · rw [hlength]
      exact hv.alloc_le

end Operations

end EfiLvgl.Repl
