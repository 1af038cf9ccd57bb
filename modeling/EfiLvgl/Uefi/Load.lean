import EfiLvgl.Lib.Ram
import EfiLvgl.Uefi.Bounds

/-!
# EfiLvgl.Uefi.Load — loading through a `mem` object

`get_value` is what `m[i]`, `m[i:j]` and `m.VALUE` end in. `getValue` is the whole of it:
integers, texts and GUIDs as well as the objects that `getMem` is about
(`getMem_eq_getValue`). Integer objects are given by their value. The functions of the
firmware's libraries that loads call are gathered in `LoadLib`.

What a store leaves behind is memory again (`Store.apply`), in which an address counts
modulo a word.
-/

namespace EfiLvgl.Uefi

/-! ## Results -/

/-- What `get_value` returns. -/
inductive PyObj where
  | false
  | none
  | int (i : Int)
  | str (data : List UInt8)
  | mem (m : Mem)

/-- The object that a result is. -/
def PyObj.mem? : PyObj → Option Mem
  | .mem m => some m
  | _ => Option.none

/-- The library functions that loads call: bit fields of integers, and the text of a GUID,
which `AsciiSPrint` cuts at 36 characters. -/
structure LoadLib where
  bitFieldRead : Nat → Nat → Nat → Nat → Nat
  guidToString : List UInt8 → List UInt8

/-! ## Elements -/

/-- An integer of `n` bytes with its sign. -/
def readSigned (memory : Nat → UInt8) (addr n : Nat) : Int :=
  let x := readUnit memory addr n
  if 2 * x < 256 ^ n then x else (x : Int) - 256 ^ n

/-- `get_bits`. It reads no more than it takes to get at the last bit. -/
def getBits (lib : LoadLib) (memory : Nat → UInt8) (self : Mem) : Int :=
  let bitend := self.bitoff + self.bitnum - 1
  if bitend < 8 then lib.bitFieldRead 1 (readUnit memory self.addr 1) self.bitoff bitend
  else if bitend < 16 then lib.bitFieldRead 2 (readUnit memory self.addr 2) self.bitoff bitend
  else if bitend < 32 then lib.bitFieldRead 4 (readUnit memory self.addr 4) self.bitoff bitend
  else lib.bitFieldRead 8 (readUnit memory self.addr 8) self.bitoff bitend

/-- The cases of `get_value`'s switch. -/
inductive LoadKind where
  | signed (width : Nat)
  | unsigned (width : Nat)
  | pointer
  | guid
  | ascii
  | unicode
  | object
deriving DecidableEq, Repr

/-- The case for `typechar`, `none` for the one that raises. -/
def loadKind (a : Arch) : Char → Option LoadKind
  | 'b' => some (.signed 1)
  | 'B' => some (.unsigned 1)
  | 'h' => some (.signed 2)
  | 'H' => some (.unsigned 2)
  | 'i' | 'l' => some (.signed 4)
  | 'I' | 'L' => some (.unsigned 4)
  | 'n' => some (.signed a.ptrSize)
  | 'E' | 'N' => some (.unsigned a.ptrSize)
  | 'q' => some (.signed 8)
  | 'Q' => some (.unsigned 8)
  | 'T' | 'F' | 'P' => some .pointer
  | 'G' => some .guid
  | 'a' => some .ascii
  | 'u' => some .unicode
  | 'O' => some .object
  | _ => none

/-- `typechar`: bytes, when there is no type. -/
def typechar (self : Mem) : Option Char :=
  match self.typespec with
  | none => some 'B'
  | some t => t.head?

/-- `UnicodeToUtf8`, for one character. -/
def utf8OfUnicode (c : UInt16) : List UInt8 :=
  if c < 0x80 then [c.toUInt8]
  else if c < 0x800 then
    [((0xC0 : UInt16) ||| (c >>> 6)).toUInt8, ((0x80 : UInt16) ||| (c &&& 0x3F)).toUInt8]
  else
    [((0xE0 : UInt16) ||| ((c >>> 12) &&& 0x000F)).toUInt8,
      ((0x80 : UInt16) ||| ((c >>> 6) &&& 0x003F)).toUInt8,
      ((0x80 : UInt16) ||| (c &&& 0x003F)).toUInt8]

/-- `UnicodeToUtf8`. -/
def unicodeToUtf8 (s : List UInt16) : List UInt8 := s.flatMap utf8OfUnicode

/-- The text at an address: `AsciiStrLen` characters, but no more than there is room for. -/
def asciiText (memory : Nat → UInt8) (addr size : Nat) : List UInt8 :=
  ((List.range size).map fun k => memory (addr + k)).takeWhile (· ≠ 0)

/-- The text at an address: `StrLen` characters, but no more than there is room for. -/
def unicodeText (memory : Nat → UInt8) (addr size : Nat) : List UInt16 :=
  ((List.range (size / 2)).map fun k => UInt16.ofNat (readUnit memory (addr + k * 2) 2)).takeWhile
    (· ≠ 0)

/-- The switch of `get_value`. -/
def loadElement (a : Arch) (ns : Namespace) (n : Nat) (lib : LoadLib) (memory : Nat → UInt8)
    (self : Mem) (isNone : Bool) (i : Nat) : Res PyObj :=
  match (typechar self).bind (loadKind a) with
  | none => .error (.raise .valueError "Not supported type to subscribe")
  | some (.signed width) => .ok (.int (readSigned memory (self.addr + i * width) width))
  | some (.unsigned width) => .ok (.int (readUnit memory (self.addr + i * width) width))
  | some .pointer =>
      let p := readUnit memory (self.addr + i * a.ptrSize) a.ptrSize
      let pointee := (self.typespec.getD []).tail
      if pointee = [] then .ok (.int p)
      else PyObj.mem <$> efiMemNew a ns n p (some pointee) self.readonly self.page
  | some .guid =>
      let guid := (List.range 16).map fun k => memory (self.addr + i * 16 + k)
      let str := lib.guidToString guid
      if str.length = 36 then .ok (.str str) else .ok .none
  | some .ascii =>
      if isNone then .ok (.str (asciiText memory self.addr self.size))
      else .ok (.int (readSigned memory (self.addr + i) 1))
  | some .unicode =>
      if isNone then .ok (.str (unicodeToUtf8 (unicodeText memory self.addr self.size)))
      else .ok (.int (readUnit memory (self.addr + i * 2) 2))
  | some .object =>
      .ok (.mem { self with
        type := .mem
        addr := (self.addr + i * self.typesize) % a.word
        size := self.typesize })

/-- The object that a slice stands for. -/
def loadSlice (a : Arch) (ns : Namespace) (n : Nat) (self : Mem) (len start stop : Nat) :
    Res PyObj :=
  if 0 < len ∧ len < stop then
    .error (.raise .indexError "Index slice is out of buffer")
  else
    PyObj.mem <$> efiMemNewN a ns n ((self.addr + start * self.typesize) % a.word) (stop - start)
      self.typespec self.readonly self.page

/-- `get_value`. An object of length zero counts as one of the largest length. -/
def getValue (a : Arch) (ns : Namespace) (n : Nat) (lib : LoadLib) (memory : Nat → UInt8)
    (self : Mem) (index : PyIndex) : Res PyObj :=
  if self.addr = 0 then .ok .false
  else if 0 < self.bitnum then .ok (.int (getBits lib memory self))
  else do
    let len ← getInt a (memLen self)
    let len := if len = 0 then a.word - 1 else len.toNat
    match index with
    | .slice start stop step => do
        let bounds ← mpSeqGetFastSliceIndexes a len start stop step
        loadSlice a ns n self len bounds.1 bounds.2
    | index => do
        let i ← elementIndex a self.type len index
        if len < i ∨ 0 < len ∧ i = len then .error (.raise .indexError "Out of buffer")
        else loadElement a ns n lib memory self (index == .none) i

/-! ## The objects among the results -/

theorem map_mem? {r : Res Mem} : PyObj.mem? <$> (PyObj.mem <$> r) = some <$> r := by
  cases r with
  | error e => rfl
  | ok m => rfl

theorem getSlice_eq_loadSlice (a : Arch) (ns : Namespace) (n : Nat) (self : Mem)
    (len start stop : Nat) :
    getSlice a ns n self len start stop = PyObj.mem? <$> loadSlice a ns n self len start stop := by
  unfold getSlice loadSlice
  split
  · rfl
  · exact map_mem?.symm

/-- Plain values are what the switch has besides pointers and structures. -/
theorem loadKind_plain (a : Arch) (c : Char) :
    plainCodes.contains c = true ↔ ∃ kind, loadKind a c = some kind ∧ kind ≠ .pointer ∧
      kind ≠ .object := by
  unfold loadKind
  split <;> simp_all [plainCodes]

theorem loadKind_pointer (a : Arch) (c : Char) :
    loadKind a c = some .pointer ↔ c = 'T' ∨ c = 'F' ∨ c = 'P' := by
  unfold loadKind
  split <;> simp_all

theorem loadKind_object (a : Arch) (c : Char) : loadKind a c = some .object ↔ c = 'O' := by
  unfold loadKind
  split <;> simp_all

theorem getElement_eq_loadElement (a : Arch) (ns : Namespace) (n : Nat) (lib : LoadLib)
    (memory : Nat → UInt8) (self : Mem) (len i : Nat) (isNone : Bool)
    (hin : ¬ (len < i ∨ 0 < len ∧ i = len)) :
    getElement a ns n memory self len i =
      PyObj.mem? <$> loadElement a ns n lib memory self isNone i := by
  unfold getElement
  rw [if_neg hin]
  cases ht : self.typespec with
  | none => simp [loadElement, typechar, ht, loadKind, PyObj.mem?]
  | some t =>
      cases t with
      | nil => simp [loadElement, typechar, ht]
      | cons c rest =>
          have hchar : typechar self = some c := by simp [typechar, ht]
          dsimp only
          by_cases hp : c = 'T' ∨ c = 'F' ∨ c = 'P'
          · have hkind := (loadKind_pointer a c).mpr hp
            rw [if_pos (by simpa using hp)]
            simp only [loadElement, hchar, Option.bind_some, hkind, ht, Option.getD_some]
            by_cases hrest : (c :: rest).tail = []
            · -- a pointer to nothing that is known is a number
              rw [if_pos hrest, if_pos hrest]
              rfl
            · rw [if_neg hrest, if_neg hrest]
              exact map_mem?.symm
          · rw [if_neg (by simpa using hp)]
            by_cases hO : c = 'O'
            · have hkind := (loadKind_object a c).mpr hO
              rw [if_pos (by simpa using hO)]
              simp only [loadElement, hchar, Option.bind_some, hkind, ht]
              rfl
            · rw [if_neg (by simpa using hO)]
              by_cases hplain : plainCodes.contains c = true
              · rw [if_pos (show (c :: rest).head?.any plainCodes.contains = true from hplain)]
                rcases (loadKind_plain a c).mp hplain with ⟨kind, hkind, hptr, hobj⟩
                simp only [loadElement, hchar, Option.bind_some, hkind]
                cases kind with
                | pointer => exact absurd rfl hptr
                | object => exact absurd rfl hobj
                | signed width => rfl
                | unsigned width => rfl
                | guid => dsimp only; split <;> rfl
                | ascii => cases isNone <;> rfl
                | unicode => cases isNone <;> rfl
              · -- both functions raise for a letter that neither of them knows
                rw [if_neg (show ¬ (c :: rest).head?.any plainCodes.contains = true from hplain)]
                have hnone : loadKind a c = none := by
                  cases hkind : loadKind a c with
                  | none => rfl
                  | some kind =>
                      exfalso
                      apply hplain
                      refine (loadKind_plain a c).mpr ⟨kind, hkind, ?_, ?_⟩
                      · rintro rfl
                        exact hp ((loadKind_pointer a c).mp hkind)
                      · rintro rfl
                        exact hO ((loadKind_object a c).mp hkind)
                simp only [loadElement, hchar, Option.bind_some, hnone]
                rfl

/-- The objects among the results of `get_value` are those that `getMem` gives. -/
theorem getMem_eq_getValue (a : Arch) (ns : Namespace) (n : Nat) (lib : LoadLib)
    (memory : Nat → UInt8) (self : Mem) (index : PyIndex) :
    getMem a ns n memory self index =
      PyObj.mem? <$> getValue a ns n lib memory self index := by
  unfold getMem getValue
  by_cases haddr : self.addr = 0
  · rw [if_pos (Or.inl haddr), if_pos haddr]
    rfl
  · rw [if_neg haddr]
    by_cases hbit : 0 < self.bitnum
    · rw [if_pos (Or.inr hbit), if_pos hbit]
      rfl
    · rw [if_neg (not_or.mpr ⟨haddr, hbit⟩), if_neg hbit]
      cases hlen : getInt a (memLen self) with
      | error e => rfl
      | ok len =>
          simp only [bind_ok_left]
          -- an integer and no index reach an element in the same way
          have hindex : ∀ (len : Nat) (isNone : Bool) (r : Res Nat),
              (r >>= fun i => getElement a ns n memory self len i) =
                PyObj.mem? <$> (r >>= fun i =>
                  if len < i ∨ 0 < len ∧ i = len then
                    .error (.raise .indexError "Out of buffer")
                  else loadElement a ns n lib memory self isNone i) := by
            intro len isNone r
            cases r with
            | error e => rfl
            | ok i =>
                simp only [bind_ok_left]
                split
                · next hout =>
                    rw [getElement, if_pos hout]
                    rfl
                · next hin => exact getElement_eq_loadElement a ns n lib memory self len i isNone hin
          cases index with
          | slice start stop step =>
              dsimp only
              cases mpSeqGetFastSliceIndexes a _ start stop step with
              | error e => rfl
              | ok bounds => exact getSlice_eq_loadSlice a ns n self _ _ _
          | none => exact hindex _ _ _
          | int k => exact hindex _ _ _
          | other name => exact hindex _ _ _

/-! ## Memory -/

/-- Memory after the writes of a store. -/
def Store.apply {a : Arch} (s : Store) (ram : Ram a.word) : Ram a.word :=
  s.writes.foldl (fun ram w => ram.write w.addr w.bytes) ram

@[simp] theorem apply_write {a : Arch} (addr : Nat) (bytes : List UInt8) (ram : Ram a.word) :
    (Store.write addr bytes).apply ram = ram.write addr bytes := rfl

theorem leBytes_eq_bytesOf (w : Nat) (i : Int) : leBytes w i = Ram.bytesOf w i := rfl

theorem readUnit_eq (memory : Nat → UInt8) (addr n : Nat) :
    readUnit memory addr n = Ram.ofBytes ((List.range n).map fun k => memory (addr + k)) := by
  have hfold : ∀ ks : List Nat,
      ks.foldr (fun k x => (memory (addr + k)).toNat + 256 * x) 0 =
        Ram.ofBytes (ks.map fun k => memory (addr + k)) := by
    intro ks
    induction ks with
    | nil => rfl
    | cons k ks ih => rw [List.foldr_cons, ih, List.map_cons, Ram.ofBytes]
  exact hfold (List.range n)

theorem readUnit_ram {a : Arch} (ram : Ram a.word) (addr n : Nat) :
    readUnit ram.byte addr n = Ram.ofBytes (ram.read addr n) :=
  readUnit_eq ram.byte addr n

theorem readUnit_lt (memory : Nat → UInt8) (addr n : Nat) : readUnit memory addr n < 256 ^ n := by
  have h := Ram.ofBytes_lt ((List.range n).map fun k => memory (addr + k))
  rw [List.length_map, List.length_range] at h
  rw [readUnit_eq]
  exact h

end EfiLvgl.Uefi
