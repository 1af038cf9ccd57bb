import EfiLvgl.Uefi.Access

/-!
# EfiLvgl.Uefi.Store — storing through a `mem` object

`set_value` is what `m[i] = v`, `m[i:j] = v` and `m.VALUE = v` end in. What it writes
and how it ends is a `Store`: the writes in order, and the exception or fault that
cut it short.

A value is what `set_value` can tell of a Python object: an integer, a text, an object
with a buffer, something that can be iterated over (`PyItems`), or none of these.
Iterables are stored element by element by the same function, so `storeAt` and
`storeItems` recurse over the value. The functions of the firmware's base library that
are called are gathered in `BaseLib`.
-/

namespace EfiLvgl.Uefi

/-! ## Values -/

mutual

/-- A Python object as `set_value` sees it. `mem` is an object of type `mem` or `guid`;
a `buffer` is that of a `bytearray`, an `array` or a `memoryview`. -/
inductive PyVal where
  | int (i : Int)
  | str (isBytes : Bool) (data : List UInt8) (items : PyItems)
  | mem (buffer : Option (List UInt8)) (items : PyItems)
  | fptr (buffer : Option (List UInt8))
  | buffer (data : List UInt8) (items : PyItems)
  | iter (items : PyItems)
  | other (typeName : String)

/-- What iterating over an object gives. -/
inductive PyItems where
  | stop
  | raise (type : ExcType) (msg : String)
  | next (item : PyVal) (rest : PyItems)

end

/-- `mp_obj_get_type_str`, as far as it can be told. -/
def PyVal.typeName : PyVal → String
  | .int _ => "int"
  | .str isBytes _ _ => if isBytes then "bytes" else "str"
  | .mem _ _ => "mem"
  | .fptr _ => "fptr"
  | .buffer _ _ => "bytearray"
  | .iter _ => "iterator"
  | .other name => name

/-- `mp_get_buffer` for reading. -/
def PyVal.getBuffer : PyVal → Option (List UInt8)
  | .str _ data _ => some data
  | .mem buf _ => buf
  | .fptr buf => buf
  | .buffer data _ => some data
  | _ => none

/-- Whether the type has `getiter`. -/
def PyVal.hasIter : PyVal → Bool
  | .str _ _ _ | .mem _ _ | .buffer _ _ | .iter _ => true
  | _ => false

/-- `MP_OBJ_IS_STR_OR_BYTES`, with the text. -/
def PyVal.strData : PyVal → Option (List UInt8)
  | .str _ data _ => some data
  | _ => none

/-- `MP_OBJ_IS_MEM`. -/
def PyVal.isMem : PyVal → Bool
  | .mem _ _ => true
  | _ => false

/-! ## Effects -/

/-- Bytes written to an address. -/
structure Write where
  addr : Nat
  bytes : List UInt8
deriving DecidableEq, Repr

/-- What a store has written, and what has cut it short. -/
structure Store where
  writes : List Write
  stop : Option Stop
deriving DecidableEq, Repr

namespace Store

/-- Nothing to do. -/
def done : Store := ⟨[], none⟩

/-- Nothing is written. -/
def fail (e : Stop) : Store := ⟨[], some e⟩

/-- One write. -/
def write (addr : Nat) (bytes : List UInt8) : Store := ⟨[⟨addr, bytes⟩], none⟩

/-- Go on, unless something has cut the store short. -/
def andThen (s t : Store) : Store :=
  match s.stop with
  | none => ⟨s.writes ++ t.writes, t.stop⟩
  | some _ => s

/-- Go on with a result. -/
def ofRes {α : Type} (r : Res α) (k : α → Store) : Store :=
  match r with
  | .ok x => k x
  | .error e => fail e

end Store

/-- The functions of the base library that stores call: bit fields of integers, and
the parser of GUID texts, which writes a GUID only when it succeeds. -/
structure BaseLib where
  bitFieldWrite : Nat → Nat → Nat → Nat → Nat → Nat
  lShiftU64 : Nat → Nat → Nat
  asciiStrToGuid : List UInt8 → Option { g : List UInt8 // g.length = 16 }

/-- An integer as `n` bytes, lowest first; what does not fit is cut off. -/
def leBytes (n : Nat) (i : Int) : List UInt8 :=
  (List.range n).map fun k => UInt8.ofNat ((i / 256 ^ k) % 256).toNat

@[simp] theorem length_leBytes (n : Nat) (i : Int) : (leBytes n i).length = n := by
  simp [leBytes]

/-- `mp_obj_get_int_truncated` and `get_uint64`, and the store of the integer. -/
def storeInt (addr width : Nat) (value : PyVal) : Store :=
  match value with
  | .int i => .write addr (leBytes width i)
  | v => .fail (.raise .typeError ("can't convert " ++ v.typeName ++ " to int"))

/-! ## Bit fields -/

/-- The base types that `set_bits` knows. -/
def bitWidth (a : Arch) : Char → Option Nat
  | 'B' => some 1
  | 'H' => some 2
  | 'I' | 'L' => some 4
  | 'N' => some a.ptrSize
  | 'Q' => some 8
  | _ => none

/-- `set_bits`. -/
def setBits (a : Arch) (lib : BaseLib) (memory : Nat → UInt8) (self : Mem) (value : PyVal) :
    Store :=
  match self.typespec with
  | none => .fail .fault
  | some t =>
      match t.head?.bind (bitWidth a) with
      | none =>
          .fail (.raise .valueError "Not supported base type of bitfield to dereference")
      | some w =>
          match value with
          | .int i =>
              let bitend := self.bitoff + self.bitnum - 1
              let mask := (lib.lShiftU64 1 self.bitnum + 2 ^ 64 - 1) % 2 ^ 64
              let bits := (i % 2 ^ (8 * w)).toNat &&& mask
              let old := readUnit memory self.addr w
              .write self.addr (leBytes w (lib.bitFieldWrite w old self.bitoff bitend bits))
          | v => .fail (.raise .typeError ("can't convert " ++ v.typeName ++ " to int"))

/-! ## Elements -/

/-- The cases of `set_value`'s switch. -/
inductive StoreKind where
  | direct (width : Nat)
  | pointer
  | guid
  | ascii
  | unicode
  | object
deriving DecidableEq, Repr

/-- The case for the first character of `typespec`, `none` when it is empty. -/
def storeKind (a : Arch) : Option Char → StoreKind
  | some 'b' | some 'B' => .direct 1
  | some 'h' | some 'H' => .direct 2
  | some 'i' | some 'l' | some 'I' | some 'L' => .direct 4
  | some 'n' | some 'E' | some 'N' => .direct a.ptrSize
  | some 'q' | some 'Q' => .direct 8
  | some 'T' | some 'F' | some 'P' => .pointer
  | some 'G' => .guid
  | some 'a' => .ascii
  | some 'u' => .unicode
  | _ => .object

/-- `utf8_charlen`. -/
def utf8Charlen (data : List UInt8) : Nat := data.countP fun b => b &&& 0xC0 ≠ 0x80

/-- The loop of `Utf8ToUnicode`: `n` characters. -/
def utf8ToUnicode : Nat → List UInt8 → List UInt16
  | 0, _ => []
  | n + 1, s =>
      let b := s.headD 0
      if b &&& 0xE0 = 0xE0 then
        (((b &&& 0x0F).toUInt16 <<< 12) ||| (((s.getD 1 0) &&& 0x3F).toUInt16 <<< 6) |||
          ((s.getD 2 0) &&& 0x3F).toUInt16) :: utf8ToUnicode n (s.drop 3)
      else if b &&& 0xC0 = 0xC0 then
        (((b &&& 0x1F).toUInt16 <<< 6) ||| ((s.getD 1 0) &&& 0x3F).toUInt16) ::
          utf8ToUnicode n (s.drop 2)
      else b.toUInt16 :: utf8ToUnicode n (s.drop 1)

theorem length_utf8ToUnicode (n : Nat) (s : List UInt8) : (utf8ToUnicode n s).length = n := by
  induction n generalizing s with
  | zero => rfl
  | succ n ih =>
      unfold utf8ToUnicode
      dsimp only
      split
      · simp [ih]
      · split <;> simp [ih]

/-- A 16-bit text with its terminator, as bytes. -/
def unicodeBytes (s : List UInt16) : List UInt8 :=
  (s ++ [0]).flatMap fun u : UInt16 => leBytes 2 u.toNat

theorem length_unicodeBytes (s : List UInt16) : (unicodeBytes s).length = (s.length + 1) * 2 := by
  simp [unicodeBytes, List.length_flatMap, Nat.add_mul]

/-- `set_mem_from_obj`; `onItems` stores what iterating over `src` gives. -/
def setMemFromObj (a : Arch) (dst : Mem) (src : PyVal) (onItems : Nat → Nat → Store)
    (index len : Nat) : Store :=
  match src.getBuffer with
  | some buf =>
      -- the sum of the check wraps around like the products
      let size := min buf.length (len * dst.typesize % a.word)
      if dst.size < (index * dst.typesize + size) % a.word then
        .fail (.raise .indexError "Out of buffer")
      else .write (dst.addr + index * dst.typesize % a.word) (buf.take size)
  | none =>
      if src.hasIter then onItems index len
      else .fail (.raise .valueError
        "Given object does not support buffer or iterator protocol. Don't know how to get its value.")

/-- The switch of `set_value`. -/
def storeElement (a : Arch) (lib : BaseLib) (self : Mem) (isNone : Bool) (value : PyVal)
    (onItems : Nat → Nat → Store) (index len : Nat) : Store :=
  match self.typespec with
  | none => .fail .fault
  | some t =>
      match storeKind a t.head? with
      | .direct width => storeInt (self.addr + index * width) width value
      | .pointer =>
          if value.isMem then setMemFromObj a self value onItems index len
          else storeInt (self.addr + index * a.ptrSize) a.ptrSize value
      | .guid =>
          match value.strData with
          | some data =>
              -- sixteen bytes are written, whatever the size of an element
              if data.length ≠ 36 then .fail (.raise .valueError "Invalid GUID string")
              else
                match lib.asciiStrToGuid data with
                | none => .fail (.raise .valueError "Invalid GUID string")
                | some g => .write (self.addr + index * self.typesize % a.word) g.val
          | none => setMemFromObj a self value onItems index 1
      | .ascii =>
          match isNone, value.strData with
          | true, some data =>
              if self.size < data.length then .fail (.raise .valueError "Out of buffer")
              else (Store.write self.addr (List.replicate self.size 0)).andThen
                (.write self.addr data)
          | _, _ => setMemFromObj a self value onItems index (len - index)
      | .unicode =>
          match isNone, value.strData with
          | true, some data =>
              -- no text is so long that this would wrap around
              if self.size < (utf8Charlen data + 1) * 2 then
                .fail (.raise .valueError "Out of buffer")
              else (Store.write self.addr (List.replicate self.size 0)).andThen
                (.write self.addr (unicodeBytes (utf8ToUnicode (utf8Charlen data) data)))
          | _, _ => setMemFromObj a self value onItems index (len - index)
      | .object => setMemFromObj a self value onItems index (len - index)

/-! ## `set_value` -/

/-- What `set_value` does first: `k` goes on with the length of the object. -/
def storeEntry (a : Arch) (lib : BaseLib) (memory : Nat → UInt8) (self : Mem) (value : PyVal)
    (k : Nat → Store) : Store :=
  if self.readonly then .fail (.raise .valueError "modifying read-only memory")
  -- before any look at the index or the length
  else if 0 < self.bitnum then setBits a lib memory self value
  else Store.ofRes (getInt a (memLen self)) fun len => k len.toNat

/-- `set_value` with an index that is no slice. -/
def storeIndex (a : Arch) (lib : BaseLib) (memory : Nat → UInt8) (self : Mem) (index : PyIndex)
    (value : PyVal) (onItems : Nat → Nat → Store) : Store :=
  storeEntry a lib memory self value fun len =>
    Store.ofRes (elementIndex a self.type len index) fun i =>
      -- with length zero, index zero passes
      if len < i ∨ 0 < len ∧ i = len then .fail (.raise .indexError "Out of buffer")
      else storeElement a lib self (index == .none) value onItems i len

section SetValue

variable (a : Arch) (lib : BaseLib) (memory : Nat → UInt8) (self : Mem)

mutual

/-- `set_value` with an index that is no slice, over the value. -/
def storeAt (index : PyIndex) : PyVal → Store
  | .int i => storeIndex a lib memory self index (.int i) fun _ _ => .done
  | .str isBytes data items =>
      storeIndex a lib memory self index (.str isBytes data items) fun i len => storeItems i len items
  | .mem buffer items =>
      storeIndex a lib memory self index (.mem buffer items) fun i len => storeItems i len items
  | .fptr buffer => storeIndex a lib memory self index (.fptr buffer) fun _ _ => .done
  | .buffer data items =>
      storeIndex a lib memory self index (.buffer data items) fun i len => storeItems i len items
  | .iter items => storeIndex a lib memory self index (.iter items) fun i len => storeItems i len items
  | .other name => storeIndex a lib memory self index (.other name) fun _ _ => .done

/-- The loop over an iterable: at most `len` elements from `index` on. -/
def storeItems (index len : Nat) : PyItems → Store
  | .stop => .done
  | .raise type msg => .fail (.raise type msg)
  | .next item rest =>
      if len = 0 then .done
      else (storeAt (.int (a.smallInt index)) item).andThen (storeItems (index + 1) (len - 1) rest)

end

/-- The same value at several indexes. -/
def storeEach (value : PyVal) : List Nat → Store
  | [] => .done
  | i :: rest => (storeAt a lib memory self (.int (a.smallInt i)) value).andThen (storeEach value rest)

/-- What iterating over a value gives. -/
def PyVal.items : PyVal → PyItems
  | .str _ _ items | .mem _ items | .buffer _ items | .iter items => items
  | _ => .stop

/-- The first index of a slice is kept in an `int`, and signed overflow ends the loop. -/
def sliceRange (start stop : Nat) : Nat × Nat :=
  let s := start % 2 ^ 32
  if 2 ^ 31 ≤ s then (0, 0) else (s, min stop (2 ^ 31) - s)

/-- `set_value`. -/
def setValue (index : PyIndex) (value : PyVal) : Store :=
  match index with
  | .slice start stop step =>
      storeEntry a lib memory self value fun len =>
        Store.ofRes (mpSeqGetFastSliceIndexes a len start stop step) fun bounds =>
          if 0 < len ∧ len < bounds.2 then
            .fail (.raise .indexError "Index slice is out of buffer")
          else
            let r := sliceRange bounds.1 bounds.2
            if value.hasIter then storeItems a lib memory self r.1 r.2 value.items
            else storeEach a lib memory self value (List.range' r.1 r.2)
  | index => storeAt a lib memory self index value

end SetValue

end EfiLvgl.Uefi
