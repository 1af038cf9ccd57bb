import EfiLvgl.Lib.CString
import EfiLvgl.Lib.Fuel
import EfiLvgl.Variables.Objects

/-!
# EfiLvgl.Smbios.Strings — the strings behind an SMBIOS structure

The strings of a structure stand behind it in memory, one after the other, and fields give their
numbers. `modos.c` hops from string to string until it gets to the one it wants
(`getSmbiosString`). `smbios.py` goes through them byte by byte and collects all of them
(`extractStringList`). Both find the same strings (`string_sets_agree`).
-/

namespace EfiLvgl.Smbios

open EfiLvgl.CString EfiLvgl.Fuel EfiLvgl.Uefi
open EfiLvgl.Variables (arrayObj formatNat)

/-! ## Structures with their strings -/

/-- The strings of a structure. None of them is empty. -/
structure StringSet where
  strings : List (List UInt8)
  nonempty : ∀ s ∈ strings, s ≠ []
  plain : ∀ s ∈ strings, (0 : UInt8) ∉ s

/-- The set in memory: a NUL behind each string, and another one behind the last. Without a
string there are two. -/
def StringSet.bytes (set : StringSet) : List UInt8 :=
  packed set.strings ++ if set.strings = [] then [0, 0] else [0]

/-- A structure, its length in its second byte, and its strings. -/
structure SmbiosStructure where
  formatted : List UInt8
  length_eq : formatted[1]?.map UInt8.toNat = some formatted.length
  set : StringSet

def SmbiosStructure.bytes (s : SmbiosStructure) : List UInt8 := s.formatted ++ s.set.bytes

/-! ## `get_smbios_string` -/

/-- `header->Length`. -/
def headerLength (header : List UInt8) : Nat := (header.getD 1 0).toNat

/-- The loop of `get_smbios_string` with so many rounds to go, `none` where it breaks off. -/
def hop : Nat → List UInt8 → Option (List UInt8)
  | 0, buf => some buf
  | rounds + 1, buf =>
      let len := strLen buf
      if len = 0 then none else hop rounds (buf.drop (len + 1))

/-- `get_smbios_string`; `header` is the memory from the structure on. -/
def getSmbiosString (header : List UInt8) (strIndex : Nat) : List UInt8 :=
  if strIndex < 1 then []
  else
    match hop (strIndex - 1) (header.drop (headerLength header)) with
    | some buf => cstr buf
    | none => []

/-! ## `_ExtractStringList` -/

/-- What scripts find: the names that are bound, the functions behind loads, what is allocated
and what memory holds. -/
structure Setting where
  names : Namespace
  depth : Nat
  lib : LoadLib
  alloc : Nat → Nat
  memory : Nat → UInt8

/-- What the loop of `_ExtractStringList` works on. -/
structure Extraction where
  index : Nat
  start : Nat
  length : Nat
  stringList : List PyObj

/-- `obj == 0`. -/
def isZero : PyObj → Bool
  | .int i => i == 0
  | .false => true
  | _ => false

section Script

variable (a : Arch) (env : Setting)

/-- `mem(arg, addr)`. -/
def newMem (arg : MemArg) (addr : Nat) : Res Mem :=
  efiMemMakeNew a env.names env.depth arg (addr % a.word) false false env.alloc

/-- `obj[index]`, or `obj.VALUE`. -/
def load (obj : Mem) (index : PyIndex) : Res PyObj :=
  getValue a env.names env.depth env.lib env.memory obj index

/-- `mem("%da" % length, start).VALUE`. -/
def strObjValue (length start : Nat) : Res PyObj := do
  let strObj ← newMem a env (.spec (formatNat length ++ ['a'])) start
  load a env strObj .none

/-- The condition of the loop. The second byte is only looked at when the first one is zero. -/
def moreToScan (buf : Mem) (index : Nat) : Res Bool := do
  let here ← load a env buf (.int index)
  if isZero here then do
    let next ← load a env buf (.int (index + 1))
    .ok (!isZero next)
  else .ok true

/-- The body of the loop. -/
def scanByte (buf : Mem) (s : Extraction) : Res Extraction := do
  let length := s.length + 1
  let here ← load a env buf (.int s.index)
  if isZero here then do
    let value ← strObjValue a env length s.start
    .ok ⟨s.index + 1, s.start + length, 0, s.stringList ++ [value]⟩
  else .ok ⟨s.index + 1, s.start, length, s.stringList⟩

/-- The loop of `_ExtractStringList`. -/
def scan (buf : Mem) : Nat → Extraction → Res Extraction
  | 0, _ => .error .fuel
  | fuel + 1, s => do
      let more ← moreToScan a env buf s.index
      if more then do
        let s ← scanByte a env buf s
        scan buf fuel s
      else .ok s

/-- What the loop leaves over is the last string. -/
def addLast (s : Extraction) : Res (List PyObj) :=
  if 0 < s.length then do
    let value ← strObjValue a env (s.length + 1) s.start
    .ok (s.stringList ++ [value])
  else .ok s.stringList

/-- `_ExtractStringList`: the record with its new size, and the strings. -/
def extractStringList (fuel : Nat) (data : Mem) : Res (Mem × List PyObj) := do
  let hdrLength := (env.memory (data.addr + 1)).toNat
  let buf ← newMem a env (.len 0) (data.addr + hdrLength)
  let s ← scan a env buf fuel ⟨0, buf.addr, 0, []⟩
  let stringList ← addLast a env s
  .ok ({ data with size := (hdrLength + s.index + 2) % a.word }, stringList)

end Script

/-! ## What `get_smbios_string` finds -/

theorem hop_packed {ss : List (List UInt8)} (hne : ∀ s ∈ ss, s ≠ [])
    (hplain : ∀ s ∈ ss, (0 : UInt8) ∉ s) (rest : List UInt8) (rounds : Nat) :
    hop rounds (packed ss ++ 0 :: rest) =
      if rounds ≤ ss.length then some (packed (ss.drop rounds) ++ 0 :: rest) else none := by
  induction ss generalizing rounds with
  | nil =>
      cases rounds with
      | zero => rfl
      | succ rounds =>
          -- the NUL at the end is an empty string
          rw [packed_nil, List.nil_append, hop, strLen, cstr_zero_cons]
          simp
  | cons s ss ih =>
      cases rounds with
      | zero => rw [hop, if_pos (Nat.zero_le _), List.drop_zero]
      | succ rounds =>
          have hs : (0 : UInt8) ∉ s := hplain s (List.mem_cons_self ..)
          have hlen : s.length ≠ 0 := by
            intro h
            exact hne s (List.mem_cons_self ..) (List.eq_nil_of_length_eq_zero h)
          have hstr : packed (s :: ss) ++ 0 :: rest = s ++ 0 :: (packed ss ++ 0 :: rest) := by
            rw [packed_cons, List.append_assoc, List.cons_append]
          have hnext : (s ++ 0 :: (packed ss ++ 0 :: rest)).drop (s.length + 1) =
              packed ss ++ 0 :: rest := by
            rw [List.drop_length_add_append, List.drop_succ_cons, List.drop_zero]
          rw [hstr, hop, strLen_append_zero hs, if_neg hlen, hnext,
            ih (fun t ht => hne t (List.mem_cons_of_mem _ ht))
            (fun t ht => hplain t (List.mem_cons_of_mem _ ht)), List.drop_succ_cons,
            List.length_cons]
          simp only [Nat.succ_le_succ_iff]

theorem cstr_packed {ss : List (List UInt8)} (hplain : ∀ s ∈ ss, (0 : UInt8) ∉ s)
    (rest : List UInt8) : cstr (packed ss ++ 0 :: rest) = ss.head?.getD [] := by
  cases ss with
  | nil => exact cstr_zero_cons rest
  | cons s ss =>
      rw [packed_cons, List.append_assoc, List.cons_append,
        cstr_append_zero (hplain s (List.mem_cons_self ..))]
      rfl

theorem headerLength_eq (s : SmbiosStructure) (rest : List UInt8) :
    headerLength (s.formatted ++ rest) = s.formatted.length := by
  rcases Option.map_eq_some_iff.mp s.length_eq with ⟨b, hb, hlen⟩
  have hlt : 1 < s.formatted.length := (List.getElem?_eq_some_iff.mp hb).1
  rw [headerLength, List.getD_eq_getElem?_getD, List.getElem?_append_left hlt, hb]
  exact hlen

/-- A set is its strings and a NUL. -/
theorem StringSet.bytes_append (set : StringSet) (rest : List UInt8) :
    ∃ tail, set.bytes ++ rest = packed set.strings ++ 0 :: tail := by
  unfold StringSet.bytes
  split
  · exact ⟨0 :: rest, by simp⟩
  · exact ⟨rest, by simp⟩

/-- Strings are numbered from one. -/
theorem getSmbiosString_eq (s : SmbiosStructure) (rest : List UInt8) (k : Nat) :
    getSmbiosString (s.bytes ++ rest) (k + 1) = (s.set.strings[k]?).getD [] := by
  rcases s.set.bytes_append rest with ⟨tail, hbytes⟩
  have hbuf : (s.bytes ++ rest).drop (headerLength (s.bytes ++ rest)) =
      packed s.set.strings ++ 0 :: tail := by
    rw [SmbiosStructure.bytes, List.append_assoc, headerLength_eq, List.drop_left, hbytes]
  rw [getSmbiosString, if_neg (by omega), Nat.add_sub_cancel, hbuf,
    hop_packed s.set.nonempty s.set.plain]
  by_cases hk : k ≤ s.set.strings.length
  · rw [if_pos hk]
    dsimp only
    rw [cstr_packed fun t ht => s.set.plain t (List.mem_of_mem_drop ht), List.head?_drop]
  · rw [if_neg hk, List.getElem?_eq_none (by omega)]
    rfl

/-! ## What is in memory -/

/-- Memory holds these bytes from an address on. -/
def Stands (memory : Nat → UInt8) (addr : Nat) (bytes : List UInt8) : Prop :=
  ∀ i (hi : i < bytes.length), memory (addr + i) = bytes[i]

section Stands

variable {memory : Nat → UInt8} {addr : Nat} {l r : List UInt8} {b : UInt8}

theorem Stands.left (h : Stands memory addr (l ++ r)) : Stands memory addr l := by
  intro i hi
  rw [h i (by rw [List.length_append]; omega), List.getElem_append_left hi]

theorem Stands.right (h : Stands memory addr (l ++ r)) : Stands memory (addr + l.length) r := by
  intro i hi
  rw [Nat.add_assoc, h (l.length + i) (by rw [List.length_append]; omega),
    List.getElem_append_right (Nat.le_add_right _ _)]
  simp

theorem Stands.head (h : Stands memory addr (b :: r)) : memory addr = b :=
  h 0 (Nat.succ_pos _)

theorem Stands.tail (h : Stands memory addr (b :: r)) : Stands memory (addr + 1) r :=
  Stands.right (l := [b]) h

theorem Stands.map_range (h : Stands memory addr l) :
    (List.range l.length).map (fun k => memory (addr + k)) = l := by
  refine List.ext_getElem ?_ ?_
  · simp
  · intro i _ hi
    rw [List.getElem_map, List.getElem_range, h i hi]

theorem Stands.asciiText (h : Stands memory addr (l ++ [0])) (hl : (0 : UInt8) ∉ l) :
    asciiText memory addr (l.length + 1) = l := by
  have hmap := h.map_range
  rw [List.length_append, List.length_singleton] at hmap
  rw [Uefi.asciiText, hmap]
  exact cstr_append_zero hl []

end Stands

/-! ## The objects of `_ExtractStringList` -/

section Objects

variable {a : Arch} {env : Setting} {base : Nat}

/-- `Buf` has no length, and so can be indexed without a limit. -/
theorem newMem_buf (hbase : base < a.word) :
    newMem a env (.len 0) base = .ok (arrayObj a 'B' base 0) := by
  rw [newMem, efiMemMakeNew, makeNewObj, Nat.mod_eq_of_lt hbase,
    efiMemNewN_letter (show 'B' ∈ intLetters by decide)]
  show (if base = 0 ∧ 0 < 0 then _ else _) = _
  rw [if_neg (fun h => Nat.lt_irrefl 0 h.2)]
  rfl

theorem load_byte (env : Setting) (hbase : 0 < base) (k : Nat) (hk : 2 * k < a.word) :
    load a env (arrayObj a 'B' base 0) (.int k) = .ok (.int (env.memory (base + k)).toNat) := by
  have harray : IntArray a 'B' (arrayObj a 'B' base 0) :=
    intArray_sized (by decide) a base 0 false false
  have hlen : memLen (arrayObj a 'B' base 0) = 0 :=
    Variables.memLen_arrayObj (Nat.succ_pos 0) (by rw [Nat.mul_zero]; exact a.word_pos)
  have hread : readInt a env.memory 'B' (base + k * 1) = (env.memory (base + k)).toNat := by
    simp [readInt, signedLetter, readUnit, typeSize]
  rw [load, harray.getValue_empty (Nat.ne_of_gt hbase) hlen hk]
  exact congrArg (fun i => Except.ok (PyObj.int i)) hread

/-- A text that ends with a NUL. -/
theorem strObjValue_eq {s : List UInt8} {start : Nat} (hstart : 0 < start)
    (hs : (0 : UInt8) ∉ s) (hstands : Stands env.memory start (s ++ [0]))
    (hfit : start < a.word) (hlen : 2 * (s.length + 1) < a.word) :
    strObjValue a env (s.length + 1) start = .ok (.str s) := by
  have hsize : typeSize a 'a' * (s.length + 1) = s.length + 1 := Nat.one_mul _
  have hcount : repeatCount a (formatNat (s.length + 1) ++ ['a']) = s.length + 1 :=
    Variables.repeatCount_formatNat (Nat.succ_pos _) (by omega) rfl
  have hnew : newMem a env (.spec (formatNat (s.length + 1) ++ ['a'])) start =
      .ok (arrayObj a 'a' start (s.length + 1)) := by
    rw [newMem, efiMemMakeNew, Nat.mod_eq_of_lt hfit, makeNewObj_spec _ _ _ _ _ _ (by simp),
      Variables.efiMemNew_digits (Variables.isDigit_formatNat _) rfl, hcount]
    exact if_neg fun h => Nat.ne_of_gt hstart h.1
  have hmemLen : memLen (arrayObj a 'a' start (s.length + 1)) = s.length + 1 :=
    Variables.memLen_arrayObj Nat.one_pos (by omega)
  have htext : asciiText env.memory start (arrayObj a 'a' start (s.length + 1)).size = s := by
    rw [Variables.arrayObj_size (by omega), hsize, hstands.asciiText hs]
  rw [strObjValue, hnew, bind_ok_left, load,
    Variables.getValue_value hstart rfl (by rw [hmemLen]; exact hlen)]
  exact congrArg (fun t => Except.ok (PyObj.str t)) htext

end Objects

/-! ## What `_ExtractStringList` finds -/

theorem isZero_byte (b : UInt8) : isZero (.int b.toNat) = decide (b = 0) := by
  rw [Bool.eq_iff_iff, isZero, beq_iff_eq, decide_eq_true_iff, ← UInt8.toNat_inj]
  exact Int.natCast_eq_zero

section Scan

variable {a : Arch} {env : Setting} {base : Nat} (hbase : 0 < base)

include hbase

theorem moreToScan_eq {index : Nat} (hindex : 2 * (index + 1) < a.word) :
    moreToScan a env (arrayObj a 'B' base 0) index =
      .ok (decide (env.memory (base + index) ≠ 0 ∨ env.memory (base + (index + 1)) ≠ 0)) := by
  have hhere := load_byte (a := a) env hbase index (by omega)
  have hnext := load_byte (a := a) env hbase (index + 1) hindex
  rw [moreToScan, hhere, bind_ok_left, isZero_byte]
  by_cases hb : env.memory (base + index) = 0
  · rw [if_pos (decide_eq_true hb)]
    push_cast at hnext
    rw [hnext, bind_ok_left, isZero_byte]
    simp [hb]
  · rw [if_neg (by simpa using hb)]
    simp [hb]

/-- A character of a string is counted. -/
theorem scan_char {s : Extraction} (hindex : 2 * (s.index + 1) < a.word)
    (hchar : env.memory (base + s.index) ≠ 0) (fuel : Nat) :
    scan a env (arrayObj a 'B' base 0) (fuel + 1) s =
      scan a env (arrayObj a 'B' base 0) fuel
        ⟨s.index + 1, s.start, s.length + 1, s.stringList⟩ := by
  rw [scan, moreToScan_eq hbase hindex, bind_ok_left, decide_eq_true (Or.inl hchar), if_pos rfl,
    scanByte, load_byte env hbase _ (by omega), bind_ok_left, isZero_byte,
    if_neg (by simpa using hchar)]
  rfl

/-- The NUL behind a string that is not the last one. -/
theorem scan_nul {s : Extraction} {value : PyObj} (hindex : 2 * (s.index + 1) < a.word)
    (hnul : env.memory (base + s.index) = 0) (hnext : env.memory (base + (s.index + 1)) ≠ 0)
    (hvalue : strObjValue a env (s.length + 1) s.start = .ok value) (fuel : Nat) :
    scan a env (arrayObj a 'B' base 0) (fuel + 1) s =
      scan a env (arrayObj a 'B' base 0) fuel
        ⟨s.index + 1, s.start + (s.length + 1), 0, s.stringList ++ [value]⟩ := by
  rw [scan, moreToScan_eq hbase hindex, bind_ok_left, decide_eq_true (Or.inr hnext), if_pos rfl,
    scanByte, load_byte env hbase _ (by omega), bind_ok_left, isZero_byte,
    if_pos (decide_eq_true hnul), hvalue]
  rfl

/-- Two NULs end the loop. -/
theorem scan_end {s : Extraction} (hindex : 2 * (s.index + 1) < a.word)
    (hnul : env.memory (base + s.index) = 0) (hnext : env.memory (base + (s.index + 1)) = 0)
    (fuel : Nat) : scan a env (arrayObj a 'B' base 0) (fuel + 1) s = .ok s := by
  rw [scan, moreToScan_eq hbase hindex, bind_ok_left, hnul, hnext]
  rfl

theorem scan_word {w : List UInt8} (hw : (0 : UInt8) ∉ w) (fuel : Nat) {s : Extraction}
    (hstands : Stands env.memory (base + s.index) w) (hfit : 2 * (s.index + w.length) < a.word) :
    scan a env (arrayObj a 'B' base 0) (fuel + w.length) s =
      scan a env (arrayObj a 'B' base 0) fuel
        ⟨s.index + w.length, s.start, s.length + w.length, s.stringList⟩ := by
  induction w generalizing s with
  | nil => rfl
  | cons c w ih =>
      rw [List.length_cons] at hfit ⊢
      have hc : env.memory (base + s.index) ≠ 0 := by
        rw [hstands.head]
        intro h
        exact hw (h ▸ List.mem_cons_self ..)
      have htail := ih (fun h => hw (List.mem_cons_of_mem _ h))
        (s := ⟨s.index + 1, s.start, s.length + 1, s.stringList⟩) hstands.tail
        (by dsimp only; omega)
      rw [← Nat.add_assoc, scan_char hbase (by omega) hc, htail]
      dsimp only
      rw [Nat.add_right_comm s.index, Nat.add_right_comm s.length, Nat.add_assoc s.index,
        Nat.add_assoc s.length]

omit hbase in
/-- Behind a NUL there is a character as long as there are strings. -/
theorem head_ne_zero {ss : List (List UInt8)} {t : List UInt8} (hne : ∀ s ∈ ss ++ [t], s ≠ [])
    (hplain : ∀ s ∈ ss ++ [t], (0 : UInt8) ∉ s) (rest : List UInt8) :
    ∃ c r, packed ss ++ (t ++ rest) = c :: r ∧ c ≠ 0 := by
  have hfirst : ∀ u ∈ ss ++ [t], ∀ r : List UInt8, ∃ c r', u ++ r = c :: r' ∧ c ≠ 0 := by
    intro u hu r
    cases u with
    | nil => exact absurd rfl (hne [] hu)
    | cons c u =>
        refine ⟨c, u ++ r, rfl, ?_⟩
        intro hc
        exact hplain _ hu (hc ▸ List.mem_cons_self ..)
  cases ss with
  | nil => exact hfirst t (List.mem_singleton_self t) rest
  | cons s ss =>
      rw [packed_cons, List.append_assoc]
      exact hfirst s (List.mem_cons_self ..) _

/-- From the beginning of a string to the end of the last one, `t`. -/
theorem scan_strings {t : List UInt8} (fuel : Nat) (ss : List (List UInt8))
    (hne : ∀ s ∈ ss ++ [t], s ≠ []) (hplain : ∀ s ∈ ss ++ [t], (0 : UInt8) ∉ s) (index : Nat)
    (l : List PyObj)
    (hstands : Stands env.memory (base + index) (packed ss ++ (t ++ [0, 0])))
    (hfit : base + (index + (packed ss).length + t.length + 1) < a.word)
    (hhalf : 2 * (index + (packed ss).length + t.length + 1) < a.word) :
    scan a env (arrayObj a 'B' base 0) (fuel + 1 + t.length + (packed ss).length)
        ⟨index, base + index, 0, l⟩ =
      .ok ⟨index + (packed ss).length + t.length, base + index + (packed ss).length, t.length,
        l ++ ss.map .str⟩ := by
  induction ss generalizing index l with
  | nil =>
      rw [packed_nil, List.nil_append] at hstands
      rw [packed_nil, List.length_nil, Nat.add_zero] at hfit hhalf
      have hnuls : Stands env.memory (base + (index + t.length)) [0, 0] :=
        Nat.add_assoc base index _ ▸ hstands.right
      rw [packed_nil, List.length_nil, Nat.add_zero,
        scan_word hbase (hplain t (List.mem_singleton_self t)) _ hstands.left
          (by dsimp only; omega),
        Nat.zero_add, scan_end hbase hhalf hnuls.head hnuls.tail.head]
      simp
  | cons s ss ih =>
      have hs : (0 : UInt8) ∉ s := hplain s (List.mem_cons_self ..)
      have hlen : (packed (s :: ss)).length = s.length + 1 + (packed ss).length := by
        rw [packed_cons, List.length_append, List.length_cons]
        omega
      rw [hlen] at hfit hhalf ⊢
      rw [packed_cons, List.append_assoc, List.cons_append] at hstands
      have hrest : Stands env.memory (base + (index + s.length))
          (0 :: (packed ss ++ (t ++ [0, 0]))) := Nat.add_assoc base index _ ▸ hstands.right
      -- the next string begins behind the NUL of this one
      have hnext : env.memory (base + (index + s.length + 1)) ≠ 0 := by
        rcases head_ne_zero (fun u hu => hne u (List.mem_cons_of_mem _ hu))
          (fun u hu => hplain u (List.mem_cons_of_mem _ hu)) [0, 0] with ⟨c, r, heq, hc⟩
        have htail := hrest.tail
        rw [heq] at htail
        rw [← Nat.add_assoc, htail.head]
        exact hc
      have hvalue : strObjValue a env (s.length + 1) (base + index) = .ok (.str s) := by
        refine strObjValue_eq (by omega) hs ?_ (by omega) (by omega)
        refine Stands.left (r := packed ss ++ (t ++ [0, 0])) ?_
        rw [List.append_assoc]
        exact hstands
      have hih := ih (fun u hu => hne u (List.mem_cons_of_mem _ hu))
        (fun u hu => hplain u (List.mem_cons_of_mem _ hu)) (index + s.length + 1)
        (l ++ [.str s]) (Nat.add_assoc base _ 1 ▸ hrest.tail) (by omega) (by omega)
      have hfuel : fuel + 1 + t.length + (s.length + 1 + (packed ss).length) =
          fuel + 1 + t.length + (packed ss).length + 1 + s.length := by omega
      have hstart : base + index + (s.length + 1) = base + (index + s.length + 1) := by omega
      rw [hfuel, scan_word (s := ⟨index, base + index, 0, l⟩) hbase hs _ hstands.left
        (by dsimp only; omega)]
      dsimp only
      rw [Nat.zero_add, scan_nul (s := ⟨index + s.length, base + index, s.length, l⟩) hbase
        (by dsimp only; omega) hrest.head hnext hvalue]
      dsimp only
      rw [hstart, hih, List.map_cons, List.append_assoc, List.singleton_append]
      congr 2
      · omega
      · omega

end Scan

section Extract

variable {a : Arch} {env : Setting} {data : Mem} (s : SmbiosStructure)

theorem StringSet.bytes_nil {set : StringSet} (h : set.strings = []) : set.bytes = [0, 0] := by
  rw [StringSet.bytes, h, if_pos rfl, packed_nil, List.nil_append]

/-- The last string ends the set. -/
theorem StringSet.bytes_concat {set : StringSet} {ss : List (List UInt8)} {t : List UInt8}
    (h : set.strings = ss ++ [t]) : set.bytes = packed ss ++ (t ++ [0, 0]) := by
  have hne : ss ++ [t] ≠ [] := by simp
  rw [StringSet.bytes, h, if_neg hne, packed_append, packed_cons, packed_nil]
  simp

/-- What the scan leads to, from the beginning of the set on. -/
theorem extractStringList_of_scan (haddr : 0 < data.addr)
    (hstands : Stands env.memory data.addr s.bytes) (hfit : data.addr + s.bytes.length ≤ a.word)
    {fuel : Nat} {s' : Extraction} {l : List PyObj}
    (hscan : scan a env (arrayObj a 'B' (data.addr + s.formatted.length) 0) fuel
      ⟨0, data.addr + s.formatted.length, 0, []⟩ = .ok s')
    (hl : addLast a env s' = .ok l) (hindex : s'.index + 2 = s.set.bytes.length) :
    extractStringList a env fuel data =
      .ok ({ data with size := s.formatted.length + s.set.bytes.length }, l) := by
  rcases Option.map_eq_some_iff.mp s.length_eq with ⟨b, hb, hlength⟩
  rcases List.getElem?_eq_some_iff.mp hb with ⟨hone, hb⟩
  have hbytes : s.bytes.length = s.formatted.length + s.set.bytes.length := List.length_append
  rw [hbytes] at hfit
  have hhdr : (env.memory (data.addr + 1)).toNat = s.formatted.length := by
    rw [hstands.left 1 hone, hb, hlength]
  have hbuf : (arrayObj a 'B' (data.addr + s.formatted.length) 0).addr =
      data.addr + s.formatted.length := rfl
  unfold extractStringList
  dsimp only
  rw [hhdr, newMem_buf (by omega), bind_ok_left, hbuf, hscan, bind_ok_left, hl, bind_ok_left,
    Nat.add_assoc, hindex, Nat.mod_eq_of_lt (by omega)]

/-- The strings in their order, and the size of the structure with them. -/
theorem extractStringList_eq (haddr : 0 < data.addr) (hstands : Stands env.memory data.addr s.bytes)
    (hfit : data.addr + s.bytes.length ≤ a.word) (hhalf : 2 * s.set.bytes.length ≤ a.word)
    (fuel : Nat) :
    extractStringList a env (fuel + s.set.bytes.length) data =
      .ok ({ data with size := s.formatted.length + s.set.bytes.length },
        s.set.strings.map .str) := by
  have hbytes : s.bytes.length = s.formatted.length + s.set.bytes.length := List.length_append
  have hbase : 0 < data.addr + s.formatted.length := by omega
  have hset := hstands.right
  rcases List.eq_nil_or_concat s.set.strings with hnil | ⟨ss, t, hconcat⟩
  · -- a record without strings ends in two zero bytes
    have hlen : s.set.bytes.length = 2 := by rw [StringSet.bytes_nil hnil]; rfl
    rw [StringSet.bytes_nil hnil] at hset
    have hword := a.word_large
    rw [hnil]
    have hscan := scan_end (a := a) (s := ⟨0, data.addr + s.formatted.length, 0, []⟩) hbase
      (by dsimp only; omega) hset.head hset.tail.head (fuel + 1)
    have hresult := extractStringList_of_scan s haddr hstands hfit hscan rfl hlen.symm
    rw [hlen] at hresult ⊢
    exact hresult
  · rw [List.concat_eq_append] at hconcat
    have hlen : s.set.bytes.length = (packed ss).length + t.length + 2 := by
      rw [StringSet.bytes_concat hconcat, List.length_append, List.length_append]
      rfl
    -- the last string is added behind the loop, by `addLast`
    have hlast : t ∈ s.set.strings := by rw [hconcat]; simp
    have hpos : 0 < t.length := List.length_pos_of_ne_nil (s.set.nonempty t hlast)
    rw [StringSet.bytes_concat hconcat] at hset
    have hvalue : strObjValue a env (t.length + 1)
        (data.addr + s.formatted.length + (packed ss).length) = .ok (.str t) := by
      refine strObjValue_eq (by omega) (s.set.plain t hlast) ?_ (by omega) (by omega)
      refine Stands.left (r := [0]) ?_
      rw [List.append_assoc]
      exact hset.right
    have hfuel : fuel + s.set.bytes.length = fuel + 1 + 1 + t.length + (packed ss).length := by
      omega
    have hscan := scan_strings (a := a) hbase (t := t) (fuel + 1) ss
      (hconcat ▸ s.set.nonempty) (hconcat ▸ s.set.plain) 0 [] hset (by omega) (by omega)
    refine extractStringList_of_scan s haddr hstands hfit (hfuel ▸ hscan) ?_
      (by dsimp only; omega)
    rw [addLast, if_pos hpos]
    show (strObjValue a env (t.length + 1)
      (data.addr + s.formatted.length + (packed ss).length) >>= fun value =>
        .ok (ss.map PyObj.str ++ [value])) = _
    rw [hvalue, hconcat, List.map_append]
    rfl

/-- The two readers find the same strings under the same numbers, and the size that the script
sets is that of the structure with its strings. The set may take half of the address space, as
any object may. -/
theorem string_sets_agree (rest : List UInt8) (haddr : 0 < data.addr)
    (hstands : Stands env.memory data.addr (s.bytes ++ rest))
    (hfit : data.addr + s.bytes.length ≤ a.word) (hhalf : 2 * s.set.bytes.length ≤ a.word) :
    ∃ stringList,
      Settles .fuel (fun fuel => extractStringList a env fuel data)
        (.ok ({ data with size := s.formatted.length + s.set.bytes.length }, stringList)) ∧
      stringList = s.set.strings.map .str ∧
      (∀ k, 1 ≤ k → k ≤ s.set.strings.length →
        stringList[k - 1]? = some (.str (getSmbiosString (s.bytes ++ rest) k))) ∧
      ∀ k, ¬ (1 ≤ k ∧ k ≤ s.set.strings.length) → getSmbiosString (s.bytes ++ rest) k = [] := by
  refine ⟨s.set.strings.map .str, ⟨?_, s.set.bytes.length, ?_⟩, rfl, ?_, ?_⟩
  · intro h
    cases h
  · intro fuel hfuel
    -- each round passes a byte of the set
    have hsplit : fuel - s.set.bytes.length + s.set.bytes.length = fuel := Nat.sub_add_cancel hfuel
    dsimp only
    rw [← hsplit]
    exact extractStringList_eq s haddr hstands.left hfit hhalf _
  · intro k hone hk
    have hlt : k - 1 < s.set.strings.length := by omega
    have heq := getSmbiosString_eq s rest (k - 1)
    rw [Nat.sub_add_cancel hone, List.getElem?_eq_getElem hlt, Option.getD_some] at heq
    rw [heq, List.getElem?_map, List.getElem?_eq_getElem hlt]
    rfl
  · intro k hk
    cases k with
    | zero => rfl
    | succ k => rw [getSmbiosString_eq, List.getElem?_eq_none (by omega), Option.getD_none]

end Extract

/-- An end-of-table structure with two strings. -/
def twoStrings : SmbiosStructure where
  formatted := [127, 4, 0, 0]
  length_eq := rfl
  set := {
    strings := [[0x41], [0x42, 0x43]]
    nonempty := by decide
    plain := by decide }

/-- Memory in which the two strings stand. -/
def twoStringsSetting : Setting where
  names := noNames
  depth := 0
  lib := ⟨fun _ _ _ _ => 0, id⟩
  alloc := id
  memory p := twoStrings.bytes.getD (p - 8) 0

theorem string_sets_agree_two :
    ∃ stringList,
      Settles .fuel (fun fuel => extractStringList .x64 twoStringsSetting fuel (blank 8 false))
        (.ok ({ blank 8 false with size := 4 + 6 }, stringList)) ∧
      stringList = [.str [0x41], .str [0x42, 0x43]] ∧
      (∀ k, 1 ≤ k → k ≤ 2 →
        stringList[k - 1]? = some (.str (getSmbiosString (twoStrings.bytes ++ []) k))) ∧
      ∀ k, ¬ (1 ≤ k ∧ k ≤ 2) → getSmbiosString (twoStrings.bytes ++ []) k = [] := by
  have hstands : Stands twoStringsSetting.memory 8 (twoStrings.bytes ++ []) := by
    intro i hi
    rw [List.append_nil] at hi
    have hmemory : ∀ p, twoStringsSetting.memory p = twoStrings.bytes.getD (p - 8) 0 := by
      intro p
      rfl
    rw [hmemory, Nat.add_sub_cancel_left, List.getD_eq_getElem?_getD, List.getElem?_eq_getElem hi]
    simp
  exact @string_sets_agree .x64 twoStringsSetting (blank 8 false) twoStrings [] (Nat.succ_pos _)
    hstands (by decide) (by decide)

end EfiLvgl.Smbios
