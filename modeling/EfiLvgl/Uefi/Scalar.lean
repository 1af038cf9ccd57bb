import EfiLvgl.Uefi.Layout
import EfiLvgl.Uefi.Load
import Mathlib.Data.Nat.Digits.Defs

/-!
# EfiLvgl.Uefi.Scalar — integers through memory and back

An integer object is a small integer or an `mpz_t` of any number of digits. Stores cut it down
by one of two routes, `mp_obj_get_int_truncated` and `get_uint64`, that fold the digits and
negate; both keep the value modulo the width (`intBytes_eq`), so that a store of the object is
the store of its value (`setIntObj_eq`). What is loaded again is the value modulo the width,
with the sign that the letter has, and nothing else has changed (`scalar_round_trip`).
-/

namespace EfiLvgl.Uefi

/-! ## Integer objects -/

/-- `MPZ_DIG_SIZE`. -/
def Arch.digSize : Arch → Nat
  | .ia32 => 16
  | .x64 => 32

/-- An integer object: a small integer, or an `mpz_t` with its lowest digit first. -/
inductive IntObj where
  | small (value : Int)
  | mpz (neg : Bool) (dig : List Nat)
deriving DecidableEq, Repr

/-- A small integer has one bit less than a word; digits have `MPZ_DIG_SIZE` bits. -/
def IntObj.Valid (a : Arch) : IntObj → Prop
  | .small value => -(a.word : Int) ≤ 4 * value ∧ 4 * value < a.word
  | .mpz _ dig => ∀ d ∈ dig, d < 2 ^ a.digSize

/-- The integer that the object stands for. -/
def IntObj.value (a : Arch) : IntObj → Int
  | .small value => value
  | .mpz neg dig =>
      let magnitude : Nat := Nat.ofDigits (2 ^ a.digSize) dig
      if neg then -magnitude else magnitude

/-- The loop of `mpz_hash` and `mpz_hash64`, in `bits` bits, from the highest digit on. -/
def mpzFold (a : Arch) (bits : Nat) (dig : List Nat) : Nat :=
  dig.foldr (fun d val => (val * 2 ^ a.digSize % 2 ^ bits) ||| d) 0

/-- `-val`, in `bits` bits. -/
def negate (bits val : Nat) : Nat := (2 ^ bits - val) % 2 ^ bits

/-- `mpz_hash64`. -/
def mpzHash64 (a : Arch) (neg : Bool) (dig : List Nat) : Nat :=
  if neg then negate 64 (mpzFold a 64 dig) else mpzFold a 64 dig

/-- `mpz_hash`, as an unsigned word. -/
def mpzHash (a : Arch) (neg : Bool) (dig : List Nat) : Nat :=
  if neg then negate (8 * a.ptrSize) (mpzFold a (8 * a.ptrSize) dig)
  else mpzFold a (8 * a.ptrSize) dig

/-- `mp_obj_get_int_truncated`, as an unsigned word. -/
def mpObjGetIntTruncated (a : Arch) : IntObj → Nat
  | .small value => (value % a.word).toNat
  | .mpz neg dig => mpzHash a neg dig

/-- `get_uint64`. -/
def getUint64 (a : Arch) : IntObj → Nat
  | .small value => (value % 2 ^ 64).toNat
  | .mpz neg dig => mpzHash64 a neg dig

/-! ## Both routes keep the value -/

theorem Arch.digSize_le (a : Arch) : a.digSize ≤ 8 * a.ptrSize ∧ 8 * a.ptrSize ≤ 64 := by
  cases a <;> decide

/-- The fold loses what does not fit, and nothing else. -/
theorem mpzFold_eq {a : Arch} {bits : Nat} (hbits : a.digSize ≤ bits) {dig : List Nat}
    (hdig : ∀ d ∈ dig, d < 2 ^ a.digSize) :
    mpzFold a bits dig = Nat.ofDigits (2 ^ a.digSize) dig % 2 ^ bits := by
  induction dig with
  | nil => simp [mpzFold]
  | cons d dig ih =>
      have hd : d < 2 ^ a.digSize := hdig d List.mem_cons_self
      have hrest := ih fun e he => hdig e (List.mem_cons_of_mem d he)
      have hsplit : 2 ^ bits = 2 ^ a.digSize * 2 ^ (bits - a.digSize) := by
        rw [← pow_add, Nat.add_sub_cancel' hbits]
      -- the shifted value has room for the digit
      have hshift : Nat.ofDigits (2 ^ a.digSize) dig * 2 ^ a.digSize % 2 ^ bits =
          2 ^ a.digSize * (Nat.ofDigits (2 ^ a.digSize) dig % 2 ^ (bits - a.digSize)) := by
        rw [Nat.mul_comm, hsplit, Nat.mul_mod_mul_left]
      show (mpzFold a bits dig * 2 ^ a.digSize % 2 ^ bits) ||| d = _
      rw [hrest, Nat.mod_mul_mod, hshift, ← Nat.two_pow_add_eq_or_of_lt hd, Nat.ofDigits_cons,
        hsplit, Nat.mod_mul, Nat.add_mul_mod_self_left, Nat.mod_eq_of_lt hd,
        Nat.add_mul_div_left _ _ (Nat.two_pow_pos _), Nat.div_eq_of_lt hd, Nat.zero_add,
        Nat.add_comm]

theorem negate_mod {bits x : Nat} : (negate bits (x % 2 ^ bits) : Int) = -(x : Int) % 2 ^ bits := by
  have hlt : x % 2 ^ bits < 2 ^ bits := Nat.mod_lt _ (Nat.two_pow_pos _)
  unfold negate
  rw [Int.natCast_emod, Int.ofNat_sub hlt.le]
  push_cast
  rw [Int.sub_emod, Int.emod_self, Int.emod_emod, ← Int.zero_emod, ← Int.sub_emod, Int.zero_sub]

/-- Folding and negating in `bits` bits. -/
theorem hash_eq {a : Arch} {bits : Nat} (hbits : a.digSize ≤ bits) {neg : Bool} {dig : List Nat}
    (hdig : ∀ d ∈ dig, d < 2 ^ a.digSize) :
    ((if neg then negate bits (mpzFold a bits dig) else mpzFold a bits dig : Nat) : Int) =
      (IntObj.mpz neg dig).value a % 2 ^ bits := by
  rw [mpzFold_eq hbits hdig]
  cases neg with
  | true =>
      rw [if_pos rfl, IntObj.value, if_pos rfl]
      exact negate_mod
  | false =>
      rw [if_neg (by decide), IntObj.value, if_neg (by decide)]
      exact Int.natCast_emod _ _

theorem getUint64_eq {a : Arch} {o : IntObj} (ho : o.Valid a) :
    (getUint64 a o : Int) = o.value a % 2 ^ 64 := by
  cases o with
  | small value => exact Int.toNat_of_nonneg (Int.emod_nonneg _ (by norm_num))
  | mpz neg dig => exact hash_eq (a.digSize_le.1.trans a.digSize_le.2) ho

theorem mpObjGetIntTruncated_eq {a : Arch} {o : IntObj} (ho : o.Valid a) :
    (mpObjGetIntTruncated a o : Int) = o.value a % 2 ^ (8 * a.ptrSize) := by
  cases o with
  | small value =>
      have hword : ((a.word : Nat) : Int) = 2 ^ (8 * a.ptrSize) := by
        unfold Arch.word
        push_cast
        rfl
      show ((value % a.word).toNat : Int) = value % 2 ^ (8 * a.ptrSize)
      rw [Int.toNat_of_nonneg (Int.emod_nonneg _ (by have := a.word_pos; omega)), hword]
  | mpz neg dig => exact hash_eq a.digSize_le.1 ho

/-! ## Stores -/

/-- The letters of integers. -/
def intLetters : List Char := ['b', 'B', 'h', 'H', 'i', 'I', 'l', 'L', 'n', 'N', 'E', 'q', 'Q']

/-- The bytes that the switch of `set_value` writes for an integer object. -/
def intBytes (a : Arch) (o : IntObj) : Char → Option (List UInt8)
  | 'b' | 'B' => some (leBytes 1 (mpObjGetIntTruncated a o))
  | 'h' | 'H' => some (leBytes 2 (mpObjGetIntTruncated a o))
  | 'i' | 'l' | 'I' | 'L' => some (leBytes 4 (mpObjGetIntTruncated a o))
  | 'n' | 'E' | 'N' =>
      if a.ptrSize = 4 then some (leBytes 4 (mpObjGetIntTruncated a o))
      else some (leBytes 8 (getUint64 a o))
  | 'q' | 'Q' => some (leBytes 8 (getUint64 a o))
  | _ => none

/-- `set_value` of an integer object, with an index that is no slice. -/
def setIntObj (a : Arch) (lib : BaseLib) (memory : Nat → UInt8) (self : Mem) (index : PyIndex)
    (o : IntObj) : Store :=
  storeEntry a lib memory self (.int (o.value a)) fun len =>
    Store.ofRes (elementIndex a self.type len index) fun i =>
      if len < i ∨ 0 < len ∧ i = len then .fail (.raise .indexError "Out of buffer")
      else
        match (self.typespec.bind List.head?).bind (intBytes a o) with
        | some bytes => .write (self.addr + i * bytes.length) bytes
        | none => storeElement a lib self (index == .none) (.int (o.value a)) (fun _ _ => .done) i len

theorem leBytes_mod {w bits : Nat} (hw : 8 * w ≤ bits) {x : Nat} {i : Int}
    (hx : (x : Int) = i % 2 ^ bits) : leBytes w x = leBytes w i := by
  rw [leBytes_eq_bytesOf, leBytes_eq_bytesOf]
  refine Ram.bytesOf_congr ?_
  have hpow : (256 : Int) ^ w = 2 ^ (8 * w) := by
    rw [show (256 : Int) = 2 ^ 8 from by norm_num, ← pow_mul]
  rw [hx, hpow]
  exact Int.emod_emod_of_dvd _ (pow_dvd_pow 2 hw)

/-- The bytes of the value, as many as the case has. -/
theorem intBytes_eq {a : Arch} {o : IntObj} (ho : o.Valid a) {c : Char} {bytes : List UInt8}
    (h : intBytes a o c = some bytes) :
    ∃ w, storeKind a (some c) = .direct w ∧ w = typeSize a c ∧ bytes = leBytes w (o.value a) := by
  have hshort : ∀ w, 8 * w ≤ 8 * a.ptrSize →
      leBytes w (mpObjGetIntTruncated a o) = leBytes w (o.value a) :=
    fun w hw => leBytes_mod hw (mpObjGetIntTruncated_eq ho)
  have hlong : leBytes 8 (getUint64 a o) = leBytes 8 (o.value a) :=
    leBytes_mod (by norm_num) (getUint64_eq ho)
  unfold intBytes at h
  split at h
  all_goals first
    | cases h
      exact ⟨1, rfl, rfl, hshort 1 (by cases a <;> decide)⟩
    | cases h
      exact ⟨2, rfl, rfl, hshort 2 (by cases a <;> decide)⟩
    | cases h
      exact ⟨4, rfl, rfl, hshort 4 (by cases a <;> decide)⟩
    | cases h
      exact ⟨8, rfl, rfl, hlong⟩
    | cases a <;> cases h
      · exact ⟨4, rfl, rfl, hshort 4 (by decide)⟩
      · exact ⟨8, rfl, rfl, hlong⟩
    | cases h

/-- The store of an integer object is the store of its value. -/
theorem setIntObj_eq {a : Arch} {lib : BaseLib} {memory : Nat → UInt8} {self : Mem}
    {index : PyIndex} {o : IntObj} (ho : o.Valid a) :
    setIntObj a lib memory self index o =
      storeAt a lib memory self index (.int (o.value a)) := by
  rw [storeAt, storeIndex, setIntObj]
  congr
  funext len
  congr
  funext i
  split
  · rfl
  · cases hb : (self.typespec.bind List.head?).bind (intBytes a o) with
    | none => rfl
    | some bytes =>
        rcases Option.bind_eq_some_iff.mp hb with ⟨c, hc, hbytes⟩
        rcases Option.bind_eq_some_iff.mp hc with ⟨t, ht, hhead⟩
        rcases intBytes_eq ho hbytes with ⟨w, hkind, -, rfl⟩
        simp only [storeElement, ht, hhead, hkind, storeInt, length_leBytes]

/-! ## Elements -/

/-- The letters of integers with a sign. -/
def signedLetter (c : Char) : Bool := ['b', 'h', 'i', 'l', 'n', 'q'].contains c

/-- An integer cut down to the range of a letter. -/
def wrapInt (a : Arch) (c : Char) (v : Int) : Int :=
  if signedLetter c then Int.bmod v (256 ^ typeSize a c) else v % 256 ^ typeSize a c

/-- The integer of a letter's type at an address. -/
def readInt (a : Arch) (memory : Nat → UInt8) (c : Char) (addr : Nat) : Int :=
  if signedLetter c then readSigned memory addr (typeSize a c) else readUnit memory addr (typeSize a c)

theorem intLetters_cases {c : Char} (h : c ∈ intLetters) :
    c = 'b' ∨ c = 'B' ∨ c = 'h' ∨ c = 'H' ∨ c = 'i' ∨ c = 'I' ∨ c = 'l' ∨ c = 'L' ∨ c = 'n' ∨
      c = 'N' ∨ c = 'E' ∨ c = 'q' ∨ c = 'Q' := by
  simpa [intLetters] using h

/-- What the two switches have for a letter of integers. -/
theorem intLetter_spec {c : Char} (h : c ∈ intLetters) (a : Arch) :
    loadKind a c = some
        (if signedLetter c then .signed (typeSize a c) else .unsigned (typeSize a c)) ∧
      storeKind a (some c) = .direct (typeSize a c) ∧ plainLetter c = true ∧
      0 < typeSize a c ∧ typeSize a c ≤ 8 := by
  rcases intLetters_cases h with
    rfl | rfl | rfl | rfl | rfl | rfl | rfl | rfl | rfl | rfl | rfl | rfl | rfl <;>
    cases a <;> decide

theorem intBytes_isSome {c : Char} (h : c ∈ intLetters) (a : Arch) (o : IntObj) :
    ∃ bytes, intBytes a o c = some bytes := by
  rcases intLetters_cases h with
    rfl | rfl | rfl | rfl | rfl | rfl | rfl | rfl | rfl | rfl | rfl | rfl | rfl <;>
    cases a <;> exact ⟨_, rfl⟩

/-- What is stored is read back, cut down to the letter's range. -/
theorem readInt_write {a : Arch} {c : Char} (hc : c ∈ intLetters) (ram : Ram a.word) (p : Nat)
    (v : Int) : readInt a (ram.write p (leBytes (typeSize a c) v)).byte c p = wrapInt a c v := by
  have hle : (leBytes (typeSize a c) v).length ≤ a.word := by
    rw [length_leBytes]
    have h8 := (intLetter_spec hc a).2.2.2.2
    have := a.word_large
    omega
  have hunit : (readUnit (ram.write p (leBytes (typeSize a c) v)).byte p (typeSize a c) : Int) =
      v % 256 ^ typeSize a c := by
    have hread := Ram.read_write a.word_pos ram p hle
    rw [length_leBytes] at hread
    rw [readUnit_ram, hread]
    exact Ram.ofBytes_bytesOf _ v
  unfold readInt wrapInt
  split
  · unfold readSigned Int.bmod
    push_cast
    rw [← hunit]
    have heven : (2 : Nat) ∣ 256 ^ typeSize a c :=
      (by norm_num : 2 ∣ 256).trans (dvd_pow_self 256 (intLetter_spec hc a).2.2.2.1.ne')
    rcases heven with ⟨half, hhalf⟩
    have hhalf' : (256 : Int) ^ typeSize a c = 2 * (half : Int) := by exact_mod_cast hhalf
    rw [hhalf, hhalf']
    split <;> split <;> omega
  · exact hunit

theorem readInt_congr {a : Arch} {c : Char} {memory memory' : Nat → UInt8} {p : Nat}
    (h : ∀ t < typeSize a c, memory (p + t) = memory' (p + t)) :
    readInt a memory c p = readInt a memory' c p := by
  have hunit : readUnit memory p (typeSize a c) = readUnit memory' p (typeSize a c) := by
    rw [readUnit_eq, readUnit_eq]
    congr 1
    refine List.map_congr_left ?_
    intro t ht
    exact h t (List.mem_range.mp ht)
  unfold readInt readSigned
  rw [hunit]

/-! ## Indexes -/

/-- `k` counts elements from the front or from the end, and the length is one that
`mp_obj_get_int` can take. -/
structure InRange (a : Arch) (m : Mem) (k : Int) : Prop where
  length : 2 * memLen m < a.word
  lower : -(memLen m : Int) ≤ k
  upper : k < memLen m

/-- The element that an index stands for. -/
def position (m : Mem) (k : Int) : Nat := (if k < 0 then k + memLen m else k).toNat

theorem InRange.position_lt {a : Arch} {m : Mem} {k : Int} (h : InRange a m k) :
    position m k < memLen m := by
  have h1 := h.lower
  have h2 := h.upper
  unfold position
  split <;> omega

theorem Arch.signed_eq (a : Arch) {x : Int} (h1 : -(a.word : Int) ≤ 2 * x) (h2 : 2 * x < a.word) :
    a.signed x = x := by
  unfold Arch.signed
  dsimp only
  by_cases hx : 0 ≤ x
  · have hmod : x % (a.word : Int) = x := Int.emod_eq_of_lt hx (by omega)
    rw [hmod, if_pos h2]
  · have hmod : x % (a.word : Int) = x + a.word := by
      rw [← Int.add_emod_right]
      exact Int.emod_eq_of_lt (by omega) (by omega)
    rw [hmod, if_neg (by omega)]
    omega

theorem getInt_natCast {a : Arch} {x : Nat} (hx : 2 * x < a.word) :
    getInt a (x : Int) = .ok (x : Int) :=
  if_pos (by omega)

/-- The indexes that are accepted are those in range. -/
theorem mpGetIndex_iff {a : Arch} {type : ObjType} {m : Mem} {k : Int} {i : Nat}
    (hlen : 2 * memLen m < a.word) :
    mpGetIndex a type (memLen m) k = .ok i ↔ InRange a m k ∧ i = position m k := by
  unfold mpGetIndex getInt
  by_cases hfit : -(a.word : Int) < 2 * k ∧ 2 * k < a.word
  · rw [if_pos hfit, bind_ok_left]
    -- an index that fits a word is counted from the end once
    have hwrap : wrapIndex a (memLen m) k = if k < 0 then k + memLen m else k := by
      unfold wrapIndex
      by_cases hneg : k < 0
      · rw [if_pos hneg, if_pos hneg, a.signed_eq (by omega) (by omega)]
      · rw [if_neg hneg, if_neg hneg]
    have hpos : position m k = (wrapIndex a (memLen m) k).toNat := by rw [hwrap]; rfl
    rw [hpos]
    by_cases hout : wrapIndex a (memLen m) k < 0 ∨ (memLen m : Int) ≤ wrapIndex a (memLen m) k
    · rw [if_pos hout]
      rw [hwrap] at hout
      constructor
      · intro h
        cases h
      · rintro ⟨hrange, -⟩
        have h1 := hrange.lower
        have h2 := hrange.upper
        split at hout <;> omega
    · rw [if_neg hout]
      rw [hwrap] at hout
      constructor
      · intro h
        cases h
        refine ⟨⟨hlen, ?_, ?_⟩, rfl⟩ <;> split at hout <;> omega
      · rintro ⟨-, rfl⟩
        rfl
  · rw [if_neg hfit]
    constructor
    · intro h
      cases h
    · rintro ⟨hrange, -⟩
      have h1 := hrange.lower
      have h2 := hrange.upper
      omega

theorem InRange.mpGetIndex_eq {a : Arch} {m : Mem} {k : Int} (hk : InRange a m k)
    (type : ObjType) : mpGetIndex a type (memLen m) k = .ok (position m k) :=
  (mpGetIndex_iff hk.length).mpr ⟨hk, rfl⟩

/-! ## Arrays of integers -/

/-- An object whose elements are integers of a letter's type. -/
structure IntArray (a : Arch) (c : Char) (m : Mem) : Prop where
  letter : c ∈ intLetters
  typespec : m.typespec = some [c]
  typesize : m.typesize = typeSize a c
  bitnum : m.bitnum = 0
  size_lt : m.size < a.word

section IntArray

variable {a : Arch} {c : Char} {m : Mem}

theorem IntArray.typesize_pos (h : IntArray a c m) : 0 < m.typesize := by
  rw [h.typesize]
  exact (intLetter_spec h.letter a).2.2.2.1

/-- The bytes of an element are bytes of the object. -/
theorem IntArray.element_le (h : IntArray a c m) {i : Nat} (hi : i < memLen m) :
    i * typeSize a c + typeSize a c ≤ m.size := by
  have hmul : (i + 1) * m.typesize ≤ memLen m * m.typesize := Nat.mul_le_mul_right _ hi
  have hsize := memLen_mul_le m
  rw [Nat.succ_mul, h.typesize] at hmul
  rw [h.typesize] at hsize
  omega

theorem IntArray.getValue_eq (h : IntArray a c m) {ns : Namespace} {n : Nat} {lib : LoadLib}
    {memory : Nat → UInt8} (haddr : m.addr ≠ 0) {k : Int} (hk : InRange a m k) :
    getValue a ns n lib memory m (.int k) =
      .ok (.int (readInt a memory c (m.addr + position m k * typeSize a c))) := by
  have hint := getInt_natCast hk.length
  have hpos := hk.position_lt
  have hindex := hk.mpGetIndex_eq m.type
  have hlen : (if (memLen m : Int) = 0 then a.word - 1 else (memLen m : Int).toNat) = memLen m := by
    rw [if_neg (by omega), Int.toNat_natCast]
  unfold getValue
  rw [if_neg haddr, if_neg (by rw [h.bitnum]; omega), hint]
  simp only [bind_ok_left, hlen, elementIndex, hindex]
  rw [if_neg (by omega)]
  have hchar : typechar m = some c := by rw [typechar, h.typespec]; rfl
  unfold loadElement readInt
  rw [hchar, Option.bind_some, (intLetter_spec h.letter a).1]
  cases signedLetter c <;> rfl

theorem IntArray.setIntObj_eq_write (h : IntArray a c m) (hro : m.readonly = false)
    {lib : BaseLib} {memory : Nat → UInt8} {k : Int} (hk : InRange a m k) {o : IntObj}
    (ho : o.Valid a) :
    setIntObj a lib memory m (.int k) o =
      .write (m.addr + position m k * typeSize a c) (leBytes (typeSize a c) (o.value a)) := by
  have hint := getInt_natCast hk.length
  have hpos := hk.position_lt
  have hindex := hk.mpGetIndex_eq m.type
  rcases intBytes_isSome h.letter a o with ⟨bytes, hbytes⟩
  rcases intBytes_eq ho hbytes with ⟨w, -, rfl, rfl⟩
  unfold setIntObj storeEntry
  rw [hro, if_neg (by decide), if_neg (by rw [h.bitnum]; omega), hint]
  simp only [Store.ofRes, Int.toNat_natCast, elementIndex, hindex]
  rw [if_neg (by omega), h.typespec]
  simp only [Option.bind_some, List.head?_cons, hbytes, length_leBytes]

/-- `set_value` takes the indexes in range, and no others. -/
theorem IntArray.setIntObj_stop_iff (h : IntArray a c m) (hro : m.readonly = false)
    {lib : BaseLib} {memory : Nat → UInt8} {k : Int} {o : IntObj} (ho : o.Valid a) :
    (setIntObj a lib memory m (.int k) o).stop = none ↔ InRange a m k := by
  constructor
  · intro hstop
    unfold setIntObj storeEntry at hstop
    rw [hro, if_neg (by decide), if_neg (by rw [h.bitnum]; omega)] at hstop
    cases hint : getInt a (memLen m : Int) with
    | error e =>
        rw [hint] at hstop
        cases hstop
    | ok len =>
        rcases getInt_ok hint with ⟨rfl, -, hlen⟩
        rw [hint] at hstop
        simp only [Store.ofRes, Int.toNat_natCast, elementIndex] at hstop
        cases hindex : mpGetIndex a m.type (memLen m) k with
        | error e =>
            rw [hindex] at hstop
            cases hstop
        | ok i => exact ((mpGetIndex_iff (by omega)).mp hindex).1
  · intro hk
    rw [h.setIntObj_eq_write hro hk ho]
    rfl

end IntArray

/-! ## New objects -/

/-- The first argument asks for elements of a letter's type: a count and the letter, or a
number of bytes. -/
def ElementsOf (c : Char) : MemArg → Prop
  | .spec t => ∃ ds : Str, (∀ d ∈ ds, d.isDigit = true) ∧ t = ds ++ [c]
  | .len _ => c = 'B'

theorem castByStr_intLetter {a : Arch} {deref : Mem → Str → Res Mem} {c : Char}
    (hc : c ∈ intLetters) (self : Mem) :
    castByStr a deref self [c] =
      .ok { self with typespec := some [c], typesize := typeSize a c } := by
  unfold castByStr
  rw [byStrLoop_plain a deref (intLetter_spec hc a).2.2.1, byStrLoop_nil]
  rfl

theorem isAlpha_of_plainLetter {c : Char} (h : plainLetter c = true) : c.isAlpha = true := by
  simp only [plainLetter, Bool.and_eq_true] at h
  exact h.1

theorem efiMemNewN_letter {a : Arch} {ns : Namespace} {n buf len : Nat} {c : Char}
    (hc : c ∈ intLetters) {readonly pmem : Bool} :
    efiMemNewN a ns n buf len (some [c]) readonly pmem = .ok (Mem.sized a
      { blank buf readonly with typespec := some [c], typesize := typeSize a c } len pmem) := by
  show (castByStr a (castByName a ns n) (blank buf readonly) [c] >>= fun self =>
    .ok (self.sized a len pmem)) = _
  rw [castByStr_intLetter hc]
  rfl

theorem intArray_sized {c : Char} (hc : c ∈ intLetters) (a : Arch) (buf len : Nat)
    (readonly pmem : Bool) :
    IntArray a c (Mem.sized a
      { blank buf readonly with typespec := some [c], typesize := typeSize a c } len pmem) :=
  ⟨hc, rfl, rfl, rfl, Nat.mod_lt _ a.word_pos⟩

theorem efiMemNew_count {a : Arch} {ns : Namespace} {n buf : Nat} {ds : Str} {c : Char}
    (hds : ∀ d ∈ ds, d.isDigit = true) (hc : c ∈ intLetters) {readonly pmem : Bool} :
    efiMemNew a ns n buf (some (ds ++ [c])) readonly pmem =
      efiMemNewN a ns n buf (repeatCount a (ds ++ [c])) (some [c]) readonly pmem := by
  have hα := isAlpha_of_plainLetter (intLetter_spec hc a).2.2.1
  show newN a (castByName a ns n) buf _ (some (afterCount (ds ++ [c]))) readonly pmem = _
  rw [afterCount_count hds hα []]
  rfl

/-- A new object is an array of what was asked for, moved or not. -/
theorem efiMemMakeNew_intArray {a : Arch} {ns : Namespace} {n addr : Nat} {arg : MemArg}
    {pmem readonly : Bool} {alloc : Nat → Nat} {c : Char} (hc : c ∈ intLetters)
    (harg : ElementsOf c arg) {m : Mem}
    (hm : efiMemMakeNew a ns n arg addr pmem readonly alloc = .ok m) :
    IntArray a c m ∧ m.readonly = readonly := by
  rcases bind_ok.mp hm with ⟨p, hp, hm⟩
  have hp' : IntArray a c p.1 ∧ p.1.readonly = readonly := by
    cases arg with
    | len k =>
        cases harg
        rw [makeNewObj, efiMemNewN_letter hc] at hp
        cases hp
        exact ⟨intArray_sized hc _ _ _ _ _, rfl⟩
    | spec t =>
        rcases harg with ⟨ds, hds, rfl⟩
        have hne : ds ++ [c] ≠ [] := List.append_ne_nil_of_right_ne_nil ds (List.cons_ne_nil c [])
        unfold makeNewObj at hp
        split at hp
        · next heq => exact absurd (MemArg.spec.inj heq) hne
        · next heq =>
            cases heq
            rw [efiMemNew_count hds hc, efiMemNewN_letter hc] at hp
            cases hp
            exact ⟨intArray_sized hc _ _ _ _ _, rfl⟩
        · next heq => cases heq
  split at hm
  · rcases efiMemUpdateAddr_ok hm with ⟨fields, rfl, -⟩
    exact ⟨⟨hc, hp'.1.typespec, hp'.1.typesize, hp'.1.bitnum, hp'.1.size_lt⟩, hp'.2⟩
  · cases hm
    exact hp'

/-! ## There and back -/

/-- Elements at different positions have no byte in common, and lie in the object. -/
theorem IntArray.not_covers {a : Arch} {c : Char} {m : Mem} (h : IntArray a c m) {i j q : Nat}
    (hi : i < memLen m) (hj : j < memLen m) (hne : i ≠ j)
    (hq : Ram.Covers a.word (m.addr + i * typeSize a c) (typeSize a c) q) :
    ¬ Ram.Covers a.word (m.addr + j * typeSize a c) (typeSize a c) q := by
  have hile := h.element_le hi
  have hjle := h.element_le hj
  have hsize := h.size_lt
  refine Ram.not_covers_of_offset (by omega) (by omega) ?_ hq
  rcases Nat.lt_or_gt_of_ne hne with hlt | hgt
  · left
    have hmul : (i + 1) * typeSize a c ≤ j * typeSize a c := Nat.mul_le_mul_right _ hlt
    rw [Nat.succ_mul] at hmul
    exact hmul
  · right
    have hmul : (j + 1) * typeSize a c ≤ i * typeSize a c := Nat.mul_le_mul_right _ hgt
    rw [Nat.succ_mul] at hmul
    exact hmul

/-- An integer that is stored in an element of a new object is loaded again, cut down to the
range of the letter; the other elements and the bytes around the object stay as they were. The
indexes that can be stored to are those in range. -/
theorem scalar_round_trip (a : Arch) (ns : Namespace) (n : Nat) (lib : LoadLib) (base : BaseLib)
    (alloc : Nat → Nat) (arg : MemArg) (addr : Nat) (pmem : Bool) (c : Char) (m : Mem)
    (ram : Ram a.word) (k : Int) (o : IntObj) (hc : c ∈ intLetters) (harg : ElementsOf c arg)
    (hm : efiMemMakeNew a ns n arg addr pmem false alloc = .ok m) (haddr : m.addr ≠ 0)
    (ho : o.Valid a) :
    ((setIntObj a base ram.byte m (.int k) o).stop = none ↔ InRange a m k) ∧
    (InRange a m k →
      getValue a ns n lib ((setIntObj a base ram.byte m (.int k) o).apply ram).byte m (.int k) =
          .ok (.int (wrapInt a c (o.value a))) ∧
        (∀ j : Int, InRange a m j → position m j ≠ position m k →
          getValue a ns n lib ((setIntObj a base ram.byte m (.int k) o).apply ram).byte m (.int j) =
            getValue a ns n lib ram.byte m (.int j)) ∧
        ∀ q, ¬ Ram.Covers a.word m.addr m.size q →
          ((setIntObj a base ram.byte m (.int k) o).apply ram).byte q = ram.byte q) := by
  rcases efiMemMakeNew_intArray hc harg hm with ⟨hints, hro⟩
  refine ⟨hints.setIntObj_stop_iff hro ho, ?_⟩
  intro hk
  have hpos := hk.position_lt
  rw [hints.setIntObj_eq_write hro hk ho, apply_write]
  refine ⟨?_, ?_, ?_⟩
  · rw [hints.getValue_eq haddr hk, readInt_write hc]
  · intro j hj hne
    rw [hints.getValue_eq haddr hj, hints.getValue_eq haddr hj]
    congr 2
    refine readInt_congr ?_
    intro t ht
    refine Ram.byte_write_of_not_covers a.word_pos ram ?_
    rw [length_leBytes]
    exact hints.not_covers hj.position_lt hpos hne ⟨t, ht, rfl⟩
  · intro q hq
    refine Ram.byte_write_of_not_covers a.word_pos ram ?_
    rw [length_leBytes]
    intro hcovers
    exact hq (hcovers.widen (hints.element_le hpos))

/-- A large negative integer in the last of four 64-bit words. -/
theorem scalar_round_trip_last_word :
    ∃ m, efiMemMakeNew .x64 noNames 0 (.spec ['4', 'q']) 4096 false false id = .ok m ∧
      getValue .x64 noNames 0 ⟨fun _ _ _ _ => 0, id⟩
        ((setIntObj .x64 baseLib (fun _ => 0) m (.int (-1)) (.mpz true [0, 256])).apply
          (⟨fun _ => 0, fun _ => rfl⟩ : Ram (Arch.word .x64))).byte m (.int (-1)) =
        .ok (.int (-1099511627776)) := by
  have hdigits : ∀ d ∈ ['4'], d.isDigit = true := by
    intro d hd
    cases List.mem_singleton.mp hd
    rfl
  have hnew : efiMemNew .x64 noNames 0 4096 (some (['4'] ++ ['q'])) false false =
      .ok (Mem.sized .x64 { blank 4096 false with typespec := some ['q'], typesize := 8 } 4 false) := by
    rw [efiMemNew_count hdigits (by decide), efiMemNewN_letter (by decide)]
    rfl
  have hmake : efiMemMakeNew .x64 noNames 0 (.spec ['4', 'q']) 4096 false false id =
      .ok (Mem.sized .x64 { blank 4096 false with typespec := some ['q'], typesize := 8 } 4 false) := by
    show ((fun m : Mem => (m, if 0 < m.size then m.size else m.typesize)) <$>
      efiMemNew .x64 noNames 0 4096 (some (['4'] ++ ['q'])) false false) >>= _ = _
    rw [hnew]
    rfl
  refine ⟨_, hmake, ?_⟩
  have hvalid : (IntObj.mpz true [0, 256]).Valid .x64 := by
    intro d hd
    revert d
    decide
  have h := scalar_round_trip .x64 noNames 0 ⟨fun _ _ _ _ => 0, id⟩ baseLib id (.spec ['4', 'q'])
    4096 false 'q' _ ⟨fun _ => 0, fun _ => rfl⟩ (-1) (.mpz true [0, 256]) (by decide)
    ⟨['4'], hdigits, rfl⟩ hmake (by decide) hvalid
  have hlen : memLen (Mem.sized .x64 { blank 4096 false with
      typespec := some ['q'], typesize := 8 } 4 false) = 4 := by
    decide
  exact (h.2 ⟨by rw [hlen]; decide, by rw [hlen]; decide, by rw [hlen]; decide⟩).1

end EfiLvgl.Uefi
