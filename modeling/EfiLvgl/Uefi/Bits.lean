import EfiLvgl.Uefi.Scalar

/-!
# EfiLvgl.Uefi.Bits — bit fields through memory and back

`set_bits` writes the whole unit of the base type, with the value cut down to that type and
then to the field; `get_bits` reads no more bytes than reach to the last bit. In memory with
the lowest byte first these are the low part of the same unit, so a field is read back as it
was written and nothing around it changes (`bits_round_trip`).
-/

namespace EfiLvgl.Uefi

/-- What the base library does with bit fields and shifts. -/
structure BitFields (base : BaseLib) (lib : LoadLib) : Prop where
  shift : ∀ operand count, count < 64 → base.lShiftU64 operand count = operand * 2 ^ count % 2 ^ 64
  write : ∀ width operand startBit endBit value i, startBit ≤ endBit → endBit < 8 * width →
    operand < 2 ^ (8 * width) → value < 2 ^ (endBit + 1 - startBit) →
    (base.bitFieldWrite width operand startBit endBit value).testBit i =
      if startBit ≤ i ∧ i ≤ endBit then value.testBit (i - startBit) else operand.testBit i
  read : ∀ width operand startBit endBit i, startBit ≤ endBit → endBit < 8 * width →
    operand < 2 ^ (8 * width) →
    (lib.bitFieldRead width operand startBit endBit).testBit i =
      (decide (startBit + i ≤ endBit) && operand.testBit (startBit + i))

/-! ## The store -/

/-- The width of the base type and the integer that `set_bits` casts to it. -/
def bitValue (a : Arch) (o : IntObj) : Char → Option (Nat × Nat)
  | 'B' => some (1, mpObjGetIntTruncated a o % 2 ^ 8)
  | 'H' => some (2, mpObjGetIntTruncated a o % 2 ^ 16)
  | 'I' | 'L' => some (4, mpObjGetIntTruncated a o % 2 ^ 32)
  | 'N' =>
      if a.ptrSize = 4 then some (4, mpObjGetIntTruncated a o % 2 ^ 32)
      else some (8, getUint64 a o)
  | 'Q' => some (8, getUint64 a o)
  | _ => none

/-- `set_bits` of an integer object. -/
def setBitsObj (a : Arch) (base : BaseLib) (memory : Nat → UInt8) (self : Mem) (o : IntObj) :
    Store :=
  match self.typespec with
  | none => .fail .fault
  | some t =>
      match t.head?.bind (bitValue a o) with
      | none => .fail (.raise .valueError "Not supported base type of bitfield to dereference")
      | some (w, value) =>
          let bitend := self.bitoff + self.bitnum - 1
          let mask := (base.lShiftU64 1 self.bitnum + 2 ^ 64 - 1) % 2 ^ 64
          let old := readUnit memory self.addr w
          .write self.addr
            (leBytes w (base.bitFieldWrite w old self.bitoff bitend (value &&& mask)))

theorem toNat_emod_two_pow {x k b : Nat} {i : Int} (hk : k ≤ b) (hx : (x : Int) = i % 2 ^ b) :
    x % 2 ^ k = (i % 2 ^ k).toNat := by
  have hcast : ((x % 2 ^ k : Nat) : Int) = i % 2 ^ k := by
    push_cast
    rw [hx]
    exact Int.emod_emod_of_dvd _ (pow_dvd_pow 2 hk)
  have hnonneg : 0 ≤ i % 2 ^ k := Int.emod_nonneg i (by positivity)
  omega

/-- Each case casts the value to the base type. -/
theorem bitValue_eq {a : Arch} {o : IntObj} (ho : o.Valid a) (c : Char) :
    bitValue a o c =
      (bitWidth a c).map fun w => (w, (o.value a % 2 ^ (8 * w)).toNat) := by
  have hshort : ∀ k, k ≤ 8 * a.ptrSize →
      mpObjGetIntTruncated a o % 2 ^ k = (o.value a % 2 ^ k).toNat :=
    fun k hk => toNat_emod_two_pow hk (mpObjGetIntTruncated_eq ho)
  have hlong : getUint64 a o = (o.value a % 2 ^ 64).toNat := by
    rw [← getUint64_eq ho]
    rfl
  unfold bitValue bitWidth
  split
  · rw [hshort 8 (by cases a <;> decide)]
    rfl
  · rw [hshort 16 (by cases a <;> decide)]
    rfl
  · rw [hshort 32 (by cases a <;> decide)]
    rfl
  · rw [hshort 32 (by cases a <;> decide)]
    rfl
  · -- a pointer is 32 bits on IA32 and 64 on X64
    cases a with
    | ia32 =>
        rw [hshort 32 (by decide)]
        rfl
    | x64 =>
        rw [hlong]
        rfl
  · rw [hlong]
    rfl
  · simp_all

/-- The store of an integer object is the store of its value. -/
theorem setBitsObj_eq {a : Arch} {base : BaseLib} {memory : Nat → UInt8} {self : Mem} {o : IntObj}
    (ho : o.Valid a) :
    setBitsObj a base memory self o = setBits a base memory self (.int (o.value a)) := by
  unfold setBitsObj setBits
  cases self.typespec with
  | none => rfl
  | some t =>
      dsimp only
      have hbind : t.head?.bind (bitValue a o) =
          (t.head?.bind (bitWidth a)).map fun w => (w, (o.value a % 2 ^ (8 * w)).toNat) := by
        cases t.head? with
        | none => rfl
        | some c => exact bitValue_eq ho c
      rw [hbind]
      cases t.head?.bind (bitWidth a) <;> rfl

/-! ## There and back -/

section RoundTrip

variable {a : Arch} {base : BaseLib} {lib : LoadLib} (hlib : BitFields base lib)

include hlib

theorem and_mask {n x : Nat} (hn : n ≤ 63) :
    x &&& (base.lShiftU64 1 n + 2 ^ 64 - 1) % 2 ^ 64 = x % 2 ^ n := by
  have hlt : 2 ^ n < 2 ^ 64 := Nat.pow_lt_pow_right (by norm_num) (by omega)
  have hpos : 0 < 2 ^ n := Nat.two_pow_pos n
  have hmask : (base.lShiftU64 1 n + 2 ^ 64 - 1) % 2 ^ 64 = 2 ^ n - 1 := by
    rw [hlib.shift 1 n (by omega), Nat.one_mul, Nat.mod_eq_of_lt hlt]
    omega
  rw [hmask, Nat.and_two_pow_sub_one_eq_mod]

/-- The field is read back from the low part of the unit. -/
theorem bitFieldRead_write {w r x s e v : Nat} (hse : s ≤ e) (he : e < 8 * w) (hr : e < 8 * r)
    (hx : x < 2 ^ (8 * w)) (hv : v < 2 ^ (e + 1 - s)) :
    lib.bitFieldRead r (base.bitFieldWrite w x s e v % 2 ^ (8 * r)) s e = v := by
  refine Nat.eq_of_testBit_eq ?_
  intro i
  rw [hlib.read r _ s e i hse hr (Nat.mod_lt _ (Nat.two_pow_pos _)), Nat.testBit_mod_two_pow,
    hlib.write w x s e v _ hse he hx hv]
  by_cases hi : s + i ≤ e
  · rw [if_pos (by omega), Nat.add_sub_cancel_left]
    simp [hi, show s + i < 8 * r by omega]
  · have hfalse : v.testBit i = false :=
      Nat.testBit_lt_two_pow (hv.trans_le (Nat.pow_le_pow_right (by norm_num) (by omega)))
    simp [hi, hfalse]

end RoundTrip

theorem pow_256 (w : Nat) : (256 : Nat) ^ w = 2 ^ (8 * w) := by
  rw [show (256 : Nat) = 2 ^ 8 from rfl, ← pow_mul]

/-- After a unit is written, its low part is read. -/
theorem readUnit_write_low {a : Arch} (ram : Ram a.word) (p : Nat) {w r x : Nat} (hr : r ≤ w)
    (hw : w ≤ 8) :
    readUnit (ram.write p (leBytes w x)).byte p r = x % 2 ^ (8 * r) := by
  have hlen : (leBytes w x).length = w := length_leBytes w x
  have hword := a.word_large
  have hpart : 0 + r ≤ (leBytes w x).length := by omega
  have hread := Ram.read_write_part a.word_pos ram p hpart (by omega)
  rw [Nat.add_zero, List.drop_zero] at hread
  have hvalue : Ram.ofBytes (leBytes w x) = x % 256 ^ w := by
    have h := Ram.ofBytes_bytesOf w (x : Int)
    exact_mod_cast h
  rw [readUnit_ram, hread, Ram.ofBytes_take, hvalue, ← pow_256]
  exact Nat.mod_mod_of_dvd _ (pow_dvd_pow 256 hr)

/-- A bit field that is written is read back as its value modulo the width; the other bits of
the unit and the bytes around it stay as they were. -/
theorem bits_round_trip (a : Arch) (base : BaseLib) (lib : LoadLib) (hlib : BitFields base lib)
    (m : Mem) (c : Char) (t : Str) (ram : Ram a.word) (o : IntObj) (hc : baseLetter c = true)
    (hspec : m.typespec = some (c :: t)) (hsize : m.typesize = typeSize a c) (hnum : 1 ≤ m.bitnum)
    (hnum63 : m.bitnum ≤ 63) (hfit : m.bitoff + m.bitnum ≤ 8 * m.typesize) (ho : o.Valid a) :
    (setBitsObj a base ram.byte m o).stop = none ∧
    getBits lib ((setBitsObj a base ram.byte m o).apply ram).byte m =
      o.value a % 2 ^ m.bitnum ∧
    (∀ i < 8 * m.typesize, ¬ (m.bitoff ≤ i ∧ i < m.bitoff + m.bitnum) →
      (readUnit ((setBitsObj a base ram.byte m o).apply ram).byte m.addr m.typesize).testBit i =
        (readUnit ram.byte m.addr m.typesize).testBit i) ∧
    ∀ q, ¬ Ram.Covers a.word m.addr m.typesize q →
      ((setBitsObj a base ram.byte m o).apply ram).byte q = ram.byte q := by
  have hwidth : bitWidth a c = some (typeSize a c) := by
    rcases baseLetter_cases hc with rfl | rfl | rfl | rfl | rfl | rfl <;> cases a <;> rfl
  have hle8 : typeSize a c ≤ 8 := (baseLetter_spec hc a).2.2.2
  have hone : 1 ≤ typeSize a c := (baseLetter_spec hc a).2.2.1
  rw [hsize] at hfit ⊢
  -- the value, cut down to the base type and then to the field
  have hvalue : (o.value a % 2 ^ (8 * typeSize a c)).toNat % 2 ^ m.bitnum =
      (o.value a % 2 ^ m.bitnum).toNat := by
    refine toNat_emod_two_pow (b := 8 * typeSize a c) (by omega) ?_
    exact Int.toNat_of_nonneg (Int.emod_nonneg _ (by positivity))
  have hunit : readUnit ram.byte m.addr (typeSize a c) < 2 ^ (8 * typeSize a c) := by
    rw [← pow_256]
    exact readUnit_lt _ _ _
  have hv : (o.value a % 2 ^ m.bitnum).toNat < 2 ^ (m.bitoff + m.bitnum - 1 + 1 - m.bitoff) := by
    have hlt : o.value a % 2 ^ m.bitnum < 2 ^ m.bitnum := Int.emod_lt_of_pos _ (by positivity)
    have hnonneg : 0 ≤ o.value a % 2 ^ m.bitnum := Int.emod_nonneg _ (by positivity)
    have hexp : m.bitoff + m.bitnum - 1 + 1 - m.bitoff = m.bitnum := by omega
    rw [hexp]
    zify
    rw [Int.toNat_of_nonneg hnonneg]
    exact hlt
  have hstore : setBitsObj a base ram.byte m o =
      .write m.addr (leBytes (typeSize a c) (base.bitFieldWrite (typeSize a c)
        (readUnit ram.byte m.addr (typeSize a c)) m.bitoff (m.bitoff + m.bitnum - 1)
        (o.value a % 2 ^ m.bitnum).toNat)) := by
    unfold setBitsObj
    rw [hspec]
    simp only [List.head?_cons, Option.bind_some, bitValue_eq ho, hwidth, Option.map_some,
      and_mask hlib hnum63, hvalue]
  rw [hstore, apply_write]
  refine ⟨rfl, ?_, ?_, ?_⟩
  · have hback : ∀ r, r ≤ typeSize a c → m.bitoff + m.bitnum - 1 < 8 * r →
        (lib.bitFieldRead r (readUnit (ram.write m.addr (leBytes (typeSize a c)
          (base.bitFieldWrite (typeSize a c) (readUnit ram.byte m.addr (typeSize a c)) m.bitoff
            (m.bitoff + m.bitnum - 1) (o.value a % 2 ^ m.bitnum).toNat))).byte m.addr r) m.bitoff
          (m.bitoff + m.bitnum - 1) : Int) = o.value a % 2 ^ m.bitnum := by
      intro r hr hend
      rw [readUnit_write_low ram m.addr hr hle8,
        bitFieldRead_write hlib (by omega) (by omega) hend hunit hv]
      exact Int.toNat_of_nonneg (Int.emod_nonneg _ (by positivity))
    unfold getBits
    dsimp only
    -- the width that is read is never more than the unit's
    rcases baseLetter_cases hc with rfl | rfl | rfl | rfl | rfl | rfl <;> cases a <;>
      simp only [typeSize, Arch.ptrSize] at hback hfit ⊢ <;>
      split_ifs <;> refine hback _ ?_ ?_ <;> omega
  · intro i hi hout
    rw [readUnit_write_low ram m.addr le_rfl hle8, Nat.testBit_mod_two_pow,
      hlib.write _ _ _ _ _ _ (by omega) (by omega) hunit hv, if_neg (by omega)]
    simp [hi]
  · intro q hq
    refine Ram.byte_write_of_not_covers a.word_pos ram ?_
    rw [length_leBytes]
    exact hq

/-! ## A library -/

/-- Bit fields by masks and shifts. -/
def maskLib : BaseLib where
  bitFieldWrite := fun width operand startBit endBit value =>
    operand &&& ((2 ^ (8 * width) - 1) ^^^ (2 ^ (endBit + 1 - startBit) - 1) <<< startBit) |||
      value <<< startBit
  lShiftU64 := fun operand count => operand <<< count % 2 ^ 64
  asciiStrToGuid := fun _ => none

def shiftLib : LoadLib where
  bitFieldRead := fun _ operand startBit endBit =>
    operand >>> startBit % 2 ^ (endBit + 1 - startBit)
  guidToString := id

theorem bitFields_maskLib : BitFields maskLib shiftLib where
  shift operand count _ := by
    show operand <<< count % 2 ^ 64 = _
    rw [Nat.shiftLeft_eq]
  write width operand startBit endBit value i hse hend hoperand hvalue := by
    have hclear : startBit ≤ i → endBit < i → value.testBit (i - startBit) = false :=
      fun _ hi => Nat.testBit_lt_two_pow
        (hvalue.trans_le (Nat.pow_le_pow_right (by norm_num) (by omega)))
    have htop : 8 * width ≤ i → operand.testBit i = false :=
      fun hi => Nat.testBit_lt_two_pow
        (hoperand.trans_le (Nat.pow_le_pow_right (by norm_num) hi))
    simp only [maskLib, Nat.testBit_or, Nat.testBit_and, Nat.testBit_xor, Nat.testBit_shiftLeft,
      Nat.testBit_two_pow_sub_one]
    by_cases hs : startBit ≤ i
    · by_cases he : i ≤ endBit
      · simp [hs, he, show i < 8 * width by omega, show i - startBit < endBit + 1 - startBit by omega]
      · by_cases hw : i < 8 * width
        · simp [hs, he, hw, hclear hs (by omega), show ¬ i - startBit < endBit + 1 - startBit by omega]
        · simp [hs, he, hw, hclear hs (by omega), htop (by omega)]
    · by_cases hw : i < 8 * width
      · simp [hs, hw]
      · simp [hs, hw, htop (by omega)]
  read width operand startBit endBit i _ _ _ := by
    simp only [shiftLib, Nat.testBit_mod_two_pow, Nat.testBit_shiftRight]
    congr 1
    simp only [decide_eq_decide]
    omega

/-- Five bits in the middle of a byte that had all bits set. -/
theorem bits_round_trip_byte :
    let m : Mem := { blank 4096 false with
      typespec := some ['B'], typesize := 1, size := 1, bitoff := 2, bitnum := 5 }
    let ram : Ram (Arch.word .x64) := ⟨fun _ => 255, fun _ => rfl⟩
    getBits shiftLib
        ((setBitsObj .x64 maskLib ram.byte m (.mpz true [3, 1])).apply ram).byte m = 29 := by
  intro m ram
  have hvalid : (IntObj.mpz true [3, 1]).Valid .x64 := by
    intro d hd
    revert d
    decide
  have h := bits_round_trip .x64 maskLib shiftLib bitFields_maskLib m 'B' [] ram (.mpz true [3, 1])
    (by decide) rfl (by decide) (by decide) (by decide) (by decide) hvalid
  rw [h.2.1]
  decide

end EfiLvgl.Uefi
