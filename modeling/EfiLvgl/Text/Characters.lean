import EfiLvgl.Uefi.Load

/-!
# EfiLvgl.Text.Characters — characters as bytes and as 16-bit units

Scripts have texts in UTF-8 and the firmware has them in 16-bit units. What one turn of the
decoding loop makes of the bytes of a unit is that unit (`decodeUnit_char`), so that texts of
units come through UTF-8 (`utf8ToUnicode_unicodeToUtf8`).
-/

namespace EfiLvgl.Text

open EfiLvgl.Uefi

/-! ## UTF-8 -/

theorem mask_tail : ∀ x : Fin 64, UInt8.ofNat (0x80 + x) &&& 0x3F = UInt8.ofNat x ∧
    UInt8.ofNat (0x80 + x) &&& 0xC0 = 0x80 := by
  decide

theorem mask_one : ∀ x : Fin 128, UInt8.ofNat x &&& 0xE0 ≠ 0xE0 ∧
    UInt8.ofNat x &&& 0xC0 ≠ 0xC0 ∧ UInt8.ofNat x &&& 0xC0 ≠ 0x80 := by
  decide

theorem mask_two : ∀ x : Fin 32, UInt8.ofNat (0xC0 + x) &&& 0xE0 ≠ 0xE0 ∧
    UInt8.ofNat (0xC0 + x) &&& 0xC0 = 0xC0 ∧ UInt8.ofNat (0xC0 + x) &&& 0x1F = UInt8.ofNat x := by
  decide

theorem mask_three : ∀ x : Fin 16, UInt8.ofNat (0xE0 + x) &&& 0xE0 = 0xE0 ∧
    UInt8.ofNat (0xE0 + x) &&& 0xC0 = 0xC0 ∧ UInt8.ofNat (0xE0 + x) &&& 0x0F = UInt8.ofNat x := by
  decide

theorem or_low {i x : Nat} (m : Nat) (hx : x < 2 ^ i) : 2 ^ i * m ||| x = 2 ^ i * m + x :=
  (Nat.two_pow_add_eq_or_of_lt hx m).symm

/-- The bytes of a character. -/
theorem utf8OfUnicode_eq (c : UInt16) : utf8OfUnicode c =
    if c.toNat < 0x80 then [UInt8.ofNat c.toNat]
    else if c.toNat < 0x800 then
      [UInt8.ofNat (0xC0 + c.toNat / 64), UInt8.ofNat (0x80 + c.toNat % 64)]
    else
      [UInt8.ofNat (0xE0 + c.toNat / 4096), UInt8.ofNat (0x80 + c.toNat / 64 % 64),
        UInt8.ofNat (0x80 + c.toNat % 64)] := by
  have hc := c.toNat_lt
  have hand : ∀ x : Nat, x &&& 63 = x % 64 := fun x => Nat.and_two_pow_sub_one_eq_mod x 6
  have hand4 : ∀ x : Nat, x &&& 15 = x % 16 := fun x => Nat.and_two_pow_sub_one_eq_mod x 4
  have hone : c < 0x80 ↔ c.toNat < 0x80 := UInt16.lt_iff_toNat_lt
  have htwo : c < 0x800 ↔ c.toNat < 0x800 := UInt16.lt_iff_toNat_lt
  -- the tail byte is the same in the two longer forms
  have htail : ((0x80 : UInt16) ||| (c &&& 0x3F)).toUInt8 = UInt8.ofNat (0x80 + c.toNat % 64) := by
    apply UInt8.toNat_inj.mp
    simp only [UInt16.toNat_toUInt8, UInt16.toNat_or, UInt16.toNat_and, UInt8.toNat_ofNat']
    show (2 ^ 6 * 2 ||| (c.toNat &&& 63)) % 2 ^ 8 = _
    rw [hand, or_low 2 (show c.toNat % 64 < 2 ^ 6 by omega)]
    rfl
  unfold utf8OfUnicode
  simp only [hone, htwo]
  split
  · rfl
  · split
    · next h2 =>
        have hlead : ((0xC0 : UInt16) ||| (c >>> 6)).toUInt8 =
            UInt8.ofNat (0xC0 + c.toNat / 64) := by
          apply UInt8.toNat_inj.mp
          simp only [UInt16.toNat_toUInt8, UInt16.toNat_or, UInt16.toNat_shiftRight,
            UInt8.toNat_ofNat']
          show (2 ^ 6 * 3 ||| c.toNat >>> 6) % 2 ^ 8 = _
          rw [Nat.shiftRight_eq_div_pow, or_low 3 (show c.toNat / 2 ^ 6 < 2 ^ 6 by omega)]
          rfl
        rw [hlead, htail]
    · -- three bytes
      have hlead : ((0xE0 : UInt16) ||| ((c >>> 12) &&& 0x000F)).toUInt8 =
          UInt8.ofNat (0xE0 + c.toNat / 4096) := by
        apply UInt8.toNat_inj.mp
        simp only [UInt16.toNat_toUInt8, UInt16.toNat_or, UInt16.toNat_and, UInt16.toNat_shiftRight,
          UInt8.toNat_ofNat']
        show (2 ^ 4 * 14 ||| (c.toNat >>> 12 &&& 15)) % 2 ^ 8 = _
        rw [hand4, Nat.shiftRight_eq_div_pow,
          Nat.mod_eq_of_lt (show c.toNat / 2 ^ 12 < 16 by omega),
          or_low 14 (show c.toNat / 2 ^ 12 < 2 ^ 4 by omega)]
        rfl
      have hmiddle : ((0x80 : UInt16) ||| ((c >>> 6) &&& 0x003F)).toUInt8 =
          UInt8.ofNat (0x80 + c.toNat / 64 % 64) := by
        apply UInt8.toNat_inj.mp
        simp only [UInt16.toNat_toUInt8, UInt16.toNat_or, UInt16.toNat_and, UInt16.toNat_shiftRight,
          UInt8.toNat_ofNat']
        show (2 ^ 6 * 2 ||| (c.toNat >>> 6 &&& 63)) % 2 ^ 8 = _
        rw [hand, Nat.shiftRight_eq_div_pow, or_low 2 (show c.toNat / 2 ^ 6 % 64 < 2 ^ 6 by omega)]
        rfl
      rw [hlead, hmiddle, htail]

/-- The character that bits stand for. -/
theorem join_bits {x y z : Nat} (hx : x < 16) (hy : y < 64) (hz : z < 64) :
    ((UInt8.ofNat x).toUInt16 <<< 12) ||| ((UInt8.ofNat y).toUInt16 <<< 6) |||
      (UInt8.ofNat z).toUInt16 = UInt16.ofNat (x * 4096 + y * 64 + z) := by
  apply UInt16.toNat_inj.mp
  simp only [UInt16.toNat_or, UInt16.toNat_shiftLeft, UInt16.toNat_ofNat', UInt8.toNat_toUInt16,
    UInt8.toNat_ofNat']
  show ((x % 2 ^ 8) <<< 12 % 2 ^ 16 ||| (y % 2 ^ 8) <<< 6 % 2 ^ 16 ||| z % 2 ^ 8) = _
  rw [Nat.shiftLeft_eq, Nat.shiftLeft_eq, Nat.mod_eq_of_lt (show x < 2 ^ 8 by omega),
    Nat.mod_eq_of_lt (show y < 2 ^ 8 by omega), Nat.mod_eq_of_lt (show z < 2 ^ 8 by omega),
    Nat.mod_eq_of_lt (show x * 2 ^ 12 < 2 ^ 16 by omega),
    Nat.mod_eq_of_lt (show y * 2 ^ 6 < 2 ^ 16 by omega), Nat.mul_comm x, Nat.mul_comm y,
    or_low x (show 2 ^ 6 * y < 2 ^ 12 by omega)]
  have hsum : 2 ^ 12 * x + 2 ^ 6 * y = 2 ^ 6 * (64 * x + y) := by omega
  rw [hsum, or_low _ (show z < 2 ^ 6 by omega)]
  omega

/-- One turn of the loop of `Utf8ToUnicode`: the unit that the bytes from the pointer on stand
for, and how many bytes the pointer goes on. -/
def decodeUnit (b : Nat → UInt8) : UInt16 × Nat :=
  if b 0 &&& 0xE0 = 0xE0 then
    (((b 0 &&& 0x0F).toUInt16 <<< 12) ||| ((b 1 &&& 0x3F).toUInt16 <<< 6) |||
      (b 2 &&& 0x3F).toUInt16, 3)
  else if b 0 &&& 0xC0 = 0xC0 then
    (((b 0 &&& 0x1F).toUInt16 <<< 6) ||| (b 1 &&& 0x3F).toUInt16, 2)
  else ((b 0).toUInt16, 1)

/-- A character is read as it was written, and no byte of it is left. -/
theorem decodeUnit_char (c : UInt16) {b : Nat → UInt8} {rest : List UInt8}
    (hb : ∀ i < (utf8OfUnicode c).length, b i = (utf8OfUnicode c ++ rest).getD i 0) :
    decodeUnit b = (c, (utf8OfUnicode c).length) := by
  have hc := c.toNat_lt
  have hself : UInt16.ofNat c.toNat = c := UInt16.ofNat_toNat
  rw [utf8OfUnicode_eq] at hb ⊢
  unfold decodeUnit
  split at hb
  · next h1 =>
      -- one byte, which neither mask takes for a longer form
      rcases mask_one ⟨c.toNat, h1⟩ with ⟨hE0, hC0, -⟩
      have h0 : b 0 = UInt8.ofNat c.toNat := hb 0 (by simp)
      have hbyte : (UInt8.ofNat c.toNat).toUInt16 = c := by
        apply UInt16.toNat_inj.mp
        rw [UInt8.toNat_toUInt16, UInt8.toNat_ofNat']
        omega
      rw [if_pos h1, h0, if_neg hE0, if_neg hC0, hbyte]
      rfl
  · split at hb
    · next h1 h2 =>
        -- two bytes: the high bits are empty
        rcases mask_two ⟨c.toNat / 64, by omega⟩ with ⟨hE0, hC0, h1F⟩
        rcases mask_tail ⟨c.toNat % 64, by omega⟩ with ⟨h3F, -⟩
        have h0 : b 0 = UInt8.ofNat (0xC0 + c.toNat / 64) := hb 0 (by simp)
        have hnext : b 1 = UInt8.ofNat (0x80 + c.toNat % 64) := hb 1 (by simp)
        dsimp only at hE0 hC0 h1F h3F
        have hjoin := join_bits (show 0 < 16 by omega) (show c.toNat / 64 < 64 by omega)
          (show c.toNat % 64 < 64 by omega)
        have hsum : 0 * 4096 + c.toNat / 64 * 64 + c.toNat % 64 = c.toNat := by omega
        rw [hsum, hself] at hjoin
        have hzero : (UInt8.ofNat 0).toUInt16 <<< 12 = 0 := by decide
        rw [hzero, UInt16.zero_or] at hjoin
        rw [if_neg h1, if_pos h2, h0, hnext, if_neg hE0, if_pos hC0, h1F, h3F, hjoin]
        rfl
    · next h1 h2 =>
        -- three bytes
        rcases mask_three ⟨c.toNat / 4096, by omega⟩ with ⟨hE0, -, h0F⟩
        rcases mask_tail ⟨c.toNat / 64 % 64, by omega⟩ with ⟨hmid, -⟩
        rcases mask_tail ⟨c.toNat % 64, by omega⟩ with ⟨hlow, -⟩
        have h0 : b 0 = UInt8.ofNat (0xE0 + c.toNat / 4096) := hb 0 (by simp)
        have hsecond : b 1 = UInt8.ofNat (0x80 + c.toNat / 64 % 64) := hb 1 (by simp)
        have hthird : b 2 = UInt8.ofNat (0x80 + c.toNat % 64) := hb 2 (by simp)
        dsimp only at hE0 h0F hmid hlow
        have hjoin := join_bits (show c.toNat / 4096 < 16 by omega)
          (show c.toNat / 64 % 64 < 64 by omega) (show c.toNat % 64 < 64 by omega)
        have hsum : c.toNat / 4096 * 4096 + c.toNat / 64 % 64 * 64 + c.toNat % 64 = c.toNat := by
          omega
        rw [hsum, hself] at hjoin
        rw [if_neg h1, if_neg h2, h0, hsecond, hthird, if_pos hE0, h0F, hmid, hlow, hjoin]
        rfl

/-- The loop on a text that zeros follow. -/
theorem utf8ToUnicode_succ (n : Nat) (s : List UInt8) :
    utf8ToUnicode (n + 1) s = (decodeUnit fun i => s.getD i 0).1 ::
      utf8ToUnicode n (s.drop (decodeUnit fun i => s.getD i 0).2) := by
  have hhead : s.headD 0 = s.getD 0 0 := by
    cases s with
    | nil => rfl
    | cons b s => rfl
  unfold decodeUnit
  rw [utf8ToUnicode, hhead]
  dsimp only
  split
  · rfl
  · split
    · rfl
    · rfl

/-- One turn of the loop reads one character. -/
theorem utf8ToUnicode_char (n : Nat) (c : UInt16) (rest : List UInt8) :
    utf8ToUnicode (n + 1) (utf8OfUnicode c ++ rest) = c :: utf8ToUnicode n rest := by
  rw [utf8ToUnicode_succ, decodeUnit_char c fun _ _ => rfl, List.drop_left]

/-- `utf8_charlen` counts one byte of each character. -/
theorem utf8Charlen_char (c : UInt16) (rest : List UInt8) :
    utf8Charlen (utf8OfUnicode c ++ rest) = utf8Charlen rest + 1 := by
  have hc := c.toNat_lt
  have hone : ∀ b : UInt8, b &&& 0xC0 ≠ 0x80 → ∀ s, utf8Charlen (b :: s) = utf8Charlen s + 1 := by
    intro b hb s
    exact List.countP_cons_of_pos (decide_eq_true hb)
  have htail : ∀ x < 64, ∀ s, utf8Charlen (UInt8.ofNat (0x80 + x) :: s) = utf8Charlen s := by
    intro x hx s
    refine List.countP_cons_of_neg ?_
    rw [(mask_tail ⟨x, hx⟩).2]
    decide
  rw [utf8OfUnicode_eq]
  split
  · next h1 => exact hone _ (mask_one ⟨c.toNat, h1⟩).2.2 rest
  · split
    · have hlead : UInt8.ofNat (0xC0 + c.toNat / 64) &&& 0xC0 ≠ 0x80 := by
        rw [(mask_two ⟨c.toNat / 64, by omega⟩).2.1]
        decide
      rw [List.cons_append, List.singleton_append, hone _ hlead, htail _ (by omega)]
    · have hlead : UInt8.ofNat (0xE0 + c.toNat / 4096) &&& 0xC0 ≠ 0x80 := by
        rw [(mask_three ⟨c.toNat / 4096, by omega⟩).2.1]
        decide
      rw [List.cons_append, List.cons_append, List.singleton_append, hone _ hlead,
        htail _ (by omega), htail _ (by omega)]

theorem utf8Charlen_unicodeToUtf8 (s : List UInt16) : utf8Charlen (unicodeToUtf8 s) = s.length := by
  induction s with
  | nil => rfl
  | cons c s ih =>
      show utf8Charlen (utf8OfUnicode c ++ unicodeToUtf8 s) = s.length + 1
      rw [utf8Charlen_char, ih]

/-- 16-bit characters come through UTF-8. -/
theorem utf8ToUnicode_unicodeToUtf8 (s : List UInt16) :
    utf8ToUnicode s.length (unicodeToUtf8 s) = s := by
  induction s with
  | nil => rfl
  | cons c s ih =>
      show utf8ToUnicode (s.length + 1) (utf8OfUnicode c ++ unicodeToUtf8 s) = c :: s
      rw [utf8ToUnicode_char, ih]

/-- Different texts have different bytes. -/
theorem unicodeToUtf8_injective {s t : List UInt16} (h : unicodeToUtf8 s = unicodeToUtf8 t) :
    s = t := by
  have hlen : s.length = t.length := by
    rw [← utf8Charlen_unicodeToUtf8 s, h, utf8Charlen_unicodeToUtf8]
  rw [← utf8ToUnicode_unicodeToUtf8 s, h, hlen, utf8ToUnicode_unicodeToUtf8]

end EfiLvgl.Text
