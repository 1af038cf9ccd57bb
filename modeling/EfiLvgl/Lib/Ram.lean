import Mathlib.Data.Nat.ModEq
import Mathlib.Data.UInt
import Mathlib.Tactic.Positivity
import Mathlib.Tactic.Ring

/-!
# EfiLvgl.Lib.Ram — memory of bytes with wrap-around

Memory with `n` addresses, counted modulo `n`: what a pointer that runs over the end of the
address space sees. A write changes the bytes it covers (`read_write`, `read_write_drop`) and
no others (`byte_write_of_not_covers`). Integers are stored with the lowest byte first
(`ofBytes_bytesOf`). Nothing here names a particular program.
-/

namespace EfiLvgl

/-- What memory holds; an address counts modulo `n`. -/
structure Ram (n : Nat) where
  byte : Nat → UInt8
  wraps : ∀ p, byte (p % n) = byte p

namespace Ram

variable {n : Nat}

/-- How far `q` is behind `p`. -/
def offset (n p q : Nat) : Nat := (q + (n - p % n)) % n

/-- `q` is one of the `len` addresses from `p` on. -/
def Covers (n p len q : Nat) : Prop := ∃ t < len, (p + t) % n = q % n

theorem offset_mod (p q : Nat) : offset n p (q % n) = offset n p q := by
  simp [offset, Nat.add_mod]

theorem offset_mod_left (p q : Nat) : offset n (p % n) q = offset n p q := by
  simp [offset]

theorem add_offset (hn : 0 < n) (p q : Nat) : (p + offset n p q) % n = q % n := by
  have hp : p % n + (n - p % n) = n := Nat.add_sub_cancel' (Nat.mod_lt _ hn).le
  unfold offset
  rw [Nat.add_mod_mod, ← Nat.mod_add_mod]
  have hsum : p % n + (q + (n - p % n)) = q + n := by omega
  rw [hsum, Nat.add_mod_right]

theorem offset_add (hn : 0 < n) (p : Nat) {t : Nat} (ht : t < n) : offset n p (p + t) = t := by
  have hmod : p + offset n p (p + t) ≡ p + t [MOD n] := add_offset hn p (p + t)
  have heq := Nat.ModEq.add_left_cancel' p hmod
  unfold Nat.ModEq at heq
  rw [Nat.mod_eq_of_lt ht] at heq
  exact (Nat.mod_eq_of_lt (Nat.mod_lt _ hn)).symm.trans heq

theorem Covers.congr {p p' len q : Nat} (h : Covers n p len q) (hp : p % n = p' % n) :
    Covers n p' len q := by
  rcases h with ⟨t, ht, hq⟩
  refine ⟨t, ht, ?_⟩
  rw [← hq, Nat.add_mod, ← hp, ← Nat.add_mod]

/-- The part of a range is in the range. -/
theorem Covers.widen {p k j len q : Nat} (h : Covers n (p + k) j q) (hle : k + j ≤ len) :
    Covers n p len q := by
  rcases h with ⟨t, ht, hq⟩
  refine ⟨k + t, by omega, ?_⟩
  rw [← hq, Nat.add_assoc]

/-- Two ranges inside one do not meet when their offsets do not. -/
theorem not_covers_of_offset {p i j k l q : Nat} (hi : i + j ≤ n) (hk : k + l ≤ n)
    (hoff : i + j ≤ k ∨ k + l ≤ i) (hq : Covers n (p + i) j q) : ¬ Covers n (p + k) l q := by
  rintro ⟨t, ht, hqt⟩
  rcases hq with ⟨s, hs, hqs⟩
  have hmod : p + (i + s) ≡ p + (k + t) [MOD n] := by
    unfold Nat.ModEq
    rw [← Nat.add_assoc, ← Nat.add_assoc, hqs, hqt]
  -- inside one range, an address has one offset only
  have heq := Nat.ModEq.add_left_cancel' p hmod
  unfold Nat.ModEq at heq
  rw [Nat.mod_eq_of_lt (by omega), Nat.mod_eq_of_lt (by omega)] at heq
  omega

/-! ## Reading and writing -/

/-- The bytes of a range. -/
def read (m : Ram n) (p len : Nat) : List UInt8 := (List.range len).map fun t => m.byte (p + t)

/-- Bytes written to an address. -/
def write (m : Ram n) (p : Nat) (bytes : List UInt8) : Ram n where
  byte q := (bytes[offset n p q]?).getD (m.byte q)
  wraps q := by rw [offset_mod, m.wraps]

@[simp] theorem length_read (m : Ram n) (p len : Nat) : (m.read p len).length = len := by
  simp [read]

theorem byte_congr (m : Ram n) {p q : Nat} (h : p % n = q % n) : m.byte p = m.byte q := by
  rw [← m.wraps p, h, m.wraps]

theorem read_congr (m : Ram n) {p q : Nat} (h : p % n = q % n) (len : Nat) :
    m.read p len = m.read q len := by
  refine List.map_congr_left ?_
  intro t _
  apply m.byte_congr
  rw [Nat.add_mod, h, ← Nat.add_mod]

theorem write_congr (m : Ram n) {p q : Nat} (h : p % n = q % n) (bytes : List UInt8) :
    m.write p bytes = m.write q bytes := by
  have hoffset : ∀ x, offset n p x = offset n q x := by
    intro x
    rw [← offset_mod_left, h, offset_mod_left]
  unfold write
  simp only [hoffset]

/-- A write leaves alone what it does not cover. -/
theorem byte_write_of_not_covers (hn : 0 < n) (m : Ram n) {p q : Nat} {bytes : List UInt8}
    (h : ¬ Covers n p bytes.length q) : (m.write p bytes).byte q = m.byte q := by
  -- the address is further behind the start than there are bytes
  have hge : bytes.length ≤ offset n p q := by
    by_contra hlt
    exact h ⟨offset n p q, by omega, add_offset hn p q⟩
  show (bytes[offset n p q]?).getD (m.byte q) = m.byte q
  rw [List.getElem?_eq_none hge]
  rfl

theorem byte_write (hn : 0 < n) (m : Ram n) (p : Nat) {bytes : List UInt8} {t : Nat}
    (ht : t < bytes.length) (hlen : bytes.length ≤ n) :
    (m.write p bytes).byte (p + t) = bytes[t] := by
  show (bytes[offset n p (p + t)]?).getD _ = _
  rw [offset_add hn p (by omega), List.getElem?_eq_getElem ht]
  rfl

theorem read_write_of_not_covers (hn : 0 < n) (m : Ram n) {p q len : Nat} {bytes : List UInt8}
    (h : ∀ x, Covers n q len x → ¬ Covers n p bytes.length x) :
    (m.write p bytes).read q len = m.read q len := by
  refine List.map_congr_left ?_
  intro t ht
  exact byte_write_of_not_covers hn m (h _ ⟨t, List.mem_range.mp ht, rfl⟩)

/-- A part of what was written is read back. -/
theorem read_write_part (hn : 0 < n) (m : Ram n) (p : Nat) {bytes : List UInt8} {k len : Nat}
    (hk : k + len ≤ bytes.length) (hlen : bytes.length ≤ n) :
    (m.write p bytes).read (p + k) len = (bytes.drop k).take len := by
  refine List.ext_getElem ?_ ?_
  · simp only [length_read, List.length_take, List.length_drop]
    omega
  · intro t ht _
    rw [length_read] at ht
    simp only [read, List.getElem_map, List.getElem_range, List.getElem_take, List.getElem_drop]
    rw [Nat.add_assoc, byte_write hn m p (by omega) hlen]

theorem read_write (hn : 0 < n) (m : Ram n) (p : Nat) {bytes : List UInt8}
    (hlen : bytes.length ≤ n) : (m.write p bytes).read p bytes.length = bytes := by
  have hall : 0 + bytes.length ≤ bytes.length := by omega
  simpa using read_write_part hn m p hall hlen

/-! ## Integers -/

/-- The integer that bytes stand for, lowest byte first. -/
def ofBytes : List UInt8 → Nat
  | [] => 0
  | b :: bs => b.toNat + 256 * ofBytes bs

/-- The lowest `w` bytes of an integer, lowest first. -/
def bytesOf (w : Nat) (i : Int) : List UInt8 :=
  (List.range w).map fun k => UInt8.ofNat ((i / 256 ^ k) % 256).toNat

/-- The lowest byte and the rest. -/
theorem emod_pow_succ (w : Nat) (i : Int) :
    i % 256 ^ (w + 1) = i % 256 + 256 * (i / 256 % 256 ^ w) := by
  have hpos : (0 : Int) < 256 ^ w := by positivity
  have hlow := Int.emod_add_mul_ediv i 256
  have hhigh := Int.emod_add_mul_ediv (i / 256) (256 ^ w)
  have hnonneg := Int.emod_nonneg (i / 256) hpos.ne'
  have hlt := Int.emod_lt_of_pos (i / 256) hpos
  -- the quotient is that of the rest; this is what is left
  refine ((Int.ediv_emod_unique (q := i / 256 / 256 ^ w) (by positivity)).mpr ⟨?_, ?_, ?_⟩).2
  · calc i % 256 + 256 * (i / 256 % 256 ^ w) + 256 ^ (w + 1) * (i / 256 / 256 ^ w)
        = i % 256 + 256 * (i / 256 % 256 ^ w + 256 ^ w * (i / 256 / 256 ^ w)) := by ring
      _ = i := by rw [hhigh, hlow]
  · omega
  · rw [pow_succ]
    omega

theorem bytesOf_succ (w : Nat) (i : Int) :
    bytesOf (w + 1) i = UInt8.ofNat (i % 256).toNat :: bytesOf w (i / 256) := by
  unfold bytesOf
  rw [List.range_succ_eq_map, List.map_cons, List.map_map]
  congr 1
  · simp
  · refine List.map_congr_left ?_
    intro k _
    show UInt8.ofNat _ = UInt8.ofNat _
    rw [Nat.succ_eq_add_one, pow_succ', ← Int.ediv_ediv_of_nonneg (by norm_num)]

theorem toNat_ofNat_mod (i : Int) : (UInt8.ofNat (i % 256).toNat).toNat = (i % 256).toNat := by
  have hlt : i % 256 < 256 := Int.emod_lt_of_pos i (by norm_num)
  rw [UInt8.toNat_ofNat']
  omega

theorem ofBytes_bytesOf (w : Nat) (i : Int) : (ofBytes (bytesOf w i) : Int) = i % 256 ^ w := by
  induction w generalizing i with
  | zero =>
      rw [pow_zero, Int.emod_one]
      rfl
  | succ w ih =>
      have hnonneg : 0 ≤ i % 256 := Int.emod_nonneg i (by norm_num)
      rw [bytesOf_succ, ofBytes, toNat_ofNat_mod, emod_pow_succ]
      push_cast
      rw [ih, Int.toNat_of_nonneg hnonneg]

theorem ofBytes_lt (bs : List UInt8) : ofBytes bs < 256 ^ bs.length := by
  induction bs with
  | nil => simp [ofBytes]
  | cons b bs ih =>
      have hb : b.toNat < 256 := b.toNat_lt
      rw [ofBytes, List.length_cons, pow_succ]
      omega

/-- The first bytes are the low part. -/
theorem ofBytes_take (bs : List UInt8) (k : Nat) : ofBytes (bs.take k) = ofBytes bs % 256 ^ k := by
  induction bs generalizing k with
  | nil => simp [ofBytes]
  | cons b bs ih =>
      cases k with
      | zero => simp [ofBytes, Nat.mod_one]
      | succ k =>
          have hb : b.toNat < 256 := b.toNat_lt
          rw [List.take_succ_cons, ofBytes, ih, ofBytes, pow_succ', Nat.mod_mul,
            Nat.add_mul_mod_self_left, Nat.mod_eq_of_lt hb, Nat.add_mul_div_left _ _ (by norm_num),
            Nat.div_eq_of_lt hb, Nat.zero_add]

/-- Only the low part of an integer is stored. -/
theorem bytesOf_congr {w : Nat} {i j : Int} (h : i % 256 ^ w = j % 256 ^ w) :
    bytesOf w i = bytesOf w j := by
  induction w generalizing i j with
  | zero => rfl
  | succ w ih =>
      rw [emod_pow_succ, emod_pow_succ] at h
      have hi : 0 ≤ i % 256 := Int.emod_nonneg i (by norm_num)
      have hj : 0 ≤ j % 256 := Int.emod_nonneg j (by norm_num)
      have hi' : i % 256 < 256 := Int.emod_lt_of_pos i (by norm_num)
      have hj' : j % 256 < 256 := Int.emod_lt_of_pos j (by norm_num)
      -- equal modulo a power are the lowest bytes and the rests
      have hlow : i % 256 = j % 256 := by omega
      have hhigh : i / 256 % 256 ^ w = j / 256 % 256 ^ w := by omega
      rw [bytesOf_succ, bytesOf_succ, hlow, ih hhigh]

end Ram

end EfiLvgl
