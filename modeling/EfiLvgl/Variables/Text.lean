import EfiLvgl.Text.Characters
import EfiLvgl.Uefi.Layout
import EfiLvgl.Variables.World

/-!
# EfiLvgl.Variables.Text — texts of scripts and of the firmware

A name is put into memory as 16-bit characters, and the firmware reads it up to the terminator
(`strAt_of_holds`). Counts go into types as decimal texts (`decimal_formatNat`), and a GUID is
read as it is printed (`guidOfText_textOfGuid`, `textOfGuid_guidOfText`).
-/

namespace EfiLvgl.Variables

open EfiLvgl.Uefi

/-! ## Texts in memory -/

/-- The text at an address, as a function of the firmware reads it. -/
def strAt (memory : Nat → UInt8) (p : Nat) : Nat → List UInt16
  | 0 => []
  | n + 1 =>
      let u := UInt16.ofNat (readUnit memory p 2)
      if u = 0 then [] else u :: strAt memory (p + 2) n

theorem take_unit (s : List UInt16) (rest : List UInt8) {k : Nat} (hk : k < s.length) :
    (((s.flatMap fun u => leBytes 2 u.toNat) ++ rest).drop (k * 2)).take 2 =
      leBytes 2 s[k].toNat := by
  induction s generalizing k with
  | nil => cases hk
  | cons u s ih =>
      have hlen : (leBytes 2 u.toNat).length = 2 := length_leBytes 2 _
      rw [List.flatMap_cons, List.append_assoc]
      cases k with
      | zero => rw [Nat.zero_mul, List.drop_zero, List.take_left' hlen, List.getElem_cons_zero]
      | succ k =>
          have hdrop : (k + 1) * 2 = (leBytes 2 u.toNat).length + k * 2 := by omega
          rw [hdrop, List.drop_length_add_append, ih (Nat.lt_of_succ_lt_succ hk),
            List.getElem_cons_succ]

theorem ofNat_ofBytes (u : UInt16) : UInt16.ofNat (Ram.ofBytes (leBytes 2 u.toNat)) = u := by
  have hu := u.toNat_lt
  have hbytes := Ram.ofBytes_bytesOf 2 u.toNat
  rw [← leBytes_eq_bytesOf] at hbytes
  have heq : Ram.ofBytes (leBytes 2 u.toNat) = u.toNat := by omega
  rw [heq, UInt16.ofNat_toNat]

section Memory

variable {a : Arch} {heap : Heap a.word} {b : Block} {s : List UInt16} {rest : List UInt8}

theorem length_le_of_holds (h : heap.Holds b (unicodeBytes s ++ rest)) :
    (s.length + 1) * 2 ≤ b.len := by
  have hlen := h.length
  rw [List.length_append, length_unicodeBytes] at hlen
  omega

/-- A character of a text in memory. -/
theorem unit_of_holds (h : heap.Holds b (unicodeBytes s ++ rest)) {k : Nat}
    (hk : k < (s ++ [0]).length) :
    UInt16.ofNat (readUnit heap.ram.byte (b.addr + k * 2) 2) = (s ++ [0])[k] := by
  have hle := length_le_of_holds h
  have hlen : (s ++ [0]).length = s.length + 1 := List.length_append
  rw [readUnit_ram, h.read_part (by omega), unicodeBytes, take_unit _ _ hk, ofNat_ofBytes]

theorem strAt_of_holds (h : heap.Holds b (unicodeBytes s ++ rest)) (hs : ∀ u ∈ s, u ≠ 0)
    {fuel : Nat} (hfuel : s.length < fuel) : strAt heap.ram.byte b.addr fuel = s := by
  have hlen : (s ++ [0]).length = s.length + 1 := List.length_append
  have hfrom : ∀ fuel k, k ≤ s.length → s.length - k < fuel →
      strAt heap.ram.byte (b.addr + k * 2) fuel = s.drop k := by
    intro fuel
    induction fuel with
    | zero =>
        intro k _ hlt
        cases hlt
    | succ fuel ih =>
        intro k hk hlt
        have hunit := unit_of_holds h (show k < (s ++ [0]).length by omega)
        rw [strAt, hunit]
        rcases Nat.lt_or_eq_of_le hk with hlt' | rfl
        · rw [List.getElem_append_left hlt', if_neg (hs _ (List.getElem_mem hlt'))]
          have hnext := ih (k + 1) hlt' (by omega)
          rw [Nat.succ_mul, ← Nat.add_assoc] at hnext
          rw [hnext, List.getElem_cons_drop]
        · rw [List.getElem_append_right (Nat.le_refl _), List.drop_length]
          simp
  have hstart := hfrom fuel 0 (Nat.zero_le _) hfuel
  rw [Nat.zero_mul, Nat.add_zero, List.drop_zero] at hstart
  exact hstart

theorem unicodeText_of_holds (h : heap.Holds b (unicodeBytes s ++ rest)) (hs : ∀ u ∈ s, u ≠ 0) :
    unicodeText heap.ram.byte b.addr b.len = s := by
  have hle := length_le_of_holds h
  have hlen : (s ++ [0]).length = s.length + 1 := List.length_append
  have hsplit : b.len / 2 = s.length + (1 + (b.len / 2 - s.length - 1)) := by omega
  have htext : (List.range s.length).map (fun k =>
      UInt16.ofNat (readUnit heap.ram.byte (b.addr + k * 2) 2)) = s := by
    refine List.ext_getElem ?_ ?_
    · simp
    · intro k hk _
      rw [List.length_map, List.length_range] at hk
      rw [List.getElem_map, List.getElem_range, unit_of_holds h (by omega),
        List.getElem_append_left hk]
  have hend : UInt16.ofNat (readUnit heap.ram.byte (b.addr + s.length * 2) 2) = 0 := by
    rw [unit_of_holds h (by omega), List.getElem_append_right (Nat.le_refl _)]
    simp
  unfold unicodeText
  rw [hsplit, List.range_add, List.map_append, htext, List.takeWhile_append_of_pos
    (fun u hu => decide_eq_true (hs u hu)), Nat.add_comm 1, List.range_succ_eq_map]
  simp [hend]

end Memory

/-! ## Counts -/

/-- `"%d" % n`. -/
def formatNat (n : Nat) : Str := Nat.toDigits 10 n

theorem isDigit_formatNat (n : Nat) : ∀ d ∈ formatNat n, d.isDigit = true := by
  intro d hd
  exact Nat.isDigit_of_mem_toDigits (by decide) (by decide) hd

theorem decimal_formatNat (n : Nat) : decimal (formatNat n) = n := by
  have hdigits := Nat.ofDigitChars_ten_toDigits (n := n)
  rw [Nat.ofDigitChars_eq_foldl] at hdigits
  unfold decimal formatNat
  simp only [Nat.mul_comm _ 10]
  exact hdigits

theorem repeatCount_formatNat {a : Arch} {n : Nat} {c : Char} (hpos : 0 < n) (hn : n < a.word)
    (hc : c.isAlpha = true) : repeatCount a (formatNat n ++ [c]) = n := by
  rw [repeatCount_count (isDigit_formatNat n) hc, decimal_formatNat, Nat.mod_eq_of_lt hn,
    if_pos hpos]

/-! ## GUIDs -/

/-- `str.upper`. -/
def upper (s : List UInt8) : List UInt8 := s.map fun c => if 97 ≤ c ∧ c ≤ 122 then c - 32 else c

theorem upper_append (s t : List UInt8) : upper (s ++ t) = upper s ++ upper t := List.map_append

theorem upper_upper (s : List UInt8) : upper (upper s) = upper s := by
  have hone : ∀ c : Fin 256, upper (upper [UInt8.ofNat c]) = upper [UInt8.ofNat c] := by
    decide +kernel
  induction s with
  | nil => rfl
  | cons c s ih =>
      have hc := hone ⟨c.toNat, c.toNat_lt⟩
      dsimp only at hc
      rw [UInt8.ofNat_toNat] at hc
      rw [← List.singleton_append, upper_append, upper_append, hc, ih]

/-- A digit in upper case. -/
def hexChar (x : UInt8) : UInt8 := if x < 10 then x + 48 else x + 55

/-- Bytes as digits in upper case, two for each. -/
def hexText : List UInt8 → List UInt8
  | [] => []
  | b :: bs => hexChar (b / 16) :: hexChar (b % 16) :: hexText bs

/-- The format `%g`: a GUID in the registry format, in upper case. -/
def textOfGuid (g : List UInt8) : List UInt8 :=
  hexText (g.take 4).reverse ++ [45] ++ hexText ((g.drop 4).take 2).reverse ++ [45] ++
    hexText ((g.drop 6).take 2).reverse ++ [45] ++ hexText ((g.drop 8).take 2) ++ [45] ++
    hexText (g.drop 10)

theorem hexDigit_hexChar : ∀ b : Fin 256,
    hexDigit (hexChar (UInt8.ofNat b / 16)) = some (UInt8.ofNat b / 16) ∧
      hexDigit (hexChar (UInt8.ofNat b % 16)) = some (UInt8.ofNat b % 16) ∧
      UInt8.ofNat b / 16 * 16 + UInt8.ofNat b % 16 = UInt8.ofNat b := by
  decide +kernel

theorem hexDigit_spec : ∀ c : Fin 256, (hexDigit (UInt8.ofNat c)).all fun x =>
    decide (x < 16) && [hexChar x] == upper [UInt8.ofNat c] := by
  decide +kernel

theorem digits_of_byte : ∀ h l : Fin 16,
    (UInt8.ofNat h * 16 + UInt8.ofNat l) / 16 = UInt8.ofNat h ∧
      (UInt8.ofNat h * 16 + UInt8.ofNat l) % 16 = UInt8.ofNat l := by
  decide +kernel

/-- A digit is printed in upper case. -/
theorem hexChar_of_hexDigit {c x : UInt8} (h : hexDigit c = some x) :
    x.toNat < 16 ∧ [hexChar x] = upper [c] := by
  have hspec := hexDigit_spec ⟨c.toNat, c.toNat_lt⟩
  dsimp only at hspec
  rw [UInt8.ofNat_toNat, h, Option.all_some, Bool.and_eq_true, decide_eq_true_eq,
    beq_iff_eq] at hspec
  exact ⟨UInt8.lt_iff_toNat_lt.mp hspec.1, hspec.2⟩

/-- Bytes that are printed are read again. -/
theorem hexBytes_hexText (bs : List UInt8) : hexBytes (hexText bs) = some bs := by
  induction bs with
  | nil => rfl
  | cons b bs ih =>
      rcases hexDigit_hexChar ⟨b.toNat, b.toNat_lt⟩ with ⟨hhigh, hlow, hjoin⟩
      dsimp only at hhigh hlow hjoin
      rw [UInt8.ofNat_toNat] at hhigh hlow hjoin
      rw [hexText, hexBytes, hhigh, hlow, ih]
      show some ((b / 16 * 16 + b % 16) :: bs) = some (b :: bs)
      rw [hjoin]

/-- Bytes that are read are printed as they were, in upper case. -/
theorem hexText_of_hexBytes {s bs : List UInt8} (h : hexBytes s = some bs) : hexText bs = upper s := by
  induction s using hexBytes.induct generalizing bs with
  | case1 =>
      cases h
      rfl
  | case2 c d rest ih =>
      rw [hexBytes] at h
      simp only [Option.bind_eq_bind, Option.bind_eq_some_iff, Option.pure_def,
        Option.some.injEq] at h
      rcases h with ⟨x, hx, y, hy, bytes, hbytes, rfl⟩
      rcases hexChar_of_hexDigit hx with ⟨hxlt, hxc⟩
      rcases hexChar_of_hexDigit hy with ⟨hylt, hyc⟩
      have hdigits := digits_of_byte ⟨x.toNat, hxlt⟩ ⟨y.toNat, hylt⟩
      dsimp only at hdigits
      rw [UInt8.ofNat_toNat, UInt8.ofNat_toNat] at hdigits
      rw [hexText, hdigits.1, hdigits.2, ih hbytes]
      show [hexChar x] ++ ([hexChar y] ++ upper rest) = _
      rw [hxc, hyc]
      rfl
  | case3 c => cases h

theorem length_hexText (bs : List UInt8) : (hexText bs).length = 2 * bs.length := by
  induction bs with
  | nil => rfl
  | cons b bs ih =>
      rw [hexText, List.length_cons, List.length_cons, List.length_cons, ih]
      omega

theorem length_textOfGuid {g : List UInt8} (hg : g.length = 16) : (textOfGuid g).length = 36 := by
  simp only [textOfGuid, List.length_append, length_hexText, List.length_reverse, List.length_take,
    List.length_drop, List.length_singleton, hg]
  omega

/-- The groups of a text in the registry format. -/
theorem groups_join {p q r s t : List UInt8} (hp : p.length = 8) (hq : q.length = 4)
    (hr : r.length = 4) (hs : s.length = 4) :
    let text : List UInt8 := p ++ [45] ++ q ++ [45] ++ r ++ [45] ++ s ++ [45] ++ t
    text.take 8 = p ∧ (text.drop 9).take 4 = q ∧ (text.drop 14).take 4 = r ∧
      (text.drop 19).take 4 = s ∧ text.drop 24 = t ∧
      ([8, 13, 18, 23].all fun i => text.getD i 0 == 45) = true := by
  simp (disch := omega) [List.drop_append, List.getElem?_append, hp, hq, hr, hs,
    List.drop_eq_nil_of_le]
  exact ⟨rfl, rfl, rfl, rfl⟩

/-- A text of 36 characters with dashes in their places is made of its groups. -/
theorem join_groups {text : List UInt8} (hlen : text.length = 36)
    (hdash : ([8, 13, 18, 23].all fun i => text.getD i 0 == 45) = true) :
    text.take 8 ++ [45] ++ (text.drop 9).take 4 ++ [45] ++ (text.drop 14).take 4 ++ [45] ++
      (text.drop 19).take 4 ++ [45] ++ text.drop 24 = text := by
  have hcut : ∀ i n, i + n < 36 → text.getD (i + n) 0 = 45 →
      (text.drop i).take n ++ 45 :: text.drop (i + n + 1) = text.drop i := by
    intro i n hi hd
    have hin : i + n < text.length := by omega
    have hget : text[i + n] = 45 := by
      rw [← hd, List.getD_eq_getElem?_getD, List.getElem?_eq_getElem hin, Option.getD_some]
    have hdrop := List.drop_eq_getElem_cons hin
    rw [hget] at hdrop
    rw [← hdrop, ← List.drop_drop, List.take_append_drop]
  simp only [List.all_cons, List.all_nil, Bool.and_eq_true, beq_iff_eq, and_true] at hdash
  rcases hdash with ⟨h8, h13, h18, h23⟩
  have hcut4 : (text.drop 19).take 4 ++ 45 :: text.drop 24 = text.drop 19 :=
    hcut 19 4 (by omega) h23
  have hcut3 : (text.drop 14).take 4 ++ 45 :: text.drop 19 = text.drop 14 :=
    hcut 14 4 (by omega) h18
  have hcut2 : (text.drop 9).take 4 ++ 45 :: text.drop 14 = text.drop 9 :=
    hcut 9 4 (by omega) h13
  have hcut1 : text.take 8 ++ 45 :: text.drop 9 = text := hcut 0 8 (by omega) h8
  simp only [List.append_assoc, List.cons_append, List.nil_append]
  rw [hcut4, hcut3, hcut2, hcut1]

/-- A GUID that is printed is read again. -/
theorem guidOfText_textOfGuid {g : List UInt8} (hg : g.length = 16) :
    guidOfText (textOfGuid g) = some ⟨g, hg⟩ := by
  have hgroups := groups_join (p := hexText (g.take 4).reverse)
    (q := hexText ((g.drop 4).take 2).reverse) (r := hexText ((g.drop 6).take 2).reverse)
    (s := hexText ((g.drop 8).take 2)) (t := hexText (g.drop 10))
    (by simp [length_hexText, hg]) (by simp [length_hexText, hg]) (by simp [length_hexText, hg])
    (by simp [length_hexText, hg])
  rcases hgroups with ⟨hp, hq, hr, hs, ht, hdash⟩
  have hjoin : g.take 4 ++ (g.drop 4).take 2 ++ (g.drop 6).take 2 ++ (g.drop 8).take 2 ++
      g.drop 10 = g := by
    have hcut : ∀ i n, (g.drop i).take n ++ g.drop (i + n) = g.drop i := by
      intro i n
      rw [← List.drop_drop, List.take_append_drop]
    have hcut3 : (g.drop 8).take 2 ++ g.drop 10 = g.drop 8 := hcut 8 2
    have hcut2 : (g.drop 6).take 2 ++ g.drop 8 = g.drop 6 := hcut 6 2
    have hcut1 : (g.drop 4).take 2 ++ g.drop 6 = g.drop 4 := hcut 4 2
    simp only [List.append_assoc]
    rw [hcut3, hcut2, hcut1, List.take_append_drop]
  unfold guidOfText textOfGuid
  rw [hp, hq, hr, hs, ht]
  simp only [hexBytes_hexText, Option.bind_eq_bind, Option.bind_some, List.reverse_reverse, hjoin]
  rw [dif_pos ⟨hg, hdash⟩]

theorem textOfGuid_join {p q r s t : List UInt8} (hp : p.length = 4) (hq : q.length = 2)
    (hr : r.length = 2) (hs : s.length = 2) :
    textOfGuid (p ++ q ++ r ++ s ++ t) = hexText p.reverse ++ [45] ++ hexText q.reverse ++ [45] ++
      hexText r.reverse ++ [45] ++ hexText s ++ [45] ++ hexText t := by
  unfold textOfGuid
  simp (disch := omega) [List.drop_append, List.drop_eq_nil_of_le, hp, hq, hr]

/-- The groups of a text that is read as a GUID, and what they are read as. -/
theorem groups_of_guidOfText {s : List UInt8} {g : { g : List UInt8 // g.length = 16 }}
    (h : guidOfText s = some g) :
    ∃ d1 d2 d3 d4 d5, d1.reverse ++ d2.reverse ++ d3.reverse ++ d4 ++ d5 = g.val ∧
      hexText d1 = upper (s.take 8) ∧ hexText d2 = upper ((s.drop 9).take 4) ∧
      hexText d3 = upper ((s.drop 14).take 4) ∧ hexText d4 = upper ((s.drop 19).take 4) ∧
      hexText d5 = upper (s.drop 24) ∧
      ([8, 13, 18, 23].all fun i => s.getD i 0 == 45) = true := by
  unfold guidOfText at h
  simp only [Option.bind_eq_bind, Option.bind_eq_some_iff] at h
  rcases h with ⟨d1, h1, d2, h2, d3, h3, d4, h4, d5, h5, h⟩
  split at h
  · next hvalid =>
      cases h
      exact ⟨d1, d2, d3, d4, d5, rfl, hexText_of_hexBytes h1, hexText_of_hexBytes h2,
        hexText_of_hexBytes h3, hexText_of_hexBytes h4, hexText_of_hexBytes h5, hvalid.2⟩
  · cases h

/-- A group has two characters for each byte. -/
theorem length_group {bs t : List UInt8} (h : hexText bs = upper t) : 2 * bs.length = t.length := by
  rw [← length_hexText, h, upper, List.length_map]

/-- A text that is read as a GUID has 36 characters. -/
theorem length_of_guidOfText {s : List UInt8} {g : { g : List UInt8 // g.length = 16 }}
    (h : guidOfText s = some g) : s.length = 36 := by
  rcases groups_of_guidOfText h with ⟨d1, d2, d3, d4, d5, hg, h1, h2, h3, h4, h5, -⟩
  have hsum := congrArg List.length hg
  have hl1 := length_group h1
  have hl2 := length_group h2
  have hl3 := length_group h3
  have hl4 := length_group h4
  have hl5 := length_group h5
  simp only [List.length_take, List.length_drop] at hl1 hl2 hl3 hl4 hl5
  simp only [List.length_append, List.length_reverse, g.2] at hsum
  omega

/-- A GUID that is read is printed as it was, in upper case. -/
theorem textOfGuid_guidOfText {s : List UInt8} {g : { g : List UInt8 // g.length = 16 }}
    (h : guidOfText s = some g) : textOfGuid g.val = upper s := by
  have hs := length_of_guidOfText h
  rcases groups_of_guidOfText h with ⟨d1, d2, d3, d4, d5, hg, h1, h2, h3, h4, h5, hdash⟩
  have hl1 := length_group h1
  have hl2 := length_group h2
  have hl3 := length_group h3
  have hl4 := length_group h4
  simp only [List.length_take, List.length_drop, hs] at hl1 hl2 hl3 hl4
  have hupper : upper s = upper (s.take 8) ++ [45] ++ upper ((s.drop 9).take 4) ++ [45] ++
      upper ((s.drop 14).take 4) ++ [45] ++ upper ((s.drop 19).take 4) ++ [45] ++
      upper (s.drop 24) := by
    conv_lhs => rw [← join_groups hs hdash]
    simp only [upper_append]
    rfl
  rw [hupper, ← h1, ← h2, ← h3, ← h4, ← h5, ← hg,
    textOfGuid_join (by rw [List.length_reverse]; omega) (by rw [List.length_reverse]; omega)
      (by rw [List.length_reverse]; omega) (by omega)]
  simp only [List.reverse_reverse]

end EfiLvgl.Variables
