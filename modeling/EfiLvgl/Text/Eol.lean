import EfiLvgl.Text.Conversion

/-!
# EfiLvgl.Text.Eol — ends of line for the console

`ToUefiString` turns the ends of line of a script into those of the firmware while it decodes.
The room for that is counted by `CountUnixEol`, which stops at the first NUL; the loop that
copies does not. So a text comes out right exactly when no end of line is to be converted behind
a NUL (`eol_iff`).
-/

namespace EfiLvgl.Text

/-- `ToUefiString` without a destination. -/
def toUefiString (src : Nat → UInt8) (length : Nat) : Converted UInt16 :=
  utf8ToUnicode src length true

/-! ## What is asked for -/

/-- The units for a byte behind another one. -/
def eolUnits (prev : Option UInt8) (b : UInt8) : List UInt16 :=
  if b = 10 ∧ prev ≠ some 13 then [13, 10] else [b.toUInt16]

/-- A text with its ends of line converted. -/
def dosEol (prev : Option UInt8) : List UInt8 → List UInt16
  | [] => []
  | b :: s => eolUnits prev b ++ dosEol (some b) s

/-- The ends of line to convert. -/
def bareEols (prev : Option UInt8) : List UInt8 → Nat
  | [] => 0
  | b :: s => (if b = 10 ∧ prev ≠ some 13 then 1 else 0) + bareEols (some b) s

/-- The result is the text with its ends of line converted, in a buffer that it fills. -/
structure EolsConverted (s : List UInt8) (beyond : Nat → UInt8) : Prop where
  dst : (toUefiString (inMemory s beyond) s.length).dst =
    ⟨(dosEol none s ++ [0]).map some, false⟩
  length : (toUefiString (inMemory s beyond) s.length).length = (dosEol none s).length

/-- No end of line is to be converted behind a NUL. -/
def NoEolBehindNul (s : List UInt8) : Prop :=
  ∀ i j : Nat, i < j → s[i]? = some 0 → s[j]? = some 10 → s[j - 1]? = some 13

theorem length_dosEol (prev : Option UInt8) (s : List UInt8) :
    (dosEol prev s).length = s.length + bareEols prev s := by
  induction s generalizing prev with
  | nil => rfl
  | cons b s ih =>
      rw [dosEol, bareEols, List.length_append, ih, List.length_cons, eolUnits]
      split
      · rw [List.length_cons, List.length_singleton]
        omega
      · rw [List.length_singleton]
        omega

/-- The byte in front of what follows a prefix. -/
theorem getLast?_cons_or (b : UInt8) (p : List UInt8) (prev : Option UInt8) :
    (b :: p).getLast?.or prev = p.getLast?.or (some b) := by
  rw [List.getLast?_cons]
  cases p.getLast? <;> rfl

theorem dosEol_append (prev : Option UInt8) (p t : List UInt8) :
    dosEol prev (p ++ t) = dosEol prev p ++ dosEol (p.getLast?.or prev) t := by
  induction p generalizing prev with
  | nil => rfl
  | cons b p ih =>
      rw [List.cons_append, dosEol, dosEol, ih, getLast?_cons_or, List.append_assoc]

/-! ## Counting -/

section Memory

variable {beyond : Nat → UInt8} {p t : List UInt8} {b : UInt8}

/-- The byte in front of which a prefix ends. -/
theorem inMemory_at : inMemory (p ++ b :: t) beyond p.length = b := by
  simp [inMemory]

/-- The byte that a prefix ends with. -/
theorem inMemory_before :
    (p.length = 0 ∨ inMemory (p ++ b :: t) beyond (p.length - 1) ≠ 13) ↔ p.getLast? ≠ some 13 := by
  cases p using List.reverseRecOn with
  | nil => simp
  | append_singleton p c => simp [inMemory]

/-- `CountUnixEol` counts up to the first NUL. -/
theorem countUnixEolFrom_eq (t : List UInt8) : ∀ p : List UInt8,
    countUnixEolFrom (inMemory (p ++ t) beyond) (p ++ t).length p.length =
      bareEols p.getLast? (t.takeWhile (· ≠ 0)) := by
  induction t with
  | nil =>
      intro p
      rw [countUnixEolFrom, List.append_nil, if_neg (by simp)]
      rfl
  | cons b t ih =>
      intro p
      have hnext := ih (p ++ [b])
      rw [List.append_assoc, List.singleton_append, List.getLast?_concat] at hnext
      have hlen : (p ++ [b]).length = p.length + 1 := List.length_append
      rw [hlen] at hnext
      rw [countUnixEolFrom, inMemory_at, hnext]
      simp only [inMemory_before]
      by_cases hb : b = 0
      · rw [if_neg (fun h => h.2 hb), List.takeWhile_cons_of_neg (by simpa using hb)]
        rfl
      · rw [if_pos ⟨by simp, hb⟩, List.takeWhile_cons_of_pos (by simpa using hb), bareEols]

end Memory

theorem bareEols_append (prev : Option UInt8) (p t : List UInt8) :
    bareEols prev (p ++ t) = bareEols prev p + bareEols (p.getLast?.or prev) t := by
  induction p generalizing prev with
  | nil => rw [List.nil_append, bareEols, Nat.zero_add]; rfl
  | cons b p ih =>
      rw [List.cons_append, bareEols, bareEols, ih, getLast?_cons_or, Nat.add_assoc]

/-- Nothing is to be converted behind a prefix. -/
theorem bareEols_eq_zero (t : List UInt8) : ∀ p : List UInt8, p ≠ [] →
    (bareEols p.getLast? t = 0 ↔
      ∀ j : Nat, p.length ≤ j → (p ++ t)[j]? = some 10 → (p ++ t)[j - 1]? = some 13) := by
  induction t with
  | nil =>
      intro p _
      refine ⟨fun _ j hj hten => ?_, fun _ => rfl⟩
      rw [List.append_nil, List.getElem?_eq_none hj] at hten
      cases hten
  | cons b t ih =>
      intro p hp
      have hpos := List.length_pos_of_ne_nil hp
      have hlen : (p ++ [b]).length = p.length + 1 := List.length_append
      have hnext := ih (p ++ [b]) (by simp)
      rw [List.getLast?_concat, List.append_assoc, List.singleton_append, hlen] at hnext
      have hat : (p ++ b :: t)[p.length]? = some b := by simp
      have hbefore : (p ++ b :: t)[p.length - 1]? = p.getLast? := by
        rw [List.getElem?_append_left (by omega), List.getLast?_eq_getElem?]
      rw [bareEols, Nat.add_eq_zero_iff, hnext]
      constructor
      · rintro ⟨hzero, hrest⟩ j hj hten
        rcases Nat.lt_or_eq_of_le hj with hlt | rfl
        · exact hrest j hlt hten
        · rw [hat] at hten
          rw [hbefore]
          by_contra hlast
          rw [if_pos ⟨Option.some.inj hten, hlast⟩] at hzero
          cases hzero
      · intro h
        refine ⟨if_neg ?_, fun j hj => h j (by omega)⟩
        rintro ⟨rfl, hlast⟩
        have hcr := h p.length (Nat.le_refl _) hat
        rw [hbefore] at hcr
        exact hlast hcr

/-- What `CountUnixEol` counts is all that is to be converted exactly when nothing is to be
converted behind a NUL. -/
theorem bareEols_takeWhile (s : List UInt8) :
    bareEols none (s.takeWhile (· ≠ 0)) = bareEols none s ↔ NoEolBehindNul s := by
  have hsplit := List.takeWhile_append_dropWhile (p := fun b : UInt8 => decide (b ≠ 0)) (l := s)
  have hfront : ∀ b ∈ s.takeWhile (· ≠ 0), b ≠ 0 := by
    intro b hb
    have hall := List.all_takeWhile (p := fun b : UInt8 => decide (b ≠ 0)) (l := s)
    simpa using List.all_eq_true.mp hall b hb
  cases hrest : s.dropWhile (· ≠ 0) with
  | nil =>
      rw [hrest, List.append_nil] at hsplit
      rw [hsplit] at hfront ⊢
      -- no NUL, and nothing is cut off
      refine ⟨fun _ i j _ hnul _ => ?_, fun _ => rfl⟩
      exact absurd rfl (hfront 0 (List.mem_of_getElem? hnul))
  | cons b t =>
      have hb : b = 0 := by
        have hhead := List.head?_dropWhile_not (fun b : UInt8 => decide (b ≠ 0)) s
        rw [hrest] at hhead
        simpa using hhead
      subst hb
      rw [hrest] at hsplit
      generalize s.takeWhile (· ≠ 0) = p at hsplit hfront
      subst hsplit
      have hzeros := bareEols_eq_zero t (p ++ [0]) (by simp)
      rw [List.getLast?_concat, List.append_assoc, List.singleton_append, List.length_append,
        List.length_singleton] at hzeros
      -- what is cut off are the line ends behind the first NUL
      have hsum : bareEols none (p ++ 0 :: t) = bareEols none p + bareEols (some 0) t := by
        rw [bareEols_append, bareEols, if_neg (by simp), Nat.zero_add]
      have hiff : bareEols none p = bareEols none (p ++ 0 :: t) ↔ bareEols (some 0) t = 0 := by
        omega
      rw [hiff, hzeros]
      constructor
      · intro h i j hij hnul hten
        have hi : p.length ≤ i := by
          by_contra hlt
          rw [List.getElem?_append_left (by omega)] at hnul
          exact hfront 0 (List.mem_of_getElem? hnul) rfl
        exact h j (by omega) hten
      · intro h j hj hten
        exact h p.length j hj (by simp) hten

/-! ## Copying -/

section Copying

variable (beyond : Nat → UInt8)

theorem decodeUnit_byte {b : Nat → UInt8} (h : b 0 < 128) : decodeUnit b = ((b 0).toUInt16, 1) := by
  rcases mask_one ⟨(b 0).toNat, UInt8.lt_iff_toNat_lt.mp h⟩ with ⟨hE0, hC0, -⟩
  dsimp only at hE0 hC0
  rw [UInt8.ofNat_toNat] at hE0 hC0
  rw [decodeUnit, if_neg hE0, if_neg hC0]

/-- One turn writes the units of one byte. -/
theorem turn_byte {n : Nat} {p t : List UInt8} {b : UInt8} (reads : List Nat) (hb : b < 128)
    (hn : (dosEol none (p ++ [b])).length ≤ n) :
    ∃ reads', Copy.turn (inMemory (p ++ b :: t) beyond) true
        ⟨(dosEol none p).length, p.length, .filled n (dosEol none p), reads⟩ =
      ⟨(dosEol none (p ++ [b])).length, p.length + 1, .filled n (dosEol none (p ++ [b])),
        reads'⟩ := by
  have hat : inMemory (p ++ b :: t) beyond p.length = b := inMemory_at
  have hunit : decodeUnit (fun i => inMemory (p ++ b :: t) beyond (p.length + i)) =
      (b.toUInt16, 1) := by
    rw [decodeUnit_byte (by rw [Nat.add_zero, hat]; exact hb), Nat.add_zero, hat]
  have hempty : (dosEol none p).length = 0 ↔ p.length = 0 := by
    rw [length_dosEol]
    constructor
    · omega
    · intro h
      rw [List.eq_nil_of_length_eq_zero h]
      rfl
  have hconcat : dosEol none (p ++ [b]) = dosEol none p ++ eolUnits p.getLast? b := by
    rw [dosEol_append, dosEol, dosEol, List.append_nil, Option.or_none]
  rw [hconcat] at hn ⊢
  have hbare : (b == 10 && ((dosEol none p).length == 0 ||
      inMemory (p ++ b :: t) beyond (p.length - 1) != 13)) = true ↔
      b = 10 ∧ p.getLast? ≠ some 13 := by
    rw [← @inMemory_before beyond p t b]
    simp [hempty]
  unfold Copy.turn
  simp only [hunit, hat, decide_true, Bool.true_and]
  unfold eolUnits at hn ⊢
  by_cases h : b = 10 ∧ p.getLast? ≠ some 13
  · rw [if_pos h] at hn ⊢
    rw [List.length_append, List.length_cons, List.length_singleton] at hn
    -- a bare line feed takes two places
    have hone := Buffer.put_filled (n := n) (l := dosEol none p) rfl (by omega) 13
    have htwo := Buffer.put_filled (n := n) (l := dosEol none p ++ [13]) List.length_append
      (by rw [List.length_singleton]; omega) 10
    rw [List.length_singleton, List.append_assoc, List.singleton_append] at htwo
    simp only [hbare.mpr h, if_true]
    rw [hone, h.1, show (10 : UInt8).toUInt16 = 10 from rfl, htwo, List.length_append]
    exact ⟨_, rfl⟩
  · rw [if_neg h] at hn ⊢
    rw [List.length_append, List.length_singleton] at hn
    -- any other byte takes one
    have hone := Buffer.put_filled (n := n) (l := dosEol none p) rfl (by omega) b.toUInt16
    simp only [hbare, h, if_false]
    rw [hone, List.length_append, List.length_singleton]
    exact ⟨_, rfl⟩

/-- The loop writes the units of one byte after the other. -/
theorem copyLoop_bytes {n : Nat} (t : List UInt8) : ∀ (p : List UInt8) (reads : List Nat),
    (∀ b ∈ t, b < 128) → (dosEol none (p ++ t)).length ≤ n →
    ∃ reads', copyLoop (inMemory (p ++ t) beyond) true (dosEol none (p ++ t)).length
        ⟨(dosEol none p).length, p.length, .filled n (dosEol none p), reads⟩ =
      ⟨(dosEol none (p ++ t)).length, (p ++ t).length, .filled n (dosEol none (p ++ t)),
        reads'⟩ := by
  induction t with
  | nil =>
      intro p reads _ _
      rw [copyLoop, List.append_nil, if_neg (Nat.lt_irrefl _)]
      exact ⟨reads, rfl⟩
  | cons b t ih =>
      intro p reads h7 hn
      rw [List.forall_mem_cons] at h7
      have hsplit : p ++ b :: t = (p ++ [b]) ++ t := by simp
      have hle : (dosEol none (p ++ [b])).length ≤ (dosEol none (p ++ b :: t)).length := by
        rw [hsplit, dosEol_append none (p ++ [b]) t, List.length_append]
        omega
      have hlt : (dosEol none p).length < (dosEol none (p ++ [b])).length := by
        rw [length_dosEol, length_dosEol, bareEols_append, List.length_append,
          List.length_singleton]
        omega
      rcases turn_byte beyond (t := t) reads h7.1 (hle.trans hn) with ⟨reads', hturn⟩
      have hnext := ih (p ++ [b]) reads' h7.2 (by rw [← hsplit]; exact hn)
      rw [← hsplit, List.length_append, List.length_singleton] at hnext
      rw [copyLoop, if_pos (by dsimp only; omega), hturn]
      exact hnext

end Copying

/-! ## When the conversion is right -/

theorem utf8Charlen_bytes {s : List UInt8} (h7 : ∀ b ∈ s, b < 128) :
    Uefi.utf8Charlen s = s.length := by
  refine List.countP_eq_length.mpr ?_
  intro b hb
  have hone := (mask_one ⟨b.toNat, UInt8.lt_iff_toNat_lt.mp (h7 b hb)⟩).2.2
  rw [UInt8.ofNat_toNat] at hone
  exact decide_eq_true hone

/-- The length that is reported. -/
theorem length_toUefiString {s : List UInt8} (beyond : Nat → UInt8) (h7 : ∀ b ∈ s, b < 128) :
    (toUefiString (inMemory s beyond) s.length).length =
      s.length + bareEols none (s.takeWhile (· ≠ 0)) := by
  have hcount := @countUnixEolFrom_eq beyond s []
  rw [List.nil_append] at hcount
  unfold toUefiString utf8ToUnicode
  dsimp only
  rw [if_pos rfl, map_inMemory, utf8Charlen_bytes h7, countUnixEol]
  exact congrArg (s.length + ·) hcount

/-- Ends of line are converted, within the buffer, exactly when none of them is to be converted
behind a NUL. -/
theorem eol_iff {s : List UInt8} (beyond : Nat → UInt8) (h7 : ∀ b ∈ s, b < 128) :
    EolsConverted s beyond ↔ NoEolBehindNul s := by
  rw [← bareEols_takeWhile]
  have hlength := length_toUefiString beyond h7
  constructor
  · intro h
    have hasked := h.length
    rw [hlength, length_dosEol] at hasked
    omega
  · intro h
    rw [h, ← length_dosEol] at hlength
    refine ⟨?_, hlength⟩
    rcases copyLoop_bytes beyond (n := (dosEol none s).length + 1) s [] [] h7 (by simp)
      with ⟨reads, hloop⟩
    rw [List.nil_append] at hloop
    unfold toUefiString utf8ToUnicode at hlength ⊢
    dsimp only at hlength ⊢
    rw [hlength, Buffer.new_eq_filled]
    have hstart : (⟨0, 0, .filled ((dosEol none s).length + 1) [], []⟩ : Copy) =
        ⟨(dosEol none []).length, ([] : List UInt8).length,
          .filled ((dosEol none s).length + 1) (dosEol none []), []⟩ := rfl
    rw [hstart, hloop, Buffer.put_filled rfl (by omega), Buffer.filled_all_succ]

/-- A line of the console. -/
theorem converted_hi : (∀ b ∈ ([72, 105, 10] : List UInt8), b < 128) ∧
    EolsConverted [72, 105, 10] (fun _ => 0) := by
  have h7 : ∀ b ∈ ([72, 105, 10] : List UInt8), b < 128 := by simp
  refine ⟨h7, (eol_iff _ h7).mpr ?_⟩
  intro i j hij hnul _
  rcases i with _ | _ | _ | i <;> simp at hnul

/-- Behind a NUL an end of line is converted that no room was made for: there are three places,
and four units are written. -/
theorem overrun_behind_nul :
    (toUefiString (inMemory [0, 10] fun _ => 0) 2).length = 2 ∧
      (toUefiString (inMemory [0, 10] fun _ => 0) 2).dst =
        ⟨[some 0, some 13, some 10], true⟩ ∧ ¬ EolsConverted [0, 10] fun _ => 0 := by
  have h7 : ∀ b ∈ ([0, 10] : List UInt8), b < 128 := by simp
  have hlength : (toUefiString (inMemory [0, 10] fun _ => 0) 2).length = 2 :=
    length_toUefiString _ h7
  have hloop : copyLoop (inMemory [0, 10] fun _ => 0) true 2 ⟨0, 0, .new 3, []⟩ =
      ⟨3, 2, ⟨[some 0, some 13, some 10], false⟩, [0, 0, 1]⟩ := by
    rw [copyLoop, if_pos (by decide), copyLoop, if_pos (by decide), copyLoop, if_neg (by decide)]
    rfl
  refine ⟨hlength, ?_, ?_⟩
  · unfold toUefiString utf8ToUnicode at hlength ⊢
    dsimp only at hlength ⊢
    rw [hlength, hloop]
    rfl
  · intro h
    have hasked := h.length
    rw [show ([0, 10] : List UInt8).length = 2 from rfl, hlength] at hasked
    cases hasked

end EfiLvgl.Text
