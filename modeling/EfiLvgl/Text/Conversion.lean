import EfiLvgl.Lib.Buffer
import EfiLvgl.Text.Characters

/-!
# EfiLvgl.Text.Conversion — texts of scripts and texts of the firmware

`Utf8ToUnicode` and `UnicodeToUtf8` work in two passes: one finds out how long the result is, and
the other one writes it. The passes of the encoder agree, and the decoder gives back what was
encoded (`utf16_round_trip`). The decoder takes all bytes from `0xE0` on for the first of three,
so that it is exact on the texts without characters beyond 16 bits only (`decoding_exact_iff`).
-/

namespace EfiLvgl.Text

/-! ## From UTF-8 -/

section Decoder

variable (src : Nat → UInt8)

/-- The loop of `CountUnixEol`, from an index on. -/
def countUnixEolFrom (length index : Nat) : Nat :=
  if index < length ∧ src index ≠ 0 then
    (if src index = 10 ∧ (index = 0 ∨ src (index - 1) ≠ 13) then 1 else 0) +
      countUnixEolFrom length (index + 1)
  else 0
termination_by length - index

/-- `CountUnixEol`. -/
def countUnixEol (length : Nat) : Nat := countUnixEolFrom src length 0

/-- The variables of the loop of `Utf8ToUnicode`: `pos` is how far `SrcBuf` has gone, and `reads`
are the places of the source that were looked at. -/
structure Copy where
  index : Nat
  pos : Nat
  dst : Buffer UInt16
  reads : List Nat

/-- One turn of the loop. A turn that is one for an end of line goes on by two units. -/
def Copy.turn (convert : Bool) (c : Copy) : Copy :=
  let unit := decodeUnit fun i => src (c.pos + i)
  let eol := decide (unit.2 = 1) && convert && src c.pos == 10
  let bare := eol && (c.index == 0 || src (c.pos - 1) != 13)
  let dst := if bare then c.dst.put c.index 13 else c.dst
  let index := if bare then c.index + 1 else c.index
  { index := index + 1
    pos := c.pos + unit.2
    dst := dst.put index unit.1
    -- the byte before is looked at behind the first turn only
    reads := c.reads ++ (if eol && c.index != 0 then [c.pos - 1] else []) ++
      List.range' c.pos unit.2 }

theorem Copy.index_lt_turn (convert : Bool) (c : Copy) : c.index < (c.turn src convert).index := by
  unfold Copy.turn
  dsimp only
  split <;> omega

/-- The loop of `Utf8ToUnicode`. -/
def copyLoop (convert : Bool) (length : Nat) (c : Copy) : Copy :=
  if c.index < length then copyLoop convert length (c.turn src convert) else c
termination_by length - c.index
decreasing_by
  have := c.index_lt_turn src convert
  omega

/-- What comes of a conversion: the buffer, the length that is reported, and the places of the
source that were looked at. -/
structure Converted (α : Type) where
  dst : Buffer α
  length : Nat
  reads : List Nat

/-- `Utf8ToUnicode` without a destination. -/
def utf8ToUnicode (length : Nat) (convertUnixEol : Bool) : Converted UInt16 :=
  let unixEolNum := if convertUnixEol then countUnixEol src length else 0
  let length := Uefi.utf8Charlen ((List.range length).map src) + unixEolNum
  let c := copyLoop src convertUnixEol length ⟨0, 0, .new (length + 1), []⟩
  ⟨c.dst.put c.index 0, length, c.reads⟩

end Decoder

/-- A text in memory, and what is behind it. -/
def inMemory {α : Type} (s : List α) (beyond : Nat → α) : Nat → α := fun i => s.getD i (beyond i)

/-! ## To UTF-8 -/

/-- The bytes of a unit, as both passes of `UnicodeToUtf8` count them. -/
def unitSize (c : UInt16) : Nat := if c < 0x80 then 1 else if c < 0x800 then 2 else 3

/-- The first pass. -/
def utf8Size (src : List UInt16) : Nat := src.foldl (fun size c => size + unitSize c) 0

/-- The second pass. -/
def encodeLoop (dst : Buffer UInt8) (size : Nat) : List UInt16 → Buffer UInt8 × Nat
  | [] => (dst, size)
  | c :: rest =>
      if c < 0x80 then encodeLoop (dst.put size c.toUInt8) (size + 1) rest
      else if c < 0x800 then
        let dst := dst.put size ((0xC0 : UInt16) ||| (c >>> 6)).toUInt8
        let dst := dst.put (size + 1) ((0x80 : UInt16) ||| (c &&& 0x3F)).toUInt8
        encodeLoop dst (size + 2) rest
      else
        let dst := dst.put size ((0xE0 : UInt16) ||| ((c >>> 12) &&& 0x000F)).toUInt8
        let dst := dst.put (size + 1) ((0x80 : UInt16) ||| ((c >>> 6) &&& 0x003F)).toUInt8
        let dst := dst.put (size + 2) ((0x80 : UInt16) ||| (c &&& 0x003F)).toUInt8
        encodeLoop dst (size + 3) rest

/-- `UnicodeToUtf8` without a destination. -/
def unicodeToUtf8 (src : List UInt16) : Converted UInt8 :=
  let p := encodeLoop (.new (utf8Size src + 1)) 0 src
  ⟨p.1.put p.2 0, p.2, List.range src.length⟩

/-! ## The encoder -/

theorem unitSize_eq (c : UInt16) : unitSize c = (Uefi.utf8OfUnicode c).length := by
  unfold unitSize Uefi.utf8OfUnicode
  split
  · rfl
  · split
    · rfl
    · rfl

theorem utf8Size_eq (u : List UInt16) : utf8Size u = (Uefi.unicodeToUtf8 u).length := by
  have hfrom : ∀ size, u.foldl (fun size c => size + unitSize c) size =
      size + (Uefi.unicodeToUtf8 u).length := by
    induction u with
    | nil => exact fun _ => rfl
    | cons c u ih =>
        intro size
        rw [List.foldl_cons, ih, unitSize_eq, Nat.add_assoc, ← List.length_append]
        rfl
  rw [utf8Size, hfrom, Nat.zero_add]

/-- The second pass writes the bytes of one unit after the other. -/
theorem encodeLoop_eq (dst : Buffer UInt8) (size : Nat) (u : List UInt16) :
    encodeLoop dst size u =
      (dst.putAll size (Uefi.unicodeToUtf8 u), size + (Uefi.unicodeToUtf8 u).length) := by
  induction u generalizing dst size with
  | nil => rfl
  | cons c u ih =>
      have hbytes : Uefi.unicodeToUtf8 (c :: u) =
          Uefi.utf8OfUnicode c ++ Uefi.unicodeToUtf8 u := rfl
      rw [encodeLoop, hbytes, List.length_append]
      unfold Uefi.utf8OfUnicode
      split
      · rw [ih, Nat.add_assoc]
        rfl
      · split
        · rw [ih, Nat.add_assoc]
          rfl
        · rw [ih, Nat.add_assoc]
          rfl

/-- The encoder fills its buffer with the bytes and a terminator. -/
theorem unicodeToUtf8_eq (u : List UInt16) :
    (unicodeToUtf8 u).dst = ⟨(Uefi.unicodeToUtf8 u ++ [0]).map some, false⟩ ∧
      (unicodeToUtf8 u).length = (Uefi.unicodeToUtf8 u).length := by
  have hfill := Buffer.putAll_filled (n := (Uefi.unicodeToUtf8 u).length + 1)
    (List.length_nil : ([] : List UInt8).length = 0) (Uefi.unicodeToUtf8 u) (by omega)
  unfold unicodeToUtf8
  dsimp only
  rw [encodeLoop_eq, utf8Size_eq, Nat.zero_add, Buffer.new_eq_filled, hfill, List.nil_append]
  dsimp only
  rw [Buffer.put_filled rfl (by omega)]
  exact ⟨Buffer.filled_all_succ _ _, rfl⟩

/-! ## The decoder -/

section Decoding

variable {src : Nat → UInt8}

/-- What the memory from a place on starts with. -/
def StartsWith (src : Nat → UInt8) (pos : Nat) (s : List UInt8) : Prop :=
  ∀ i < s.length, src (pos + i) = s.getD i 0

/-- One turn reads the bytes of one unit and writes the unit. -/
theorem turn_char {n pos : Nat} {xs : List UInt16} {reads : List Nat} {c : UInt16}
    (hc : StartsWith src pos (Uefi.utf8OfUnicode c)) (hn : xs.length < n) :
    Copy.turn src false ⟨xs.length, pos, .filled n xs, reads⟩ =
      ⟨xs.length + 1, pos + (Uefi.utf8OfUnicode c).length, .filled n (xs ++ [c]),
        reads ++ List.range' pos (Uefi.utf8OfUnicode c).length⟩ := by
  have hbytes : ∀ i < (Uefi.utf8OfUnicode c).length,
      src (pos + i) = (Uefi.utf8OfUnicode c ++ []).getD i 0 := by
    rw [List.append_nil]
    exact hc
  have hunit : decodeUnit (fun i => src (pos + i)) = (c, (Uefi.utf8OfUnicode c).length) :=
    decodeUnit_char c hbytes
  unfold Copy.turn
  simp only [hunit, Bool.and_false, Bool.false_and, Bool.false_eq_true, if_false, List.append_nil]
  rw [Buffer.put_filled rfl hn]

/-- The loop reads one unit after the other. -/
theorem copyLoop_chars {n pos : Nat} {u : List UInt16} (xs : List UInt16) (reads : List Nat)
    (hu : StartsWith src pos (Uefi.unicodeToUtf8 u)) (hn : xs.length + u.length ≤ n) :
    copyLoop src false (xs.length + u.length) ⟨xs.length, pos, .filled n xs, reads⟩ =
      ⟨xs.length + u.length, pos + (Uefi.unicodeToUtf8 u).length, .filled n (xs ++ u),
        reads ++ List.range' pos (Uefi.unicodeToUtf8 u).length⟩ := by
  induction u generalizing xs pos reads with
  | nil =>
      rw [copyLoop, if_neg (by simp)]
      simp [Uefi.unicodeToUtf8]
  | cons c u ih =>
      have hbytes : Uefi.unicodeToUtf8 (c :: u) =
          Uefi.utf8OfUnicode c ++ Uefi.unicodeToUtf8 u := rfl
      rw [hbytes] at hu ⊢
      rw [List.length_cons] at hn ⊢
      have hc : StartsWith src pos (Uefi.utf8OfUnicode c) := by
        intro i hi
        rw [hu i (by rw [List.length_append]; omega), List.getD_eq_getElem?_getD,
          List.getD_eq_getElem?_getD, List.getElem?_append_left hi]
      have hrest : StartsWith src (pos + (Uefi.utf8OfUnicode c).length) (Uefi.unicodeToUtf8 u) := by
        intro i hi
        rw [Nat.add_assoc, hu _ (by rw [List.length_append]; omega), List.getD_eq_getElem?_getD,
          List.getD_eq_getElem?_getD, List.getElem?_append_right (by omega), Nat.add_sub_cancel_left]
      have hlen : (xs ++ [c]).length = xs.length + 1 := List.length_append
      have hnext := ih (xs ++ [c]) (reads ++ List.range' pos (Uefi.utf8OfUnicode c).length) hrest
        (by rw [hlen]; omega)
      rw [copyLoop, if_pos (show xs.length < xs.length + (u.length + 1) by omega),
        turn_char hc (by omega)]
      rw [hlen, List.append_assoc, List.singleton_append, List.append_assoc, List.range'_append_1,
        Nat.add_assoc pos, ← List.length_append, Nat.add_assoc xs.length, Nat.add_comm 1] at hnext
      exact hnext

/-- The decoder gives back the units whose bytes it is given, and reads no other bytes. -/
theorem utf8ToUnicode_bytes {u : List UInt16} (hu : StartsWith src 0 (Uefi.unicodeToUtf8 u)) :
    utf8ToUnicode src (Uefi.unicodeToUtf8 u).length false =
      ⟨⟨(u ++ [0]).map some, false⟩, u.length, List.range (Uefi.unicodeToUtf8 u).length⟩ := by
  have hbytes : (List.range (Uefi.unicodeToUtf8 u).length).map src = Uefi.unicodeToUtf8 u := by
    refine List.ext_getElem (by simp) ?_
    intro i _ hi
    have hread := hu i hi
    rw [Nat.zero_add, List.getD_eq_getElem?_getD, List.getElem?_eq_getElem hi] at hread
    rw [List.getElem_map, List.getElem_range, hread, Option.getD_some]
  have hloop := copyLoop_chars (n := u.length + 1) [] [] hu (by simp)
  rw [List.length_nil, Nat.zero_add, Nat.zero_add, List.nil_append, List.nil_append] at hloop
  unfold utf8ToUnicode
  dsimp only
  rw [hbytes, utf8Charlen_unicodeToUtf8, if_neg (by decide), Nat.add_zero, Buffer.new_eq_filled,
    hloop, Buffer.put_filled rfl (by omega), List.range_eq_range']
  dsimp only
  rw [Buffer.filled_all_succ]

end Decoding

theorem decoded_inMemory (u : List UInt16) (beyond : Nat → UInt8) :
    utf8ToUnicode (inMemory (Uefi.unicodeToUtf8 u) beyond) (Uefi.unicodeToUtf8 u).length false =
      ⟨⟨(u ++ [0]).map some, false⟩, u.length, List.range (Uefi.unicodeToUtf8 u).length⟩ := by
  refine utf8ToUnicode_bytes ?_
  intro i hi
  rw [Nat.zero_add, inMemory, List.getD_eq_getElem?_getD, List.getD_eq_getElem?_getD,
    List.getElem?_eq_getElem hi, Option.getD_some, Option.getD_some]

/-- What is encoded fills the buffer whose size was computed before, and is decoded again. -/
theorem utf16_round_trip (u : List UInt16) :
    ∃ bytes : List UInt8, bytes.length = utf8Size u ∧ (unicodeToUtf8 u).length = bytes.length ∧
      (unicodeToUtf8 u).dst = ⟨(bytes ++ [0]).map some, false⟩ ∧
      ∀ beyond, utf8ToUnicode (inMemory bytes beyond) bytes.length false =
        ⟨⟨(u ++ [0]).map some, false⟩, u.length, List.range bytes.length⟩ := by
  rcases unicodeToUtf8_eq u with ⟨hdst, hlength⟩
  exact ⟨Uefi.unicodeToUtf8 u, (utf8Size_eq u).symm, hlength, hdst, decoded_inMemory u⟩

/-! ## Valid UTF-8 -/

/-- A character in UTF-16: one unit, or two surrogates. -/
def utf16OfChar (c : Char) : List UInt16 :=
  if c.toNat < 0x10000 then [UInt16.ofNat c.toNat]
  else [UInt16.ofNat (0xD800 + (c.toNat - 0x10000) / 0x400),
    UInt16.ofNat (0xDC00 + (c.toNat - 0x10000) % 0x400)]

/-- Decoding a text reads its bytes and no others, and gives the text in UTF-16 and its length. -/
structure DecodesExactly (cs : List Char) (beyond : Nat → UInt8) : Prop where
  reads : ∀ i, i ∈ (utf8ToUnicode (inMemory (cs.flatMap String.utf8EncodeChar) beyond)
    (cs.flatMap String.utf8EncodeChar).length false).reads ↔
      i < (cs.flatMap String.utf8EncodeChar).length
  dst : (utf8ToUnicode (inMemory (cs.flatMap String.utf8EncodeChar) beyond)
    (cs.flatMap String.utf8EncodeChar).length false).dst =
      ⟨(cs.flatMap utf16OfChar ++ [0]).map some, false⟩
  length : (utf8ToUnicode (inMemory (cs.flatMap String.utf8EncodeChar) beyond)
    (cs.flatMap String.utf8EncodeChar).length false).length = (cs.flatMap utf16OfChar).length

/-- The standard encoding of a character of 16 bits is that of `UnicodeToUtf8`. -/
theorem utf8EncodeChar_eq {c : Char} (hc : c.toNat < 0x10000) :
    String.utf8EncodeChar c = Uefi.utf8OfUnicode (UInt16.ofNat c.toNat) := by
  have hval : (UInt16.ofNat c.toNat).toNat = c.toNat := by
    rw [UInt16.toNat_ofNat', Nat.mod_eq_of_lt hc]
  have hdef : c.val.toNat = c.toNat := rfl
  rw [utf8OfUnicode_eq, hval]
  unfold String.utf8EncodeChar
  dsimp only
  rw [hdef]
  by_cases h1 : c.toNat < 0x80
  · rw [if_pos (by omega), if_pos h1]
  · rw [if_neg (by omega), if_neg h1]
    by_cases h2 : c.toNat < 0x800
    · rw [if_pos (by omega), if_pos h2, Nat.mod_eq_of_lt (show c.toNat / 64 < 0x20 by omega),
        Nat.add_comm 0xC0, Nat.add_comm 0x80]
    · rw [if_neg (by omega), if_pos (by omega), if_neg h2,
        Nat.mod_eq_of_lt (show c.toNat / 4096 < 0x10 by omega), Nat.add_comm 0xE0,
        Nat.add_comm 0x80, Nat.add_comm 0x80]

theorem mask_four : ∀ x : Fin 8, UInt8.ofNat (x + 0xF0) &&& 0xC0 ≠ 0x80 := by
  decide

theorem mask_rest : ∀ x : Fin 64, UInt8.ofNat (x + 0x80) &&& 0xC0 = 0x80 := by
  decide

/-- Of each character one byte is counted, however many it has. -/
theorem utf8Charlen_utf8EncodeChar (c : Char) (rest : List UInt8) :
    Uefi.utf8Charlen (String.utf8EncodeChar c ++ rest) = Uefi.utf8Charlen rest + 1 := by
  by_cases hc : c.toNat < 0x10000
  · rw [utf8EncodeChar_eq hc, utf8Charlen_char]
  · have hdef : c.val.toNat = c.toNat := rfl
    have hrest : ∀ x s, Uefi.utf8Charlen (UInt8.ofNat (x % 64 + 0x80) :: s) =
        Uefi.utf8Charlen s := by
      intro x s
      refine List.countP_cons_of_neg ?_
      rw [mask_rest ⟨x % 64, Nat.mod_lt _ (by decide)⟩]
      decide
    have hfirst : ∀ x s, Uefi.utf8Charlen (UInt8.ofNat (x % 8 + 0xF0) :: s) =
        Uefi.utf8Charlen s + 1 := by
      intro x s
      exact List.countP_cons_of_pos (decide_eq_true (mask_four ⟨x % 8, Nat.mod_lt _ (by decide)⟩))
    unfold String.utf8EncodeChar
    dsimp only
    rw [hdef, if_neg (by omega), if_neg (by omega), if_neg (by omega)]
    simp only [List.cons_append, List.nil_append]
    rw [hfirst, hrest, hrest, hrest]

theorem utf8Charlen_text (cs : List Char) :
    Uefi.utf8Charlen (cs.flatMap String.utf8EncodeChar) = cs.length := by
  induction cs with
  | nil => rfl
  | cons c cs ih => rw [List.flatMap_cons, utf8Charlen_utf8EncodeChar, ih, List.length_cons]

/-- What is in memory is what was put there. -/
theorem map_inMemory {α : Type} (s : List α) (beyond : Nat → α) :
    (List.range s.length).map (inMemory s beyond) = s := by
  refine List.ext_getElem (by simp) ?_
  intro i _ hi
  rw [List.getElem_map, List.getElem_range, inMemory, List.getD_eq_getElem?_getD,
    List.getElem?_eq_getElem hi, Option.getD_some]

/-- The length that is reported is the number of characters. -/
theorem length_decoded (cs : List Char) (beyond : Nat → UInt8) :
    (utf8ToUnicode (inMemory (cs.flatMap String.utf8EncodeChar) beyond)
      (cs.flatMap String.utf8EncodeChar).length false).length = cs.length := by
  unfold utf8ToUnicode
  dsimp only
  rw [map_inMemory, utf8Charlen_text, if_neg (by decide), Nat.add_zero]

/-- Characters beyond 16 bits take two units. -/
theorem length_utf16 (cs : List Char) :
    cs.length ≤ (cs.flatMap utf16OfChar).length ∧
      ((cs.flatMap utf16OfChar).length = cs.length → ∀ c ∈ cs, c.toNat < 0x10000) := by
  induction cs with
  | nil => exact ⟨Nat.le_refl 0, fun _ c hc => nomatch hc⟩
  | cons c cs ih =>
      rw [List.flatMap_cons, List.length_append, List.length_cons, List.forall_mem_cons]
      by_cases hc : c.toNat < 0x10000
      · have hone : (utf16OfChar c).length = 1 := by rw [utf16OfChar, if_pos hc]; rfl
        refine ⟨by omega, fun heq => ⟨hc, ih.2 (by omega)⟩⟩
      · have htwo : (utf16OfChar c).length = 2 := by rw [utf16OfChar, if_neg hc]; rfl
        exact ⟨by omega, fun heq => by omega⟩

/-- Without characters beyond 16 bits, both encodings are those of units. -/
theorem units_of_text {cs : List Char} (h : ∀ c ∈ cs, c.toNat < 0x10000) :
    cs.flatMap String.utf8EncodeChar = Uefi.unicodeToUtf8 (cs.flatMap utf16OfChar) := by
  induction cs with
  | nil => rfl
  | cons c cs ih =>
      rw [List.forall_mem_cons] at h
      rw [List.flatMap_cons, List.flatMap_cons, utf8EncodeChar_eq h.1, ih h.2, utf16OfChar,
        if_pos h.1]
      rfl

/-- Decoding a text is exact exactly when the text has no characters beyond 16 bits. -/
theorem decoding_exact_iff (cs : List Char) (beyond : Nat → UInt8) :
    DecodesExactly cs beyond ↔ ∀ c ∈ cs, c.toNat < 0x10000 := by
  constructor
  · intro h
    have hlen := h.length
    rw [length_decoded] at hlen
    exact (length_utf16 cs).2 hlen.symm
  · intro h
    have hdecoded := decoded_inMemory (cs.flatMap utf16OfChar) beyond
    rw [← units_of_text h] at hdecoded
    constructor
    · rw [hdecoded]
      exact fun i => List.mem_range
    · rw [hdecoded]
    · rw [hdecoded]

/-- U+1F600 is four bytes, of which three are taken for a unit. -/
theorem emoji_cut_short :
    utf8ToUnicode (inMemory [0xF0, 0x9F, 0x98, 0x80] fun _ => 0) 4 false =
        ⟨⟨[some 0x7D8, some 0], false⟩, 1, [0, 1, 2]⟩ ∧
      ¬ DecodesExactly [Char.ofNat 0x1F600] fun _ => 0 := by
  have hloop : copyLoop (inMemory [0xF0, 0x9F, 0x98, 0x80] fun _ => 0) false 1
      ⟨0, 0, .new 2, []⟩ = ⟨1, 3, ⟨[some 0x7D8, none], false⟩, [0, 1, 2]⟩ := by
    rw [copyLoop, if_pos (by decide), copyLoop, if_neg (by decide)]
    rfl
  constructor
  · show (⟨(copyLoop _ false 1 ⟨0, 0, .new 2, []⟩).dst.put
      (copyLoop _ false 1 ⟨0, 0, .new 2, []⟩).index 0, 1,
      (copyLoop _ false 1 ⟨0, 0, .new 2, []⟩).reads⟩ : Converted UInt16) = _
    rw [hloop]
    rfl
  · intro h
    have hlen := h.length
    rw [length_decoded] at hlen
    cases hlen

end EfiLvgl.Text
