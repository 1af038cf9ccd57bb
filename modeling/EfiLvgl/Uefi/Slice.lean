import EfiLvgl.Uefi.Scalar

/-!
# EfiLvgl.Uefi.Slice — slices as views

A slice is an object of its own, at the address of its first element. As long as it has an
element it is a view of what it was taken from: the same elements, and an `IndexError` behind
the last. A slice without elements has `size` zero, which `get_value` takes for an unknown
length, so that every index is loaded (`slices_view_iff`).
-/

namespace EfiLvgl.Uefi

/-! ## Chains of slices -/

/-- `m[i:j]`, and slices of that. -/
def slices (a : Arch) (ns : Namespace) (n : Nat) (lib : LoadLib) (memory : Nat → UInt8) :
    Mem → List (Nat × Nat) → Res PyObj
  | m, [] => .ok (.mem m)
  | m, (i, j) :: rest => do
      match ← getValue a ns n lib memory m (.slice (.int i) (.int j) .none) with
      | .mem s => slices a ns n lib memory s rest
      | _ => .error (.raise .typeError "object is not subscriptable")

/-- Bounds in order and in range, each pair in the slice before. -/
def Within : Nat → List (Nat × Nat) → Prop
  | _, [] => True
  | len, (i, j) :: rest => i ≤ j ∧ j ≤ len ∧ Within (j - i) rest

/-- How many elements are left of `len`. -/
def viewLen : Nat → List (Nat × Nat) → Nat
  | len, [] => len
  | _, (i, j) :: rest => viewLen (j - i) rest

/-- Where the first of them is. -/
def viewStart : List (Nat × Nat) → Nat
  | [] => 0
  | (i, _) :: rest => i + viewStart rest

/-- An `IndexError`. -/
def Stop.IsIndexError (e : Stop) : Prop := ∃ msg, e = .raise .indexError msg

/-- At index `k`, `s` is a view of the `len` elements of `m` from `start` on. -/
structure ViewAt (a : Arch) (ns : Namespace) (n : Nat) (lib : LoadLib) (base : BaseLib)
    (ram : Ram a.word) (m s : Mem) (start len k : Nat) : Prop where
  length : memLen s = len
  load : k < len → getValue a ns n lib ram.byte s (.int k) =
    getValue a ns n lib ram.byte m (.int (start + k : Nat))
  store : k < len → ∀ v,
    (storeAt a base ram.byte s (.int k) v).stop =
        (storeAt a base ram.byte m (.int (start + k : Nat)) v).stop ∧
      (storeAt a base ram.byte s (.int k) v).apply ram =
        (storeAt a base ram.byte m (.int (start + k : Nat)) v).apply ram
  loadOut : len ≤ k → ∃ e, getValue a ns n lib ram.byte s (.int k) = .error e ∧ e.IsIndexError
  storeOut : len ≤ k → m.readonly = false → ∀ v, ∃ e,
    (storeAt a base ram.byte s (.int k) v).writes = [] ∧
      (storeAt a base ram.byte s (.int k) v).stop = some e ∧ e.IsIndexError

/-- Every slice has an element, and none is at address zero. -/
def Visible (a : Arch) (typesize : Nat) : Nat → List (Nat × Nat) → Prop
  | _, [] => True
  | addr, (i, j) :: rest =>
      i < j ∧ (addr + i * typesize) % a.word ≠ 0 ∧
        Visible a typesize ((addr + i * typesize) % a.word) rest

theorem viewLen_le {len : Nat} {path : List (Nat × Nat)} (h : Within len path) :
    viewLen len path ≤ len := by
  induction path generalizing len with
  | nil => exact le_rfl
  | cons p rest ih =>
      rcases h with ⟨hij, hj, hrest⟩
      have := ih hrest
      rw [viewLen]
      omega

theorem view_le {len : Nat} {path : List (Nat × Nat)} (h : Within len path) :
    viewStart path + viewLen len path ≤ len := by
  induction path generalizing len with
  | nil => simp [viewStart, viewLen]
  | cons p rest ih =>
      rcases h with ⟨hij, hj, hrest⟩
      have := ih hrest
      rw [viewStart, viewLen]
      omega

/-! ## One slice -/

section IntArray

variable {a : Arch} {c : Char} {m : Mem}

/-- The slice from `i` to `j`. -/
def sliceObj (a : Arch) (c : Char) (m : Mem) (i j : Nat) : Mem :=
  Mem.sized a { blank ((m.addr + i * typeSize a c) % a.word) m.readonly with
    typespec := some [c], typesize := typeSize a c } (j - i) m.page

/-- Bounds in order and in range are kept. -/
theorem fastSlice_eq {len i j : Nat} (hij : i ≤ j) (hj : j ≤ len) (hfit : 2 * j < a.word) :
    mpSeqGetFastSliceIndexes a len (.int i) (.int j) .none = .ok (i, j) := by
  have hword := a.word_pos
  have hbounds : sliceBounds a len i j = (i, j) := by
    unfold sliceBounds
    dsimp only
    rw [if_neg (by omega), if_neg (by omega), if_neg (by omega), if_neg (by omega),
      if_neg (by omega)]
    have hi : (i : Int) % a.word = i := Int.emod_eq_of_lt (by omega) (by omega)
    have hj : (j : Int) % a.word = j := Int.emod_eq_of_lt (by omega) (by omega)
    rw [hi, hj, Int.toNat_natCast, Int.toNat_natCast]
  unfold mpSeqGetFastSliceIndexes
  simp only [SliceArg.get, bind_ok_left]
  rw [if_neg (by decide), getInt_natCast (by omega), bind_ok_left, getInt_natCast hfit, bind_ok_left,
    if_neg (by decide), hbounds]

theorem IntArray.getValue_slice (h : IntArray a c m) {ns : Namespace} {n : Nat} {lib : LoadLib}
    {memory : Nat → UInt8} (haddr : m.addr ≠ 0) (hlen : 2 * memLen m < a.word) {i j : Nat}
    (hij : i ≤ j) (hj : j ≤ memLen m) :
    getValue a ns n lib memory m (.slice (.int i) (.int j) .none) =
      .ok (.mem (sliceObj a c m i j)) := by
  have hle : j ≤ if (memLen m : Int) = 0 then a.word - 1 else (memLen m : Int).toNat := by
    split <;> omega
  unfold getValue
  rw [if_neg haddr, if_neg (by rw [h.bitnum]; omega), getInt_natCast hlen]
  simp only [bind_ok_left]
  rw [fastSlice_eq hij hle (by omega)]
  simp only [bind_ok_left, loadSlice]
  rw [if_neg (by omega), h.typespec, h.typesize, efiMemNewN_letter h.letter]
  rfl

theorem sliceObj_intArray (hc : c ∈ intLetters) (m : Mem) (i j : Nat) :
    IntArray a c (sliceObj a c m i j) :=
  intArray_sized hc a _ _ _ _

theorem IntArray.memLen_sliceObj (h : IntArray a c m) {i j : Nat} (hj : j ≤ memLen m) :
    memLen (sliceObj a c m i j) = j - i := by
  have hpos := h.typesize_pos
  have hsize := memLen_mul_le m
  have hlt := h.size_lt
  have hmul : (j - i) * m.typesize ≤ memLen m * m.typesize := Nat.mul_le_mul_right _ (by omega)
  have hmod : typeSize a c * (j - i) % a.word = typeSize a c * (j - i) := by
    rw [← h.typesize, Nat.mul_comm]
    exact Nat.mod_eq_of_lt (by omega)
  rw [h.typesize] at hpos
  show (if 0 < typeSize a c then typeSize a c * (j - i) % a.word / typeSize a c else 0) = j - i
  rw [if_pos hpos, hmod, Nat.mul_div_cancel_left _ hpos]

/-! ## Loads and stores at an index -/

theorem IntArray.getValue_at (h : IntArray a c m) {ns : Namespace} {n : Nat} {lib : LoadLib}
    {memory : Nat → UInt8} (haddr : m.addr ≠ 0) (hlen : 2 * memLen m < a.word) {k : Nat}
    (hk : k < memLen m) :
    getValue a ns n lib memory m (.int k) =
      .ok (.int (readInt a memory c (m.addr + k * typeSize a c))) := by
  have hpos : position m k = k := by
    unfold position
    rw [if_neg (by omega), Int.toNat_natCast]
  rw [h.getValue_eq haddr ⟨hlen, by omega, by omega⟩, hpos]

/-- Behind the last element of an array that has one. -/
theorem IntArray.getValue_out (h : IntArray a c m) {ns : Namespace} {n : Nat} {lib : LoadLib}
    {memory : Nat → UInt8} (haddr : m.addr ≠ 0) (hlen : 2 * memLen m < a.word)
    (hpos : 0 < memLen m) {k : Nat} (hk : memLen m ≤ k) (hfit : 2 * k < a.word) :
    getValue a ns n lib memory m (.int k) =
      .error (.raise .indexError (m.type.name ++ " index out of range")) := by
  unfold getValue
  rw [if_neg haddr, if_neg (by rw [h.bitnum]; omega), getInt_natCast hlen]
  simp only [bind_ok_left, elementIndex, mpGetIndex]
  rw [if_neg (by omega), Int.toNat_natCast, getInt_natCast hfit, bind_ok_left,
    if_pos (by unfold wrapIndex; rw [if_neg (by omega)]; omega)]
  rfl

/-- An index that does not fit. -/
theorem IntArray.getValue_overflow (h : IntArray a c m) {ns : Namespace} {n : Nat} {lib : LoadLib}
    {memory : Nat → UInt8} (haddr : m.addr ≠ 0) (hlen : 2 * memLen m < a.word) {k : Nat}
    (hk : a.word ≤ 2 * k) :
    getValue a ns n lib memory m (.int k) =
      .error (.raise .overflowError "overflow converting long int to machine word") := by
  have hint : getInt a (k : Int) =
      .error (.raise .overflowError "overflow converting long int to machine word") :=
    if_neg (by omega)
  unfold getValue
  rw [if_neg haddr, if_neg (by rw [h.bitnum]; omega), getInt_natCast hlen]
  simp only [bind_ok_left, elementIndex, mpGetIndex, hint]
  rfl

/-- Without an element, every index is loaded. -/
theorem IntArray.getValue_empty (h : IntArray a c m) {ns : Namespace} {n : Nat} {lib : LoadLib}
    {memory : Nat → UInt8} (haddr : m.addr ≠ 0) (hlen : memLen m = 0) {k : Nat}
    (hfit : 2 * k < a.word) :
    getValue a ns n lib memory m (.int k) =
      .ok (.int (readInt a memory c (m.addr + k * typeSize a c))) := by
  have hword := a.word_large
  have hwrap : wrapIndex a (a.word - 1) (k : Int) = k := if_neg (by omega)
  have hchar : typechar m = some c := by rw [typechar, h.typespec]; rfl
  unfold getValue
  rw [if_neg haddr, if_neg (by rw [h.bitnum]; omega), hlen, getInt_natCast (by omega)]
  simp only [bind_ok_left, elementIndex, mpGetIndex, Nat.cast_zero, if_true,
    getInt_natCast hfit, hwrap, Int.toNat_natCast]
  rw [if_neg (by omega), bind_ok_left, if_neg (by omega)]
  unfold loadElement readInt
  rw [hchar, Option.bind_some, (intLetter_spec h.letter a).1]
  cases signedLetter c <;> rfl

/-- A store in which nothing depends on iterating over the value. -/
theorem storeAt_of_index {base : BaseLib} {memory : Nat → UInt8} {index : PyIndex} {v : PyVal}
    {s : Store} (h : ∀ onItems, storeIndex a base memory m index v onItems = s) :
    storeAt a base memory m index v = s := by
  cases v <;> rw [storeAt] <;> exact h _

theorem IntArray.storeAt_eq (h : IntArray a c m) {base : BaseLib} {memory : Nat → UInt8}
    (hro : m.readonly = false) (hlen : 2 * memLen m < a.word) {k : Nat} (hk : k < memLen m)
    (v : PyVal) :
    storeAt a base memory m (.int k) v =
      storeInt (m.addr + k * typeSize a c) (typeSize a c) v := by
  have hwrap : wrapIndex a (memLen m) (k : Int) = k := if_neg (by omega)
  have hindex : ∀ onItems, storeIndex a base memory m (.int k) v onItems =
      storeInt (m.addr + k * typeSize a c) (typeSize a c) v := by
    intro onItems
    unfold storeIndex storeEntry
    rw [hro, if_neg (by decide), if_neg (by rw [h.bitnum]; omega), getInt_natCast hlen]
    simp only [Store.ofRes, Int.toNat_natCast, elementIndex, mpGetIndex,
      getInt_natCast (show 2 * k < a.word by omega), bind_ok_left, hwrap]
    rw [if_neg (by omega)]
    simp only
    rw [if_neg (by omega)]
    unfold storeElement
    simp only [h.typespec, List.head?_cons, (intLetter_spec h.letter a).2.1]
  exact storeAt_of_index hindex

theorem storeAt_readonly {base : BaseLib} {memory : Nat → UInt8}
    (hro : m.readonly = true) (index : PyIndex) (v : PyVal) :
    storeAt a base memory m index v =
      .fail (.raise .valueError "modifying read-only memory") := by
  have hindex : ∀ onItems, storeIndex a base memory m index v onItems =
      .fail (.raise .valueError "modifying read-only memory") := by
    intro onItems
    unfold storeIndex storeEntry
    rw [hro, if_pos rfl]
  exact storeAt_of_index hindex

theorem IntArray.storeAt_out (h : IntArray a c m) {base : BaseLib} {memory : Nat → UInt8}
    (hro : m.readonly = false) (hlen : 2 * memLen m < a.word) {k : Nat} (hk : memLen m ≤ k)
    (hfit : 2 * k < a.word) (v : PyVal) :
    storeAt a base memory m (.int k) v =
      .fail (.raise .indexError (m.type.name ++ " index out of range")) := by
  have hindex : ∀ onItems, storeIndex a base memory m (.int k) v onItems =
      .fail (.raise .indexError (m.type.name ++ " index out of range")) := by
    intro onItems
    unfold storeIndex storeEntry
    rw [hro, if_neg (by decide), if_neg (by rw [h.bitnum]; omega), getInt_natCast hlen]
    simp only [Store.ofRes, Int.toNat_natCast, elementIndex, mpGetIndex, getInt_natCast hfit,
      bind_ok_left]
    rw [if_pos (by unfold wrapIndex; rw [if_neg (by omega)]; omega)]
  exact storeAt_of_index hindex

/-! Addresses count modulo a word. -/

theorem readInt_congr_addr (ram : Ram a.word) {p q : Nat} (h : p ≡ q [MOD a.word]) :
    readInt a ram.byte c p = readInt a ram.byte c q := by
  have hunit : readUnit ram.byte p (typeSize a c) = readUnit ram.byte q (typeSize a c) := by
    rw [readUnit_ram, readUnit_ram, ram.read_congr h]
  unfold readInt readSigned
  rw [hunit]

theorem storeInt_congr (ram : Ram a.word) {p q w : Nat} (h : p ≡ q [MOD a.word]) (v : PyVal) :
    (storeInt p w v).stop = (storeInt q w v).stop ∧
      (storeInt p w v).apply ram = (storeInt q w v).apply ram := by
  unfold storeInt
  split
  · refine ⟨rfl, ?_⟩
    rw [apply_write, apply_write, ram.write_congr h]
  · exact ⟨rfl, rfl⟩

end IntArray

/-! ## Views -/

/-- What a chain of slices leads to, and what it takes to get there. -/
theorem slices_ok {a : Arch} {c : Char} {ns : Namespace} {n : Nat} {lib : LoadLib}
    {memory : Nat → UInt8} {path : List (Nat × Nat)} {m s : Mem} (h : IntArray a c m)
    (hin : Within (memLen m) path) (hs : slices a ns n lib memory m path = .ok (.mem s)) :
    IntArray a c s ∧ memLen s = viewLen (memLen m) path ∧ s.readonly = m.readonly ∧
      s.addr ≡ m.addr + viewStart path * typeSize a c [MOD a.word] ∧
      (path ≠ [] → m.addr ≠ 0 ∧ 2 * memLen m < a.word) ∧
      (s.addr ≠ 0 → 0 < memLen s → Visible a (typeSize a c) m.addr path) := by
  induction path generalizing m with
  | nil =>
      cases hs
      refine ⟨h, rfl, rfl, ?_, fun hne => absurd rfl hne, fun _ _ => trivial⟩
      rw [viewStart, Nat.zero_mul]
      rfl
  | cons p rest ih =>
      rcases p with ⟨i, j⟩
      rcases hin with ⟨hij, hj, hrest⟩
      rw [slices] at hs
      by_cases haddr : m.addr = 0
      · rw [show getValue a ns n lib memory m _ = .ok .false from if_pos haddr] at hs
        cases hs
      by_cases hlen : 2 * memLen m < a.word
      · rw [h.getValue_slice haddr hlen hij hj] at hs
        have hmem : memLen (sliceObj a c m i j) = j - i := h.memLen_sliceObj hj
        rcases ih (sliceObj_intArray h.letter m i j) (by rw [hmem]; exact hrest) hs with
          ⟨hint, hviewLen, hro, hview, hnull, hvisible⟩
        refine ⟨hint, ?_, hro, ?_, fun _ => ⟨haddr, hlen⟩, ?_⟩
        · rw [hviewLen, hmem]
          rfl
        · refine hview.trans ?_
          rw [viewStart, Nat.add_mul, ← Nat.add_assoc]
          exact (Nat.mod_modEq _ _).add_right _
        · intro hs0 hpos
          have hij' : i < j := by
            have hle := viewLen_le hrest
            rw [hviewLen, hmem] at hpos
            omega
          refine ⟨hij', ?_, hvisible hs0 hpos⟩
          -- a slice at address zero could not be sliced again
          intro h0
          cases rest with
          | nil =>
              cases hs
              exact hs0 h0
          | cons p rest => exact (hnull (List.cons_ne_nil _ _)).1 h0
      · have hint : getInt a (memLen m : Int) =
            .error (.raise .overflowError "overflow converting long int to machine word") :=
          if_neg (by omega)
        have hget : getValue a ns n lib memory m (.slice (.int i) (.int j) .none) =
            .error (.raise .overflowError "overflow converting long int to machine word") := by
          unfold getValue
          rw [if_neg haddr, if_neg (by rw [h.bitnum]; omega), hint]
          rfl
        rw [hget] at hs
        cases hs

theorem slices_of_visible {a : Arch} {c : Char} {ns : Namespace} {n : Nat} {lib : LoadLib}
    {memory : Nat → UInt8} {path : List (Nat × Nat)} {m : Mem} (h : IntArray a c m)
    (hin : Within (memLen m) path) (haddr : m.addr ≠ 0) (hlen : 2 * memLen m < a.word)
    (hvisible : Visible a (typeSize a c) m.addr path) :
    ∃ s, slices a ns n lib memory m path = .ok (.mem s) ∧ s.addr ≠ 0 ∧
      (path ≠ [] → 0 < memLen s) := by
  induction path generalizing m with
  | nil => exact ⟨m, rfl, haddr, fun hne => absurd rfl hne⟩
  | cons p rest ih =>
      rcases p with ⟨i, j⟩
      rcases hin with ⟨hij, hj, hrest⟩
      rcases hvisible with ⟨hlt, hne, hvisible⟩
      have hmem : memLen (sliceObj a c m i j) = j - i := h.memLen_sliceObj hj
      rcases ih (sliceObj_intArray h.letter m i j) (by rw [hmem]; exact hrest) hne (by omega)
        hvisible with ⟨s, hs, hs0, hpos⟩
      refine ⟨s, ?_, hs0, ?_⟩
      · rw [slices, h.getValue_slice haddr hlen hij hj]
        exact hs
      · intro _
        cases rest with
        | nil =>
            cases hs
            omega
        | cons p rest => exact hpos (List.cons_ne_nil _ _)

/-- A chain of slices in range ends in a view of the object if and only if none of them is empty
or at address zero; the object has an address and a length that fits an `mp_int_t`, and so does
the index. -/
theorem slices_view_iff (a : Arch) (ns : Namespace) (n : Nat) (lib : LoadLib) (base : BaseLib)
    (ram : Ram a.word) (c : Char) (m : Mem) (path : List (Nat × Nat)) (k : Nat)
    (h : IntArray a c m) (hne : path ≠ []) (hin : Within (memLen m) path) :
    (∃ s, slices a ns n lib ram.byte m path = .ok (.mem s) ∧
        ViewAt a ns n lib base ram m s (viewStart path) (viewLen (memLen m) path) k) ↔
      m.addr ≠ 0 ∧ Visible a (typeSize a c) m.addr path ∧ 2 * memLen m < a.word ∧
        2 * k < a.word := by
  have hle := view_le hin
  constructor
  · rintro ⟨s, hs, hview⟩
    rcases slices_ok h hin hs with ⟨hint, hlen, hro, hcongr, hpath, hvisible⟩
    rcases hpath hne with ⟨haddr, hfit⟩
    have hs0 : s.addr ≠ 0 := by
      intro h0
      have hfalse : getValue a ns n lib ram.byte s (.int k) = .ok .false := if_pos h0
      rcases Nat.lt_or_ge k (viewLen (memLen m) path) with hk | hk
      · have hload := hview.load hk
        rw [hfalse, h.getValue_at haddr hfit (by omega)] at hload
        cases hload
      · rcases hview.loadOut hk with ⟨e, he, -⟩
        rw [hfalse] at he
        cases he
    -- without an element, or with an index that does not fit, there would be no `IndexError`
    have hk : 2 * k < a.word := by
      by_contra hbig
      rcases hview.loadOut (by omega) with ⟨e, he, msg, rfl⟩
      rw [hint.getValue_overflow hs0 (by omega) (by omega)] at he
      cases he
    have hpos : 0 < memLen s := by
      by_contra hempty
      rcases hview.loadOut (by omega) with ⟨e, he, -⟩
      rw [hint.getValue_empty hs0 (by omega) hk] at he
      cases he
    exact ⟨haddr, hvisible hs0 hpos, hfit, hk⟩
  · rintro ⟨haddr, hvisible, hfit, hk⟩
    have hexists : ∃ s, slices a ns n lib ram.byte m path = .ok (.mem s) ∧ s.addr ≠ 0 ∧
        (path ≠ [] → 0 < memLen s) := slices_of_visible h hin haddr hfit hvisible
    rcases hexists with ⟨s, hs, hs0, hpos⟩
    rcases slices_ok h hin hs with ⟨hint, hlen, hro, hcongr, -, -⟩
    have hpos := hpos hne
    have hplace : s.addr + k * typeSize a c ≡
        m.addr + (viewStart path + k) * typeSize a c [MOD a.word] := by
      rw [Nat.add_mul, ← Nat.add_assoc]
      exact hcongr.add_right _
    refine ⟨s, hs, hlen, ?_, ?_, ?_, ?_⟩
    · intro hk
      rw [hint.getValue_at hs0 (by omega) (by omega), h.getValue_at haddr hfit (by omega),
        readInt_congr_addr ram hplace]
    · intro hk v
      cases hmro : m.readonly with
      | true =>
          rw [storeAt_readonly (hro.trans hmro), storeAt_readonly hmro]
          exact ⟨rfl, rfl⟩
      | false =>
          rw [hint.storeAt_eq (hro.trans hmro) (by omega) (by omega),
            h.storeAt_eq hmro hfit (by omega)]
          exact storeInt_congr ram hplace v
    · intro hk'
      exact ⟨_, hint.getValue_out hs0 (by omega) hpos (by omega) hk, _, rfl⟩
    · intro hk' hmro v
      rw [hint.storeAt_out (hro.trans hmro) (by omega) (by omega) hk v]
      exact ⟨_, rfl, rfl, _, rfl⟩

/-- Four bytes. -/
def fourBytes : Mem :=
  Mem.sized .x64 { blank 4096 false with typespec := some ['B'], typesize := 1 } 4 false

theorem efiMemMakeNew_fourBytes :
    efiMemMakeNew .x64 noNames 0 (.len 4) 4096 false false id = .ok fourBytes := by
  have hnew : efiMemNewN .x64 noNames 0 4096 4 (some ['B']) false false = .ok fourBytes :=
    efiMemNewN_letter (by decide)
  unfold efiMemMakeNew
  rw [makeNewObj, hnew]
  rfl

theorem intArray_fourBytes : IntArray .x64 'B' fourBytes :=
  (efiMemMakeNew_intArray (by decide) (show ElementsOf 'B' (.len 4) from rfl)
    efiMemMakeNew_fourBytes).1

/-- The second of the last three bytes of four. -/
theorem slices_view_iff_fourBytes :
    ∃ s, slices .x64 noNames 0 ⟨fun _ _ _ _ => 0, id⟩ (fun _ => 7) fourBytes [(1, 4), (1, 2)] =
        .ok (.mem s) ∧
      ViewAt .x64 noNames 0 ⟨fun _ _ _ _ => 0, id⟩ baseLib ⟨fun _ => 7, fun _ => rfl⟩ fourBytes s
        2 1 0 := by
  have hlen : memLen fourBytes = 4 := by decide
  have hin : Within (memLen fourBytes) [(1, 4), (1, 2)] := by
    rw [hlen]
    exact ⟨by decide, by decide, by decide, by decide, trivial⟩
  exact (slices_view_iff .x64 noNames 0 ⟨fun _ _ _ _ => 0, id⟩ baseLib ⟨fun _ => 7, fun _ => rfl⟩
    'B' fourBytes [(1, 4), (1, 2)] 0 intArray_fourBytes (by decide) hin).mpr
    ⟨by decide, ⟨by decide, by decide, by decide, by decide, trivial⟩, by rw [hlen]; decide,
      by decide⟩

/-- The empty slice in the middle of four bytes: any byte behind it is loaded, and none is
stored. -/
theorem empty_slice_unlimited :
    ∃ s, efiMemMakeNew .x64 noNames 0 (.len 4) 4096 false false id = .ok fourBytes ∧
      slices .x64 noNames 0 ⟨fun _ _ _ _ => 0, id⟩ (fun _ => 7) fourBytes [(2, 2)] =
        .ok (.mem s) ∧ memLen s = 0 ∧
      getValue .x64 noNames 0 ⟨fun _ _ _ _ => 0, id⟩ (fun _ => 7) s (.int 1000) = .ok (.int 7) ∧
      (storeAt .x64 baseLib (fun _ => 7) s (.int 1000) (.int 0)).stop =
        some (.raise .indexError "mem index out of range") ∧
      ¬ ViewAt .x64 noNames 0 ⟨fun _ _ _ _ => 0, id⟩ baseLib ⟨fun _ => 7, fun _ => rfl⟩ fourBytes
        s 2 0 1000 := by
  have hlen : memLen fourBytes = 4 := by decide
  have hslice : getValue .x64 noNames 0 ⟨fun _ _ _ _ => 0, id⟩ (fun _ => 7) fourBytes
      (.slice (.int (2 : Nat)) (.int (2 : Nat)) .none) =
        .ok (.mem (sliceObj .x64 'B' fourBytes 2 2)) :=
    intArray_fourBytes.getValue_slice (by decide) (by rw [hlen]; decide) le_rfl (by rw [hlen]; decide)
  have hint : IntArray .x64 'B' (sliceObj .x64 'B' fourBytes 2 2) :=
    sliceObj_intArray (by decide) fourBytes 2 2
  have hempty : memLen (sliceObj .x64 'B' fourBytes 2 2) = 0 := by decide
  have hload : getValue .x64 noNames 0 ⟨fun _ _ _ _ => 0, id⟩ (fun _ => 7)
      (sliceObj .x64 'B' fourBytes 2 2) (.int (1000 : Nat)) = .ok (.int 7) := by
    rw [hint.getValue_empty (by decide) hempty (by decide)]
    rfl
  refine ⟨sliceObj .x64 'B' fourBytes 2 2, efiMemMakeNew_fourBytes, ?_, hempty, hload, ?_, ?_⟩
  · rw [slices]
    show (getValue .x64 noNames 0 ⟨fun _ _ _ _ => 0, id⟩ (fun _ => 7) fourBytes
      (.slice (.int (2 : Nat)) (.int (2 : Nat)) .none) >>= _) = _
    rw [hslice]
    rfl
  · have hout : storeAt .x64 baseLib (fun _ => 7) (sliceObj .x64 'B' fourBytes 2 2)
        (.int (1000 : Nat)) (.int 0) = .fail (.raise .indexError "mem index out of range") :=
      hint.storeAt_out rfl (by rw [hempty]; decide) (by rw [hempty]; decide) (by decide) (.int 0)
    exact congrArg Store.stop hout
  · intro hview
    rcases hview.loadOut (by decide) with ⟨e, he, -⟩
    rw [hload] at he
    cases he

end EfiLvgl.Uefi
