import EfiLvgl.Uefi.Store

/-!
# EfiLvgl.Uefi.Bounds — which objects are stored to safely

A store through an object should write inside the object or raise (`Store.Bounded`).
`set_value` checks indexes against the length, which is `size / typesize`, but most
letters then write as many bytes as the *letter* stands for, wherever `typesize` comes
from; `None` as an index skips the check of an empty length; bit fields are not
checked at all; and `typespec` may be `NULL`.

`StoreSafe` is the condition on the object under which no store goes wrong. It is
enough (`setValue_bounded`, by induction over the value that is stored) and needed
(`storeSafe_of_bounded`, one store for each way to go wrong).
-/

namespace EfiLvgl.Uefi

/-! ## Bounded stores -/

/-- Every byte written lies in the object, and the store does not fault. -/
def Store.Bounded (m : Mem) (s : Store) : Prop :=
  (∀ w ∈ s.writes, m.addr ≤ w.addr ∧ w.addr + w.bytes.length ≤ m.addr + m.size) ∧
    s.stop ≠ some .fault

section Bounded

variable {m : Mem}

theorem bounded_done : Store.done.Bounded m := by
  constructor
  · intro w hw
    cases hw
  · simp [Store.done]

theorem bounded_fail {e : Stop} (he : e ≠ .fault) : (Store.fail e).Bounded m := by
  constructor
  · intro w hw
    cases hw
  · simpa [Store.fail] using he

theorem bounded_raise {type : ExcType} {msg : String} :
    (Store.fail (.raise type msg)).Bounded m :=
  bounded_fail (by simp)

theorem bounded_write_iff {off : Nat} {bytes : List UInt8} :
    (Store.write (m.addr + off) bytes).Bounded m ↔ off + bytes.length ≤ m.size := by
  constructor
  · intro h
    have := (h.1 _ (List.mem_singleton.mpr rfl)).2
    dsimp only at this
    omega
  · intro h
    constructor
    · intro w hw
      rcases List.mem_singleton.mp hw with rfl
      dsimp only
      omega
    · simp [Store.write]

theorem Store.Bounded.andThen {s t : Store} (hs : s.Bounded m) (ht : t.Bounded m) :
    (s.andThen t).Bounded m := by
  unfold Store.andThen
  split
  · refine ⟨?_, ht.2⟩
    intro w hw
    rcases List.mem_append.mp hw with hw | hw
    · exact hs.1 w hw
    · exact ht.1 w hw
  · exact hs

theorem bounded_ofRes {α : Type} {r : Res α} {k : α → Store} (hr : r ≠ .error .fault)
    (hk : ∀ x, r = .ok x → (k x).Bounded m) : (Store.ofRes r k).Bounded m := by
  cases r with
  | ok x => exact hk x rfl
  | error e =>
      apply bounded_fail
      rintro rfl
      exact hr rfl

end Bounded

/-! ## Safe objects -/

/-- For each case of the switch: the last element of the object is written inside it.
Without a length the first element still is. -/
def ElementSafe (a : Arch) (m : Mem) (len : Nat) : StoreKind → Prop
  | .direct width => width ≤ m.size ∧ len * width ≤ m.size
  | .pointer =>
      a.ptrSize ≤ m.size ∧ len * a.ptrSize ≤ m.size ∧ (len - 1 + len) * m.typesize < a.word
  | .guid => (len - 1) * m.typesize + 16 ≤ m.size
  | _ => True

/-- No store through the object goes wrong. -/
def StoreSafe (a : Arch) (m : Mem) : Prop :=
  if 0 < m.bitnum then
    ∃ t, m.typespec = some t ∧ ∀ w ∈ t.head?.bind (bitWidth a), w ≤ m.size
  else
    2 * memLen m < a.word →
      ∃ t, m.typespec = some t ∧ ElementSafe a m (memLen m) (storeKind a t.head?)

theorem memLen_mul_le (m : Mem) : memLen m * m.typesize ≤ m.size := by
  unfold memLen
  split
  · exact Nat.div_mul_le_self _ _
  · simp

/-! ## Safe objects are stored to safely -/

section Safe

variable {a : Arch} {lib : BaseLib} {memory : Nat → UInt8} {m : Mem}

theorem storeInt_bounded {index width : Nat} {v : PyVal} (h : index * width + width ≤ m.size) :
    (storeInt (m.addr + index * width) width v).Bounded m := by
  cases v with
  | int i =>
      refine bounded_write_iff.mpr ?_
      rw [length_leBytes]
      exact h
  | _ => exact bounded_raise

/-- The check of `set_mem_from_obj` is right as long as it does not wrap around. -/
theorem setMemFromObj_bounded {src : PyVal} {onItems : Nat → Nat → Store} {index len : Nat}
    (hw : index * m.typesize + len * m.typesize < a.word)
    (hitems : ∀ i n, (onItems i n).Bounded m) :
    (setMemFromObj a m src onItems index len).Bounded m := by
  unfold setMemFromObj
  split
  · rename_i buf _
    have hmin : min buf.length (len * m.typesize % a.word) ≤ len * m.typesize :=
      Nat.le_trans (Nat.min_le_right _ _) (Nat.mod_le _ _)
    dsimp only
    split
    · exact bounded_raise
    · rename_i hcheck
      rw [Nat.mod_eq_of_lt (by omega)] at hcheck
      rw [Nat.mod_eq_of_lt (show index * m.typesize < a.word by omega)]
      refine bounded_write_iff.mpr ?_
      rw [List.length_take]
      omega
  · split
    · exact hitems index len
    · exact bounded_raise

/-- A text is stored over zeros. -/
theorem storeText_bounded {bytes : List UInt8} (h : bytes.length ≤ m.size) :
    ((Store.write m.addr (List.replicate m.size 0)).andThen (.write m.addr bytes)).Bounded m := by
  refine Store.Bounded.andThen ?_ ?_
  · exact (@bounded_write_iff m 0 (List.replicate m.size 0)).mpr (by simp)
  · exact (@bounded_write_iff m 0 bytes).mpr (by omega)

/-- One element, or the first one without a check. -/
theorem storeElement_bounded {isNone : Bool} {v : PyVal} {onItems : Nat → Nat → Store}
    {index : Nat} (hfits : Fits a m) (hsafe : ∃ t, m.typespec = some t ∧
      ElementSafe a m (memLen m) (storeKind a t.head?))
    (hindex : index < memLen m ∨ index = 0) (hitems : ∀ i n, (onItems i n).Bounded m) :
    (storeElement a lib m isNone v onItems index (memLen m)).Bounded m := by
  rcases hsafe with ⟨t, ht, hsafe⟩
  have hsize := hfits.size_lt
  have hlen := memLen_mul_le m
  -- the index of the last element is the worst
  have hmono : ∀ w, index * w ≤ (memLen m - 1) * w := fun w =>
    Nat.mul_le_mul_right w (by omega)
  have hrest : index * m.typesize + (memLen m - index) * m.typesize < a.word := by
    rw [← Nat.add_mul]
    rcases hindex with hlt | rfl
    · rw [Nat.add_sub_cancel' (Nat.le_of_lt hlt)]
      omega
    · rw [Nat.zero_add, Nat.sub_zero]
      omega
  -- one element behind the index still fits when it is the last one that does
  have hlast : ∀ w, w ≤ m.size → memLen m * w ≤ m.size → index * w + w ≤ m.size := by
    intro w h0 hl
    rcases hindex with hlt | rfl
    · calc index * w + w = (index + 1) * w := by rw [Nat.add_mul, Nat.one_mul]
        _ ≤ memLen m * w := Nat.mul_le_mul_right w hlt
        _ ≤ m.size := hl
    · omega
  unfold storeElement
  rw [ht]
  dsimp only
  cases hk : storeKind a t.head? with
  | direct width =>
      rw [hk] at hsafe
      exact storeInt_bounded (hlast width hsafe.1 hsafe.2)
  | pointer =>
      rw [hk] at hsafe
      dsimp only
      split
      · refine setMemFromObj_bounded ?_ hitems
        have hsum := hsafe.2.2
        rw [Nat.add_mul] at hsum
        have := hmono m.typesize
        omega
      · exact storeInt_bounded (hlast a.ptrSize hsafe.1 hsafe.2.1)
  | guid =>
      -- a text is parsed straight into the element, anything else is copied
      rw [hk] at hsafe
      have hguid : (memLen m - 1) * m.typesize + 16 ≤ m.size := hsafe
      have hmt := hmono m.typesize
      dsimp only
      split
      · split
        · exact bounded_raise
        · split
          · exact bounded_raise
          · rename_i g _
            rw [Nat.mod_eq_of_lt (by omega)]
            refine bounded_write_iff.mpr ?_
            rw [g.property]
            omega
      · refine setMemFromObj_bounded ?_ hitems
        have htype := hfits.typesize_lt
        rw [Nat.one_mul]
        rcases hindex with hlt | rfl
        · have : index * m.typesize + m.typesize ≤ memLen m * m.typesize := by
            rw [← Nat.succ_mul]
            exact Nat.mul_le_mul_right _ hlt
          omega
        · omega
  | ascii =>
      dsimp only
      split
      · split
        · exact bounded_raise
        · rename_i hle
          exact storeText_bounded (by omega)
      · exact setMemFromObj_bounded hrest hitems
  | unicode =>
      dsimp only
      split
      · split
        · exact bounded_raise
        · rename_i hle
          refine storeText_bounded ?_
          rw [length_unicodeBytes, length_utf8ToUnicode]
          omega
      · exact setMemFromObj_bounded hrest hitems
  | object => exact setMemFromObj_bounded hrest hitems

theorem setBits_bounded {v : PyVal} (hsafe : ∃ t, m.typespec = some t ∧
    ∀ w ∈ t.head?.bind (bitWidth a), w ≤ m.size) : (setBits a lib memory m v).Bounded m := by
  rcases hsafe with ⟨t, ht, hw⟩
  unfold setBits
  rw [ht]
  dsimp only
  split
  · exact bounded_raise
  · rename_i w hbits
    have hle := hw w hbits
    split
    · refine (@bounded_write_iff m 0 _).mpr ?_
      rw [length_leBytes]
      omega
    · exact bounded_raise

theorem getInt_ok {i j : Int} (h : getInt a i = .ok j) :
    j = i ∧ -(a.word : Int) < 2 * i ∧ 2 * i < a.word := by
  unfold getInt at h
  split at h
  · cases h
    exact ⟨rfl, ‹_›⟩
  · cases h

theorem getInt_ne_fault (i : Int) : getInt a i ≠ .error .fault := by
  unfold getInt
  split <;> simp

/-- An index that is accepted is inside, or is the first one. -/
theorem elementIndex_ok {type : ObjType} {len i : Nat} {index : PyIndex}
    (h : elementIndex a type len index = .ok i) : i < len ∨ i = 0 := by
  cases index with
  | none =>
      cases h
      exact .inr rfl
  | slice =>
      cases h
      exact .inr rfl
  | other => cases h
  | int k =>
      rcases bind_ok.mp h with ⟨j, -, h⟩
      split at h
      · cases h
      · rename_i hin
        cases h
        exact .inl (by omega)

theorem bind_ne_fault {α β : Type} {x : Res α} {f : α → Res β} (hx : x ≠ .error .fault)
    (hf : ∀ y, f y ≠ .error .fault) : x >>= f ≠ .error .fault := by
  cases x with
  | error e =>
      intro h
      cases h
      exact hx rfl
  | ok y => exact hf y

theorem elementIndex_ne_fault {type : ObjType} {len : Nat} {index : PyIndex} :
    elementIndex a type len index ≠ .error .fault := by
  cases index with
  | none => simp [elementIndex]
  | slice => simp [elementIndex]
  | other => simp [elementIndex]
  | int k =>
      refine bind_ne_fault (getInt_ne_fault k) fun i => ?_
      split <;> simp

/-- What `set_value` does first. -/
theorem storeEntry_bounded {v : PyVal} {k : Nat → Store} (hsafe : StoreSafe a m)
    (hk : m.bitnum = 0 → 2 * memLen m < a.word → (k (memLen m)).Bounded m) :
    (storeEntry a lib memory m v k).Bounded m := by
  unfold storeEntry
  split
  · exact bounded_raise
  · unfold StoreSafe at hsafe
    split
    · rename_i hbit
      rw [if_pos hbit] at hsafe
      exact setBits_bounded hsafe
    · rename_i hbit
      refine bounded_ofRes (getInt_ne_fault _) ?_
      intro len hlen
      rcases getInt_ok hlen with ⟨rfl, -, hlt⟩
      rw [Int.toNat_natCast]
      exact hk (by omega) (by omega)

theorem storeIndex_bounded {index : PyIndex} {v : PyVal} {onItems : Nat → Nat → Store}
    (hfits : Fits a m) (hsafe : StoreSafe a m) (hitems : ∀ i n, (onItems i n).Bounded m) :
    (storeIndex a lib memory m index v onItems).Bounded m := by
  refine storeEntry_bounded hsafe fun hbit hlen => ?_
  refine bounded_ofRes elementIndex_ne_fault fun i hi => ?_
  split
  · exact bounded_raise
  · unfold StoreSafe at hsafe
    rw [if_neg (by omega)] at hsafe
    exact storeElement_bounded hfits (hsafe hlen) (elementIndex_ok hi) hitems

mutual

/-- Induction over the value: iterables are stored through the same object. -/
theorem storeAt_bounded (hfits : Fits a m) (hsafe : StoreSafe a m) :
    ∀ (v : PyVal) (index : PyIndex), (storeAt a lib memory m index v).Bounded m
  | .int _, _ => storeIndex_bounded hfits hsafe fun _ _ => bounded_done
  | .str _ _ items, _ =>
      storeIndex_bounded hfits hsafe fun i n => storeItems_bounded hfits hsafe items i n
  | .mem _ items, _ =>
      storeIndex_bounded hfits hsafe fun i n => storeItems_bounded hfits hsafe items i n
  | .fptr _, _ => storeIndex_bounded hfits hsafe fun _ _ => bounded_done
  | .buffer _ items, _ =>
      storeIndex_bounded hfits hsafe fun i n => storeItems_bounded hfits hsafe items i n
  | .iter items, _ =>
      storeIndex_bounded hfits hsafe fun i n => storeItems_bounded hfits hsafe items i n
  | .other _, _ => storeIndex_bounded hfits hsafe fun _ _ => bounded_done

theorem storeItems_bounded (hfits : Fits a m) (hsafe : StoreSafe a m) :
    ∀ (items : PyItems) (index len : Nat), (storeItems a lib memory m index len items).Bounded m
  | .stop, _, _ => bounded_done
  | .raise _ _, _, _ => bounded_raise
  | .next item rest, index, len => by
      unfold storeItems
      split
      · exact bounded_done
      · exact (storeAt_bounded hfits hsafe item _).andThen
          (storeItems_bounded hfits hsafe rest _ _)

end

theorem storeEach_bounded (hfits : Fits a m) (hsafe : StoreSafe a m) (v : PyVal) (is : List Nat) :
    (storeEach a lib memory m v is).Bounded m := by
  induction is with
  | nil => exact bounded_done
  | cons i is ih => exact (storeAt_bounded hfits hsafe v _).andThen ih

theorem sliceArg_ne_fault {d : Int} {s : SliceArg} : s.get a d ≠ .error .fault := by
  cases s with
  | none => simp [SliceArg.get]
  | int i => exact getInt_ne_fault i
  | other name => simp [SliceArg.get]

theorem sliceIndexes_ne_fault {len : Nat} {start stop step : SliceArg} :
    mpSeqGetFastSliceIndexes a len start stop step ≠ .error .fault := by
  refine bind_ne_fault sliceArg_ne_fault fun step => ?_
  split
  · simp
  · refine bind_ne_fault sliceArg_ne_fault fun start => ?_
    refine bind_ne_fault sliceArg_ne_fault fun stop => ?_
    split <;> simp

/-- A store through a safe object stays inside it, whatever the index and the value. -/
theorem setValue_bounded (hfits : Fits a m) (hsafe : StoreSafe a m) (index : PyIndex) (v : PyVal) :
    (setValue a lib memory m index v).Bounded m := by
  cases index with
  | none => exact storeAt_bounded hfits hsafe v _
  | int i => exact storeAt_bounded hfits hsafe v _
  | other name => exact storeAt_bounded hfits hsafe v _
  | slice start stop step =>
      refine storeEntry_bounded hsafe fun _ _ => ?_
      refine bounded_ofRes sliceIndexes_ne_fault fun bounds _ => ?_
      split
      · exact bounded_raise
      · dsimp only
        split
        · exact storeItems_bounded hfits hsafe _ _ _
        · exact storeEach_bounded hfits hsafe v _

end Safe

/-! ## Only safe objects are -/

/-- The base library parses the text of some GUID. -/
def ParsesGuid (lib : BaseLib) : Prop :=
  ∃ data : List UInt8, data.length = 36 ∧ (lib.asciiStrToGuid data).isSome = true

section Unsafe

variable {a : Arch} {lib : BaseLib} {memory : Nat → UInt8} {m : Mem}

theorem storeAt_eq (v : PyVal) : ∃ onItems : Nat → Nat → Store, ∀ index,
    storeAt a lib memory m index v = storeIndex a lib memory m index v onItems := by
  cases v with
  | int i => exact ⟨fun _ _ => .done, fun index => by rw [storeAt]⟩
  | str isBytes data items =>
      exact ⟨fun i n => storeItems a lib memory m i n items, fun index => by rw [storeAt]⟩
  | mem buf items =>
      exact ⟨fun i n => storeItems a lib memory m i n items, fun index => by rw [storeAt]⟩
  | fptr buf => exact ⟨fun _ _ => .done, fun index => by rw [storeAt]⟩
  | buffer data items =>
      exact ⟨fun i n => storeItems a lib memory m i n items, fun index => by rw [storeAt]⟩
  | iter items =>
      exact ⟨fun i n => storeItems a lib memory m i n items, fun index => by rw [storeAt]⟩
  | other name => exact ⟨fun _ _ => .done, fun index => by rw [storeAt]⟩

/-- An index inside the object is accepted as it is. -/
theorem mpGetIndex_inside {type : ObjType} {len i : Nat} (hlen : 2 * len < a.word) (hi : i < len) :
    mpGetIndex a type len i = .ok i := by
  have hint : getInt a (i : Int) = .ok (i : Int) := if_pos (by omega)
  rw [mpGetIndex, hint, bind_ok_left]
  have hwrap : wrapIndex a len (i : Int) = i := if_neg (by omega)
  rw [hwrap, if_neg (by omega), Int.toNat_natCast]

/-- Every element of an object that is no bit field can be stored to, and without a
length the first one. -/
theorem setValue_element (v : PyVal) (hro : m.readonly = false) (hbit : m.bitnum = 0)
    (hlen : 2 * memLen m < a.word) {i : Nat} (hi : i < memLen m ∨ i = 0) :
    ∃ (index : PyIndex) (isNone : Bool) (onItems : Nat → Nat → Store),
      setValue a lib memory m index v = storeElement a lib m isNone v onItems i (memLen m) := by
  rcases @storeAt_eq a lib memory m v with ⟨onItems, heq⟩
  have hint : getInt a (memLen m : Int) = .ok (memLen m : Int) := if_pos (by omega)
  by_cases hlt : i < memLen m
  · refine ⟨.int i, false, onItems, ?_⟩
    have hsv : setValue a lib memory m (.int i) v = storeAt a lib memory m (.int i) v := rfl
    rw [hsv, heq, storeIndex, storeEntry, hro, hbit]
    simp only [hint, Store.ofRes, elementIndex, Int.toNat_natCast, mpGetIndex_inside hlen hlt,
      Nat.lt_irrefl, if_false, Bool.false_eq_true]
    rw [if_neg (by omega)]
    rfl
  · have hi0 : i = 0 := by omega
    subst hi0
    refine ⟨.none, true, onItems, ?_⟩
    have hsv : setValue a lib memory m .none v = storeAt a lib memory m .none v := rfl
    rw [hsv, heq, storeIndex, storeEntry, hro, hbit]
    simp only [hint, Store.ofRes, elementIndex, Int.toNat_natCast, Nat.lt_irrefl, if_false,
      Bool.false_eq_true]
    rw [if_neg (by omega)]
    rfl

/-- If every store is bounded, so is each element's. -/
theorem element_bounded (hb : ∀ index v, (setValue a lib memory m index v).Bounded m)
    (hro : m.readonly = false) (hbit : m.bitnum = 0) (hlen : 2 * memLen m < a.word) (v : PyVal)
    {i : Nat} (hi : i < memLen m ∨ i = 0) : ∃ (isNone : Bool) (onItems : Nat → Nat → Store),
      (storeElement a lib m isNone v onItems i (memLen m)).Bounded m := by
  rcases @setValue_element a lib memory m v hro hbit hlen _ hi with
    ⟨index, isNone, onItems, heq⟩
  exact ⟨isNone, onItems, heq ▸ hb index v⟩

/-- What a bounded store of an integer says about the width. -/
theorem width_le_of_storeInt {off width : Nat}
    (h : (storeInt (m.addr + off) width (.int 0)).Bounded m) : off + width ≤ m.size := by
  have := bounded_write_iff.mp h
  rwa [length_leBytes] at this

/-- A width that fits at the first and at the last element. -/
theorem widths_le {width : Nat}
    (h : ∀ i, i < memLen m ∨ i = 0 → i * width + width ≤ m.size) :
    width ≤ m.size ∧ memLen m * width ≤ m.size := by
  constructor
  · have := h 0 (.inr rfl)
    omega
  · rcases Nat.eq_zero_or_pos (memLen m) with h0 | hpos
    · rw [h0, Nat.zero_mul]
      exact Nat.zero_le _
    · have := h (memLen m - 1) (.inl (by omega))
      rwa [← Nat.succ_mul, Nat.succ_eq_add_one, Nat.sub_add_cancel hpos] at this

theorem bits_of_bounded (hro : m.readonly = false) (hbit : 0 < m.bitnum)
    (hb : ∀ index v, (setValue a lib memory m index v).Bounded m) :
    ∃ t, m.typespec = some t ∧ ∀ w ∈ t.head?.bind (bitWidth a), w ≤ m.size := by
  have h := hb .none (.int 0)
  have hset : setValue a lib memory m .none (.int 0) = setBits a lib memory m (.int 0) := by
    have hsv : setValue a lib memory m .none (.int 0) = storeAt a lib memory m .none (.int 0) := rfl
    rw [hsv, storeAt, storeIndex, storeEntry, hro, if_neg (by simp), if_pos hbit]
  rw [hset, setBits] at h
  cases ht : m.typespec with
  | none =>
      rw [ht] at h
      exact absurd rfl h.2
  | some t =>
      refine ⟨t, rfl, fun w hw => ?_⟩
      rw [ht] at h
      simp only [Option.mem_def] at hw
      simp only [hw] at h
      have := (@bounded_write_iff m 0 _).mp h
      rw [length_leBytes] at this
      omega

/-- The check of `set_mem_from_obj` must not wrap around for the last element. -/
theorem pointer_of_bounded (hfits : Fits a m) {t : Str} (ht : m.typespec = some t)
    (hk : storeKind a t.head? = .pointer)
    (hel : ∀ (v : PyVal) (i : Nat), i < memLen m ∨ i = 0 → ∃ (isNone : Bool)
      (onItems : Nat → Nat → Store),
        (storeElement a lib m isNone v onItems i (memLen m)).Bounded m) :
    ElementSafe a m (memLen m) .pointer := by
  have hint : ∀ i, i < memLen m ∨ i = 0 → i * a.ptrSize + a.ptrSize ≤ m.size := by
    intro i hi
    rcases hel (.int 0) i hi with ⟨isNone, onItems, h⟩
    unfold storeElement at h
    simp only [ht, hk] at h
    exact width_le_of_storeInt h
  rcases widths_le hint with ⟨h0, hl⟩
  refine ⟨h0, hl, ?_⟩
  -- otherwise the check of the last element wraps around and lets a long buffer through
  by_contra hge
  have hlen := memLen_mul_le m
  have hsize := hfits.size_lt
  rw [Nat.add_mul] at hge
  have hpos : 0 < memLen m := by
    rcases Nat.eq_zero_or_pos (memLen m) with h0 | hpos
    · simp only [h0, Nat.zero_sub, Nat.zero_mul] at hge
      omega
    · exact hpos
  have hpred : (memLen m - 1) * m.typesize ≤ memLen m * m.typesize :=
    Nat.mul_le_mul_right _ (by omega)
  -- a buffer as long as the object, stored at the last element
  rcases hel (.mem (some (List.replicate (memLen m * m.typesize) 0)) .stop) (memLen m - 1)
    (.inl (by omega)) with ⟨isNone, onItems, h⟩
  unfold storeElement at h
  simp only [ht, hk, PyVal.isMem, if_true, setMemFromObj, PyVal.getBuffer, List.length_replicate]
    at h
  rw [Nat.mod_eq_of_lt (show memLen m * m.typesize < a.word by omega), Nat.min_self,
    Nat.mod_eq_of_lt (show (memLen m - 1) * m.typesize < a.word by omega),
    Nat.mod_eq_sub_mod (by omega), Nat.mod_eq_of_lt (by omega), if_neg (by omega)] at h
  have hle := bounded_write_iff.mp h
  rw [List.length_take, List.length_replicate, Nat.min_self] at hle
  omega

theorem guid_of_bounded (hfits : Fits a m) (hlib : ParsesGuid lib) {t : Str}
    (ht : m.typespec = some t) (hk : storeKind a t.head? = .guid)
    (hel : ∀ (v : PyVal) (i : Nat), i < memLen m ∨ i = 0 → ∃ (isNone : Bool)
      (onItems : Nat → Nat → Store),
        (storeElement a lib m isNone v onItems i (memLen m)).Bounded m) :
    ElementSafe a m (memLen m) .guid := by
  rcases hlib with ⟨data, hdata, hsome⟩
  rcases Option.isSome_iff_exists.mp hsome with ⟨g, hg⟩
  have hlen := memLen_mul_le m
  have hsize := hfits.size_lt
  have hpred : (memLen m - 1) * m.typesize ≤ memLen m * m.typesize :=
    Nat.mul_le_mul_right _ (by omega)
  rcases hel (.str false data .stop) (memLen m - 1) (by omega) with ⟨isNone, onItems, h⟩
  unfold storeElement at h
  simp only [ht, hk, PyVal.strData, hdata, ne_eq, not_true_eq_false, if_false, hg] at h
  rw [Nat.mod_eq_of_lt (by omega)] at h
  have hle := bounded_write_iff.mp h
  rw [g.property] at hle
  exact hle

/-- An object through which no store goes wrong is safe. -/
theorem storeSafe_of_bounded (hfits : Fits a m) (hlib : ParsesGuid lib)
    (hro : m.readonly = false) (hb : ∀ index v, (setValue a lib memory m index v).Bounded m) :
    StoreSafe a m := by
  unfold StoreSafe
  split
  · exact bits_of_bounded hro ‹_› hb
  · intro hlen
    have hel := fun v i hi => element_bounded hb hro (by omega) hlen v (i := i) hi
    cases ht : m.typespec with
    | none =>
        -- the first letter of a `NULL` text is read
        rcases hel (.int 0) 0 (.inr rfl) with ⟨isNone, onItems, h⟩
        unfold storeElement at h
        rw [ht] at h
        exact absurd rfl h.2
    | some t =>
        refine ⟨t, rfl, ?_⟩
        cases hk : storeKind a t.head? with
        | direct width =>
            refine widths_le fun i hi => ?_
            rcases hel (.int 0) i hi with ⟨isNone, onItems, h⟩
            unfold storeElement at h
            simp only [ht, hk] at h
            exact width_le_of_storeInt h
        | pointer => exact pointer_of_bounded hfits ht hk hel
        | guid => exact guid_of_bounded hfits hlib ht hk hel
        | ascii => trivial
        | unicode => trivial
        | object => trivial

end Unsafe

/-! ## Objects of a script -/

/-- Through a writable object that a script has obtained in any way, every store with
every index and value stays inside the object or raises, if and only if the object is
safe. -/
theorem stores_bounded_iff (a : Arch) (lib : BaseLib) (memory : Nat → UInt8) (m : Mem)
    (hlib : ParsesGuid lib) (hm : Obtained a m) (hro : m.readonly = false) :
    (∀ (index : PyIndex) (v : PyVal), (setValue a lib memory m index v).Bounded m) ↔
      StoreSafe a m := by
  constructor
  · intro hb
    exact storeSafe_of_bounded hm.fits hlib hro hb
  · intro hsafe index v
    exact setValue_bounded hm.fits hsafe index v

/-- The value of a hexadecimal digit. -/
def hexDigit (b : UInt8) : Option UInt8 :=
  if 48 ≤ b ∧ b ≤ 57 then some (b - 48)
  else if 97 ≤ b ∧ b ≤ 102 then some (b - 87)
  else if 65 ≤ b ∧ b ≤ 70 then some (b - 55)
  else none

/-- Two digits a byte. -/
def hexBytes : List UInt8 → Option (List UInt8)
  | [] => some []
  | h :: l :: rest => do
      let h ← hexDigit h
      let l ← hexDigit l
      let bytes ← hexBytes rest
      return (h * 16 + l) :: bytes
  | [_] => none

/-- The text `aabbccdd-eeff-gghh-iijj-kkllmmnnoopp` as a GUID: the first three groups
are integers, lowest byte first. -/
def guidOfText (s : List UInt8) : Option { g : List UInt8 // g.length = 16 } := do
  let d1 ← hexBytes (s.take 8)
  let d2 ← hexBytes ((s.drop 9).take 4)
  let d3 ← hexBytes ((s.drop 14).take 4)
  let d4 ← hexBytes ((s.drop 19).take 4)
  let d5 ← hexBytes (s.drop 24)
  let g := d1.reverse ++ d2.reverse ++ d3.reverse ++ d4 ++ d5
  if h : g.length = 16 ∧ [8, 13, 18, 23].all (fun i => s.getD i 0 == 45) then some ⟨g, h.1⟩
  else none

/-- The base library on integers and on GUIDs in the registry format. -/
def baseLib : BaseLib where
  bitFieldWrite := fun width operand startBit endBit value =>
    operand - (operand / 2 ^ startBit % 2 ^ (endBit + 1 - startBit)) * 2 ^ startBit +
      (value % 2 ^ (endBit + 1 - startBit)) * 2 ^ startBit % 2 ^ (8 * width)
  lShiftU64 := fun operand count => operand * 2 ^ count % 2 ^ 64
  asciiStrToGuid := guidOfText

/-- `gGuidFormat`. -/
def gGuidFormat : List UInt8 :=
  [48, 49, 50, 51, 52, 53, 54, 55, 45, 56, 57, 97, 98, 45, 99, 100, 101, 102, 45, 48, 49, 50, 51, 45,
    52, 53, 54, 55, 56, 57, 97, 98, 99, 100, 101, 102]

theorem parsesGuid_baseLib : ParsesGuid baseLib :=
  ⟨gGuidFormat, by decide, by decide +kernel⟩

/-- A 16-bit word can be stored to with any index and value. -/
theorem word_stores_bounded :
    ∃ m, efiMemNew .x64 noNames 0 4096 (some ['H']) false false = .ok m ∧
      ∀ (index : PyIndex) (v : PyVal),
        (setValue .x64 baseLib (fun _ => 0) m index v).Bounded m := by
  have hnew : efiMemNew .x64 noNames 0 4096 (some ['H']) false false = .ok _ :=
    efiMemNew_plain rfl rfl
  refine ⟨_, hnew, ?_⟩
  refine (stores_bounded_iff .x64 baseLib _ _ parsesGuid_baseLib (.new hnew) rfl).mpr ?_
  have hlen : memLen (Mem.sized .x64 { blank 4096 false with
      typespec := some ['H'], typesize := typeSize .x64 'H' } 1 false) = 1 := by decide
  unfold StoreSafe
  rw [if_neg (by decide), hlen]
  exact fun _ => ⟨['H'], rfl, by decide, by decide⟩

/-- A byte that is cast to a 64-bit word: its `VALUE` overruns it by seven bytes. -/
theorem cast_byte_overruns :
    ∃ m m', efiMemNew .x64 noNames 0 4096 (some ['B']) false false = .ok m ∧
      efiMemTypecast .x64 noNames 1 m (.str ['Q']) = .ok m' ∧
      Obtained .x64 m' ∧ m'.readonly = false ∧ m'.addr = 4096 ∧ m'.size = 1 ∧
      (setValue .x64 baseLib (fun _ => 0) m' .none (.int 0)).writes =
        [⟨4096, [0, 0, 0, 0, 0, 0, 0, 0]⟩] ∧
      ¬ (setValue .x64 baseLib (fun _ => 0) m' .none (.int 0)).Bounded m' := by
  have hnew : efiMemNew .x64 noNames 0 4096 (some ['B']) false false = .ok _ :=
    efiMemNew_plain rfl rfl
  have hcast : efiMemTypecast .x64 noNames 1 (Mem.sized .x64 { blank 4096 false with
      typespec := some ['B'], typesize := typeSize .x64 'B' } 1 false) (.str ['Q']) = .ok _ :=
    efiMemTypecast_plain rfl rfl (by decide)
  have hw : (setValue .x64 baseLib (fun _ => 0) { Mem.sized .x64 { blank 4096 false with
      typespec := some ['B'], typesize := typeSize .x64 'B' } 1 false with
      typespec := some ['Q'], typesize := typeSize .x64 'Q' } .none (.int 0)).writes =
        [⟨4096, [0, 0, 0, 0, 0, 0, 0, 0]⟩] := by
    decide +kernel
  refine ⟨_, _, hnew, hcast, .cast (.new hnew) hcast, rfl, rfl, by decide, hw, ?_⟩
  intro h
  have hin := (h.1 _ (hw ▸ List.mem_singleton.mpr rfl)).2
  revert hin
  decide

end EfiLvgl.Uefi
