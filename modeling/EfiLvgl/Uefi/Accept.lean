import EfiLvgl.Uefi.Slice

/-!
# EfiLvgl.Uefi.Accept — the places that loads and stores reach

`get_value` and `set_value` look for the element of an integer index each in a way of its own.
`loadPlace` and `storePlace` are what they do before they touch memory: `getValue_eq_loadFrom`,
`storeAt_refused` and `storeAt_place` say that the rest of both functions depends on the place
only. They agree on all indexes of an object that has an address, a known type and elements,
and hardly on any other: without a length every index is loaded and none is stored
(`places_agree_iff`).
-/

namespace EfiLvgl.Uefi

/-! ## Places -/

/-- How far apart the elements are that the switch of `get_value` loads. -/
def LoadKind.stride (a : Arch) (self : Mem) : LoadKind → Nat
  | .signed width | .unsigned width => width
  | .pointer => a.ptrSize
  | .guid => 16
  | .ascii => 1
  | .unicode => 2
  | .object => self.typesize

/-- The case of `set_value`'s switch for the same letter. -/
def LoadKind.stored : LoadKind → StoreKind
  | .signed width | .unsigned width => .direct width
  | .pointer => .pointer
  | .guid => .guid
  | .ascii => .ascii
  | .unicode => .unicode
  | .object => .object

/-- How far apart the elements are that the switch of `set_value` stores to. -/
def StoreKind.stride (a : Arch) (self : Mem) (value : PyVal) : StoreKind → Nat
  | .direct width => width
  | .pointer => if value.isMem then self.typesize else a.ptrSize
  | _ => self.typesize

/-- `get_value` of an integer index, up to the element; `none` when it returns `False`
without a look at the index. -/
def loadPlace (a : Arch) (self : Mem) (k : Int) : Res (Option Nat) :=
  if self.addr = 0 then .ok none
  else do
    let len ← getInt a (memLen self)
    let len := if len = 0 then a.word - 1 else len.toNat
    let i ← mpGetIndex a self.type len k
    if len < i ∨ 0 < len ∧ i = len then .error (.raise .indexError "Out of buffer")
    else
      match (typechar self).bind (loadKind a) with
      | none => .error (.raise .valueError "Not supported type to subscribe")
      | some kind => .ok (some (self.addr + i * kind.stride a self))

/-- `set_value` with an integer index, up to the element. -/
def storePlace (a : Arch) (self : Mem) (value : PyVal) (k : Int) : Res Nat :=
  if self.readonly then .error (.raise .valueError "modifying read-only memory")
  else do
    let len ← getInt a (memLen self)
    let i ← mpGetIndex a self.type len.toNat k
    if len.toNat < i ∨ 0 < len.toNat ∧ i = len.toNat then
      .error (.raise .indexError "Out of buffer")
    else
      match self.typespec with
      | none => .error .fault
      | some t => .ok (self.addr + i * (storeKind a t.head?).stride a self value)

/-- The rest of `get_value`. -/
def loadFrom (a : Arch) (ns : Namespace) (n : Nat) (lib : LoadLib) (memory : Nat → UInt8)
    (self : Mem) : Option Nat → Res PyObj
  | none => .ok .false
  | some p =>
      match (typechar self).bind (loadKind a) with
      | none => .error (.raise .valueError "Not supported type to subscribe")
      | some (.signed width) => .ok (.int (readSigned memory p width))
      | some (.unsigned width) => .ok (.int (readUnit memory p width))
      | some .pointer =>
          let pointee := (self.typespec.getD []).tail
          if pointee = [] then .ok (.int (readUnit memory p a.ptrSize))
          else
            PyObj.mem <$> efiMemNew a ns n (readUnit memory p a.ptrSize) (some pointee)
              self.readonly self.page
      | some .guid =>
          let str := lib.guidToString ((List.range 16).map fun k => memory (p + k))
          if str.length = 36 then .ok (.str str) else .ok .none
      | some .ascii => .ok (.int (readSigned memory p 1))
      | some .unicode => .ok (.int (readUnit memory p 2))
      | some .object =>
          .ok (.mem { self with type := .mem, addr := p % a.word, size := self.typesize })

section Places

variable {a : Arch} {self : Mem}

/-- A load depends on the place only. -/
theorem getValue_eq_loadFrom (hbit : self.bitnum = 0) (ns : Namespace) (n : Nat) (lib : LoadLib)
    (memory : Nat → UInt8) (k : Int) :
    getValue a ns n lib memory self (.int k) =
      loadPlace a self k >>= loadFrom a ns n lib memory self := by
  unfold getValue loadPlace
  by_cases haddr : self.addr = 0
  · rw [if_pos haddr, if_pos haddr]
    rfl
  · rw [if_neg haddr, if_neg haddr, if_neg (by omega)]
    cases getInt a (memLen self) with
    | error e => rfl
    | ok len =>
        simp only [bind_ok_left, elementIndex]
        generalize (if len = 0 then a.word - 1 else len.toNat) = l
        cases mpGetIndex a self.type l k with
        | error e => rfl
        | ok i =>
            simp only [bind_ok_left]
            split
            · rfl
            · unfold loadElement
              cases hkind : (typechar self).bind (loadKind a) with
              | none => rfl
              | some kind =>
                  simp only [bind_ok_left, loadFrom, hkind]
                  -- an ASCII string is read a byte further at each index, so its stride is 1
                  cases kind with
                  | ascii =>
                      rw [LoadKind.stride, Nat.mul_one]
                      rfl
                  | signed _ | unsigned _ | pointer | guid | unicode | object => rfl

/-- What does not come to an element writes nothing. -/
theorem storeAt_refused (hbit : self.bitnum = 0) (lib : BaseLib) (memory : Nat → UInt8)
    (v : PyVal) {k : Int} {e : Stop} (h : storePlace a self v k = .error e) :
    storeAt a lib memory self (.int k) v = .fail e := by
  -- what is refused for its place is refused before any item is looked at
  have hindex : ∀ onItems, storeIndex a lib memory self (.int k) v onItems = .fail e := by
    intro onItems
    unfold storePlace at h
    unfold storeIndex storeEntry
    split at h
    · next hro =>
        cases h
        rw [if_pos hro]
    · next hro =>
        rw [if_neg hro, if_neg (by omega)]
        cases hlen : getInt a (memLen self) with
        | error e' =>
            rw [hlen] at h
            cases h
            rfl
        | ok len =>
            rw [hlen, bind_ok_left] at h
            simp only [Store.ofRes, elementIndex]
            cases hi : mpGetIndex a self.type len.toNat k with
            | error e' =>
                rw [hi] at h
                cases h
                rfl
            | ok i =>
                rw [hi, bind_ok_left] at h
                simp only
                split at h
                · next hout =>
                    cases h
                    rw [if_pos hout]
                · next hin =>
                    rw [if_neg hin]
                    unfold storeElement
                    cases ht : self.typespec with
                    | none =>
                        rw [ht] at h
                        cases h
                        rfl
                    | some t =>
                        rw [ht] at h
                        cases h
  exact storeAt_of_index hindex

theorem setMemFromObj_place (v : PyVal) (onItems : Nat → Nat → Store) (i len : Nat) :
    setMemFromObj a self v onItems i len = onItems i len ∨
      ∀ w ∈ (setMemFromObj a self v onItems i len).writes,
        w.addr ≡ self.addr + i * self.typesize [MOD a.word] := by
  unfold setMemFromObj
  split
  · right
    dsimp only
    split
    · intro w hw
      cases hw
    · intro w hw
      cases List.mem_singleton.mp hw
      exact (Nat.mod_modEq _ _).add_left _
  · split
    · exact .inl rfl
    · right
      intro w hw
      cases hw

theorem storeInt_place (v : PyVal) (p width : Nat) : ∀ w ∈ (storeInt p width v).writes, w.addr = p := by
  intro w hw
  unfold storeInt at hw
  split at hw
  · cases List.mem_singleton.mp hw
    rfl
  · cases hw

/-- A store with an index writes to the place, if it does not go through items one by one. -/
theorem storeElement_place {t : Str} (ht : self.typespec = some t) (lib : BaseLib) (v : PyVal)
    (onItems : Nat → Nat → Store) (i len : Nat) :
    (∃ len', storeElement a lib self false v onItems i len = onItems i len') ∨
      ∀ w ∈ (storeElement a lib self false v onItems i len).writes,
        w.addr ≡ self.addr + i * (storeKind a t.head?).stride a self v [MOD a.word] := by
  have hobj : ∀ len', (∃ len'', setMemFromObj a self v onItems i len' = onItems i len'') ∨
      ∀ w ∈ (setMemFromObj a self v onItems i len').writes,
        w.addr ≡ self.addr + i * self.typesize [MOD a.word] := fun len' =>
    (setMemFromObj_place v onItems i len').imp_left fun h => ⟨len', h⟩
  unfold storeElement
  simp only [ht]
  cases hkind : storeKind a t.head? with
  | direct width =>
      right
      intro w hw
      rw [storeInt_place v _ _ w hw]
      rfl
  | pointer =>
      by_cases hmem : v.isMem = true
      · -- an object is copied
        simp only [hmem, if_true, StoreKind.stride]
        exact hobj len
      · right
        simp only [hmem, StoreKind.stride]
        intro w hw
        rw [storeInt_place v _ _ w hw]
        rfl
  | guid =>
      dsimp only
      cases v.strData with
      | none => exact hobj 1
      | some data =>
          right
          dsimp only
          split
          · intro w hw
            cases hw
          · split
            · intro w hw
              cases hw
            · intro w hw
              cases List.mem_singleton.mp hw
              exact (Nat.mod_modEq _ _).add_left _
  | ascii => exact hobj (len - i)
  | unicode => exact hobj (len - i)
  | object => exact hobj (len - i)

end Places

/-! ## Agreement -/

/-- Index `k` is taken by both or by none, and what both take is the element `k`. -/
structure SamePlace (a : Arch) (m : Mem) (k : Int) (v : PyVal) : Prop where
  accepts : (∃ p, loadPlace a m k = .ok p) ↔ ∃ q, storePlace a m v k = .ok q
  place : ∀ p q, loadPlace a m k = .ok p → storePlace a m v k = .ok q →
    ∃ p', p = some p' ∧ p' ≡ m.addr + position m k * m.typesize [MOD a.word] ∧
      q ≡ m.addr + position m k * m.typesize [MOD a.word]

/-- The type is known, and its elements are as far apart as `typesize` says; without elements,
the type is one that is not known. -/
def Uniform (a : Arch) (self : Mem) : Prop :=
  ∃ t, self.typespec = some t ∧
    match t.head?.bind (loadKind a) with
    | none => memLen self = 0
    | some kind => 0 < memLen self ∧ (memLen self = 1 ∨ kind.stride a self = self.typesize)

section Agreement

variable {a : Arch} {self : Mem}

/-- The two switches have the same cases. -/
theorem storeKind_of_loadKind {c : Char} {kind : LoadKind} (h : loadKind a c = some kind) :
    storeKind a (some c) = kind.stored := by
  unfold loadKind at h
  split at h <;> cases h <;> rfl

/-- They count alike where one of them counts as `typesize` says. -/
theorem stride_eq {c : Char} {kind : LoadKind} (h : loadKind a c = some kind)
    (hs : kind.stride a self = self.typesize) (v : PyVal) :
    (storeKind a (some c)).stride a self v = self.typesize := by
  rw [storeKind_of_loadKind h]
  cases kind with
  | signed width | unsigned width => exact hs
  | pointer =>
      show (if v.isMem = true then self.typesize else a.ptrSize) = self.typesize
      split
      · rfl
      · exact hs
  | guid | ascii | unicode | object => rfl

theorem stride_lt (hfits : self.typesize < a.word) (kind : LoadKind) {c : Char}
    (h : loadKind a c = some kind) : kind.stride a self < a.word := by
  have hword := a.word_large
  have hptr : a.ptrSize ≤ 8 := by cases a <;> decide
  unfold loadKind at h
  split at h <;> cases h <;> simp only [LoadKind.stride] <;> omega

/-- An index that has been looked for is not behind the elements. -/
theorem bind_checkedIndex {β : Type} (hlen : 2 * memLen self < a.word) (k : Int)
    (refused : Res β) (f : Nat → Res β) :
    (mpGetIndex a self.type (memLen self) k >>= fun i =>
        if memLen self < i ∨ 0 < memLen self ∧ i = memLen self then refused else f i) =
      mpGetIndex a self.type (memLen self) k >>= f := by
  cases hi : mpGetIndex a self.type (memLen self) k with
  | error e => rfl
  | ok i =>
      have hrange := (mpGetIndex_iff hlen).mp hi
      have hlt := hrange.1.position_lt
      rw [bind_ok_left, bind_ok_left, if_neg (by omega)]

/-- With elements, the index is looked for alike. -/
theorem loadPlace_eq (haddr : self.addr ≠ 0) (hlen : 2 * memLen self < a.word)
    (hpos : 0 < memLen self) (k : Int) :
    loadPlace a self k = (mpGetIndex a self.type (memLen self) k >>= fun i =>
      match (typechar self).bind (loadKind a) with
      | none => .error (.raise .valueError "Not supported type to subscribe")
      | some kind => .ok (some (self.addr + i * kind.stride a self))) := by
  unfold loadPlace
  rw [if_neg haddr, getInt_natCast hlen, bind_ok_left]
  simp only
  rw [if_neg (by omega), Int.toNat_natCast]
  exact bind_checkedIndex hlen k _ _

theorem storePlace_eq (hro : self.readonly = false) (hlen : 2 * memLen self < a.word) (v : PyVal)
    (k : Int) :
    storePlace a self v k = (mpGetIndex a self.type (memLen self) k >>= fun i =>
      match self.typespec with
      | none => .error .fault
      | some t => .ok (self.addr + i * (storeKind a t.head?).stride a self v)) := by
  unfold storePlace
  rw [hro, if_neg (by decide), getInt_natCast hlen, bind_ok_left, Int.toNat_natCast]
  exact bind_checkedIndex hlen k _ _

/-- A length that does not fit an `mp_int_t` is refused by both. -/
theorem samePlace_of_overflow (haddr : self.addr ≠ 0) (hro : self.readonly = false)
    (hlen : a.word ≤ 2 * memLen self) (k : Int) (v : PyVal) : SamePlace a self k v := by
  have hint : getInt a (memLen self : Int) =
      .error (.raise .overflowError "overflow converting long int to machine word") :=
    if_neg (by omega)
  have hload : ∀ p, loadPlace a self k ≠ .ok p := by
    intro p hp
    rw [loadPlace, if_neg haddr, hint] at hp
    cases hp
  have hstore : ∀ q, storePlace a self v k ≠ .ok q := by
    intro q hq
    rw [storePlace, hro, if_neg (by decide), hint] at hq
    cases hq
  constructor
  · constructor
    · rintro ⟨p, hp⟩
      exact absurd hp (hload p)
    · rintro ⟨q, hq⟩
      exact absurd hq (hstore q)
  · intro p q hp
    exact absurd hp (hload p)

theorem storePlace_empty (hro : self.readonly = false) (hlen : memLen self = 0) (v : PyVal)
    (k : Int) (q : Nat) : storePlace a self v k ≠ .ok q := by
  have hword := a.word_pos
  intro hq
  rw [storePlace_eq hro (by omega)] at hq
  rcases bind_ok.mp hq with ⟨i, hi, -⟩
  have hrange := ((mpGetIndex_iff (by omega)).mp hi).1
  have hlower := hrange.lower
  have hupper := hrange.upper
  omega

/-- Without elements, index zero is loaded. -/
theorem loadPlace_empty (haddr : self.addr ≠ 0) (hlen : memLen self = 0) :
    loadPlace a self 0 =
      match (typechar self).bind (loadKind a) with
      | none => .error (.raise .valueError "Not supported type to subscribe")
      | some kind => .ok (some (self.addr + 0 * kind.stride a self)) := by
  have hword := a.word_large
  have hwrap : wrapIndex a (a.word - 1) 0 = 0 := if_neg (by omega)
  have hzero : getInt a (0 : Int) = .ok 0 := if_pos (by omega)
  unfold loadPlace
  rw [if_neg haddr, hlen, Nat.cast_zero, hzero, bind_ok_left]
  simp only [if_true, mpGetIndex, hzero, bind_ok_left, hwrap]
  rw [if_neg (by omega), bind_ok_left, Int.toNat_zero, if_neg (by omega)]

theorem typechar_eq {t : Str} (ht : self.typespec = some t) : typechar self = t.head? := by
  rw [typechar, ht]

theorem position_of_lt {m : Mem} {k : Nat} : position m k = k := by
  unfold position
  rw [if_neg (by omega), Int.toNat_natCast]

/-- Both take the indexes in range, and find the same elements. -/
theorem samePlace_of_known (haddr : self.addr ≠ 0) (hro : self.readonly = false)
    (hlen : 2 * memLen self < a.word) (hpos : 0 < memLen self) {t : Str}
    (ht : self.typespec = some t) {kind : LoadKind} (hkind : t.head?.bind (loadKind a) = some kind)
    (hstride : memLen self = 1 ∨ kind.stride a self = self.typesize) (k : Int) (v : PyVal) :
    SamePlace a self k v := by
  have hchar : (typechar self).bind (loadKind a) = some kind := by rw [typechar_eq ht, hkind]
  have hload := loadPlace_eq haddr hlen hpos k
  have hstore := storePlace_eq hro hlen v k
  rw [hchar] at hload
  rw [ht] at hstore
  cases hi : mpGetIndex a self.type (memLen self) k with
  | error e =>
      -- an index that is refused is refused on both sides
      rw [hi] at hload hstore
      constructor
      · constructor
        · rintro ⟨p, hp⟩
          rw [hload] at hp
          cases hp
        · rintro ⟨q, hq⟩
          rw [hstore] at hq
          cases hq
      · intro p q hp
        rw [hload] at hp
        cases hp
  | ok i =>
      rw [hi, bind_ok_left] at hload hstore
      -- both come to the element's place if they count it in the same steps
      rcases (mpGetIndex_iff hlen).mp hi with ⟨hrange, rfl⟩
      have hlt := hrange.position_lt
      constructor
      · exact ⟨fun _ => ⟨_, hstore⟩, fun _ => ⟨_, hload⟩⟩
      · intro p q hp hq
        rw [hload] at hp
        rw [hstore] at hq
        cases hp
        cases hq
        rcases hstride with hone | hstride
        · -- the only element is at the address of the object
          have hzero : position self k = 0 := by omega
          rw [hzero]
          simp only [Nat.zero_mul]
          exact ⟨_, rfl, rfl, rfl⟩
        · rcases Option.bind_eq_some_iff.mp hkind with ⟨c, hc, hkind⟩
          rw [hc, stride_eq hkind hstride v, hstride]
          exact ⟨_, rfl, rfl, rfl⟩

/-- With a type that is not known and no element, nothing is taken. -/
theorem samePlace_of_unknown (haddr : self.addr ≠ 0) (hro : self.readonly = false)
    (hlen : memLen self = 0) (hkind : (typechar self).bind (loadKind a) = none) (k : Int)
    (v : PyVal) : SamePlace a self k v := by
  have hload : ∀ p, loadPlace a self k ≠ .ok p := by
    intro p hp
    rw [loadPlace, if_neg haddr] at hp
    rcases bind_ok.mp hp with ⟨len, -, hp⟩
    generalize (if len = 0 then a.word - 1 else len.toNat) = l at hp
    rcases bind_ok.mp hp with ⟨i, -, hp⟩
    rw [hkind] at hp
    split at hp <;> cases hp
  constructor
  · constructor
    · rintro ⟨p, hp⟩
      exact absurd hp (hload p)
    · rintro ⟨q, hq⟩
      exact absurd hq (storePlace_empty hro hlen v k q)
  · intro p q hp
    exact absurd hp (hload p)

/-- Objects that agree have a known type, elements, and those at their places. -/
theorem uniform_of_samePlace (hfits : Fits a self) (haddr : self.addr ≠ 0)
    (hro : self.readonly = false) (hlen : 2 * memLen self < a.word)
    (h : ∀ k v, SamePlace a self k v) : Uniform a self := by
  rcases Nat.eq_zero_or_pos (memLen self) with hempty | hpos
  · -- index zero is loaded unless the type is not known
    have hload := loadPlace_empty (a := a) haddr hempty
    have hnone : (typechar self).bind (loadKind a) = none := by
      cases hkind : (typechar self).bind (loadKind a) with
      | none => rfl
      | some kind =>
          rw [hkind] at hload
          rcases (h 0 (.int 0)).accepts.mp ⟨_, hload⟩ with ⟨q, hq⟩
          exact absurd hq (storePlace_empty hro hempty _ _ q)
    cases ht : self.typespec with
    | none =>
        rw [typechar, ht] at hnone
        cases hnone
    | some t =>
        rw [typechar_eq ht] at hnone
        refine ⟨t, ht, ?_⟩
        rw [hnone]
        exact hempty
  · have hindex : ∀ i : Nat, i < memLen self → mpGetIndex a self.type (memLen self) i = .ok i :=
      fun i hi => (mpGetIndex_iff hlen).mpr ⟨⟨hlen, by omega, by omega⟩, position_of_lt.symm⟩
    have hload : ∀ i : Nat, i < memLen self → loadPlace a self i = _ := fun i hi => by
      rw [loadPlace_eq haddr hlen hpos, hindex i hi, bind_ok_left]
    have hstore : ∀ i : Nat, i < memLen self → storePlace a self (.int 0) i = _ := fun i hi => by
      rw [storePlace_eq hro hlen, hindex i hi, bind_ok_left]
    cases ht : self.typespec with
    | none =>
        have hload0 := hload 0 hpos
        have hstore0 := hstore 0 hpos
        rw [typechar, ht] at hload0
        rw [ht] at hstore0
        rcases (h _ (.int 0)).accepts.mp ⟨_, hload0⟩ with ⟨q, hq⟩
        rw [hstore0] at hq
        cases hq
    | some t =>
        refine ⟨t, ht, ?_⟩
        have hload0 := hload 0 hpos
        have hstore0 := hstore 0 hpos
        rw [ht] at hstore0
        rw [typechar_eq ht] at hload0
        rcases (h _ (.int 0)).accepts.mpr ⟨_, hstore0⟩ with ⟨p, hp⟩
        cases hkind : t.head?.bind (loadKind a) with
        | none =>
            rw [hload0, hkind] at hp
            cases hp
        | some kind =>
            refine ⟨hpos, ?_⟩
            by_contra hnot
            rw [not_or] at hnot
            -- the second element is loaded from another place
            have hlt : 1 < memLen self := by omega
            have hload1 := hload 1 hlt
            have hstore1 := hstore 1 hlt
            rw [typechar_eq ht, hkind] at hload1
            rw [ht] at hstore1
            rcases (h _ (.int 0)).place _ _ hload1 hstore1 with ⟨p', hp', hmod, -⟩
            cases hp'
            rw [position_of_lt, Nat.one_mul, Nat.one_mul] at hmod
            have hstride := Nat.ModEq.add_left_cancel' _ hmod
            unfold Nat.ModEq at hstride
            rcases Option.bind_eq_some_iff.mp hkind with ⟨c, -, hc⟩
            rw [Nat.mod_eq_of_lt (stride_lt hfits.typesize_lt kind hc),
              Nat.mod_eq_of_lt hfits.typesize_lt] at hstride
            exact hnot.2 hstride

/-- Loads and stores agree on all indexes of a writable object that is no bit field exactly when
it is not at address zero, and is of a known type and of a length other than zero with elements
`typesize` apart; or is of a type that is not known, and empty; or is too long for an
`mp_int_t`. -/
theorem places_agree_iff (a : Arch) (self : Mem) (hfits : Fits a self)
    (hro : self.readonly = false) :
    (∀ k v, SamePlace a self k v) ↔
      self.addr ≠ 0 ∧ (a.word ≤ 2 * memLen self ∨ Uniform a self) := by
  constructor
  · intro h
    have haddr : self.addr ≠ 0 := by
      intro h0
      have hload : loadPlace a self 0 = .ok none := if_pos h0
      rcases (h 0 (.int 0)).accepts.mp ⟨_, hload⟩ with ⟨q, hq⟩
      rcases (h 0 (.int 0)).place _ q hload hq with ⟨p', hp', -⟩
      cases hp'
    refine ⟨haddr, ?_⟩
    rcases Nat.lt_or_ge (2 * memLen self) a.word with hlen | hlen
    · exact .inr (uniform_of_samePlace hfits haddr hro hlen h)
    · exact .inl hlen
  · rintro ⟨haddr, hlen | ⟨t, ht, hkind⟩⟩ k v
    · exact samePlace_of_overflow haddr hro hlen k v
    · cases hk : t.head?.bind (loadKind a) with
      | none =>
          rw [hk] at hkind
          exact samePlace_of_unknown haddr hro hkind (by rw [typechar_eq ht, hk]) k v
      | some kind =>
          rw [hk] at hkind
          rcases Nat.lt_or_ge (2 * memLen self) a.word with hlen | hlen
          · exact samePlace_of_known haddr hro hlen hkind.1 ht hk hkind.2 k v
          · exact samePlace_of_overflow haddr hro hlen k v

end Agreement

/-- Four bytes are loaded and stored alike. -/
theorem places_agree_iff_fourBytes :
    memLen fourBytes = 4 ∧ ∀ k v, SamePlace .x64 fourBytes k v := by
  have hlen : memLen fourBytes = 4 := by decide
  have hfits : Fits .x64 fourBytes := (Obtained.make efiMemMakeNew_fourBytes).fits
  refine ⟨hlen, (places_agree_iff .x64 fourBytes hfits rfl).mpr
    ⟨by decide, .inr ⟨['B'], rfl, ?_⟩⟩⟩
  show 0 < memLen fourBytes ∧ (memLen fourBytes = 1 ∨ (1 : Nat) = 1)
  rw [hlen]
  exact ⟨by decide, .inr rfl⟩

/-! ## Objects of no length -/

/-- An object of `machine` for all memory: neither an address nor a length. -/
def machineMem (c : Char) (typesize : Nat) : Mem :=
  { blank 0 false with typespec := some [c], typesize := typesize }

/-- `machine_mem8_obj`. -/
def machineMem8 : Mem := machineMem 'B' 1

/-- `machine_mem16_obj`. -/
def machineMem16 : Mem := machineMem 'H' 2

/-- `machine_mem32_obj`. -/
def machineMem32 : Mem := machineMem 'I' 4

/-- `machine_mem64_obj`. -/
def machineMem64 : Mem := machineMem 'Q' 8

/-- They load `False` at any index, and nothing can be stored to them. -/
theorem machineMem_never (a : Arch) (c : Char) (typesize : Nat) (v : PyVal) (k : Int) :
    loadPlace a (machineMem c typesize) k = .ok none ∧
      ∀ q, storePlace a (machineMem c typesize) v k ≠ .ok q := by
  refine ⟨if_pos rfl, ?_⟩
  intro q
  refine storePlace_empty rfl ?_ v k q
  unfold memLen
  split
  · exact Nat.zero_div _
  · rfl

/-- Memory at an address without a length: its bytes are loaded and not stored. -/
theorem memory_without_length :
    ∃ m, efiMemMakeNew .x64 noNames 0 (.len 0) 4096 false false id = .ok m ∧
      getValue .x64 noNames 0 ⟨fun _ _ _ _ => 0, id⟩ (fun _ => 7) m (.int 5) = .ok (.int 7) ∧
      storeAt .x64 baseLib (fun _ => 7) m (.int 5) (.int 0) =
        .fail (.raise .indexError "mem index out of range") ∧
      ¬ SamePlace .x64 m 5 (.int 0) := by
  have hnew : efiMemNewN .x64 noNames 0 4096 0 (some ['B']) false false = .ok (Mem.sized .x64
      { blank 4096 false with typespec := some ['B'], typesize := typeSize .x64 'B' } 0 false) :=
    efiMemNewN_letter (by decide)
  have hints := intArray_sized (show 'B' ∈ intLetters by decide) .x64 4096 0 false false
  have hlen : memLen (Mem.sized .x64 { blank 4096 false with
      typespec := some ['B'], typesize := typeSize .x64 'B' } 0 false) = 0 := by decide
  have hload : getValue .x64 noNames 0 ⟨fun _ _ _ _ => 0, id⟩ (fun _ => 7) (Mem.sized .x64
      { blank 4096 false with typespec := some ['B'], typesize := typeSize .x64 'B' } 0 false)
      (.int (5 : Nat)) = .ok (.int 7) := by
    rw [hints.getValue_empty (by decide) hlen (by decide)]
    rfl
  have hstore : storeAt .x64 baseLib (fun _ => 7) (Mem.sized .x64
      { blank 4096 false with typespec := some ['B'], typesize := typeSize .x64 'B' } 0 false)
      (.int (5 : Nat)) (.int 0) = .fail (.raise .indexError "mem index out of range") :=
    hints.storeAt_out rfl (by rw [hlen]; decide) (by rw [hlen]; decide) (by decide) (.int 0)
  refine ⟨_, ?_, hload, hstore, ?_⟩
  · unfold efiMemMakeNew
    rw [makeNewObj, hnew]
    rfl
  · intro h
    have hplace := getValue_eq_loadFrom (a := .x64) (show (Mem.sized .x64 { blank 4096 false with
      typespec := some ['B'], typesize := typeSize .x64 'B' } 0 false).bitnum = 0 from rfl) noNames 0
      ⟨fun _ _ _ _ => 0, id⟩ (fun _ => 7) (5 : Nat)
    rw [hload] at hplace
    rcases bind_ok.mp hplace.symm with ⟨p, hp, -⟩
    rcases h.accepts.mp ⟨p, hp⟩ with ⟨q, hq⟩
    exact storePlace_empty rfl hlen _ _ q hq

end EfiLvgl.Uefi
