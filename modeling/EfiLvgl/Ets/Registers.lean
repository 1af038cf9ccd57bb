import EfiLvgl.Ets.Msr

/-!
# EfiLvgl.Ets.Registers — registers read and written back

`mod_ets_get_reg` and `mod_ets_set_reg` of `modets.c`, on processors of 64 bits. What is read is
an unsigned integer, or a limit and a base if the limit is not 0; what is written goes through
`mp_obj_get_int`, which takes signed words only.

`round_trip_iff`: a register can be written back exactly if its content, or its base, has the top
bit clear, and its limit is not 0.
-/

namespace EfiLvgl.Ets

open EfiLvgl.Uefi

/-! ## `mod_ets_get_reg` and `mod_ets_set_reg` -/

/-- What the registers hold. -/
structure Registers where
  register : Reg → UInt64
  selector : Reg → UInt16
  limit : Reg → UInt16
  base : Reg → UInt64

/-- The `switch` of `mod_ets_get_reg`: `Value` and `Limit`. -/
def Registers.read (hw : Registers) : Reg → Option (UInt64 × UInt16)
  | .gdtr => some (hw.base .gdtr, hw.limit .gdtr)
  | .idtr => some (hw.base .idtr, hw.limit .idtr)
  | .cs => some ((hw.selector .cs).toUInt64, 0)
  | .ds => some ((hw.selector .ds).toUInt64, 0)
  | .es => some ((hw.selector .es).toUInt64, 0)
  | .fs => some ((hw.selector .fs).toUInt64, 0)
  | .gs => some ((hw.selector .gs).toUInt64, 0)
  | .ss => some ((hw.selector .ss).toUInt64, 0)
  | .tr => some ((hw.selector .tr).toUInt64, 0)
  | .ldtr => some ((hw.selector .ldtr).toUInt64, 0)
  | .other _ => none
  | reg => some (hw.register reg, 0)

def Reg.name : Reg → String
  | .eflags => "eflags"
  | .cr0 => "cr0"
  | .cr2 => "cr2"
  | .cr3 => "cr3"
  | .cr4 => "cr4"
  | .dr n => "dr" ++ toString n.val
  | .cs => "cs"
  | .ds => "ds"
  | .es => "es"
  | .fs => "fs"
  | .gs => "gs"
  | .ss => "ss"
  | .tr => "tr"
  | .gdtr => "gdtr"
  | .idtr => "idtr"
  | .ldtr => "ldtr"
  | .mm n => "mm" ++ toString n.val
  | .tsc => "tsc"
  | .pmc => "pmc"
  | .other name => name

def invalidRegister (reg : Reg) : EtsExc :=
  .exception ("Invalid or unimplemented register: " ++ reg.name)

/-- `mod_ets_get_reg`. -/
def modEtsGetReg (hw : Registers) (reg : Reg) : EtsM PyValue :=
  match hw.read reg with
  | none => throw (invalidRegister reg)
  | some (value, limit) =>
      if 0 < limit then pure (.tuple [.int limit.toNat, .int value.toNat])
      else pure (.int value.toNat)

/-- `Value`, `Desc.Limit` and `Desc.Base`. -/
structure NewValue where
  value : UInt64
  limit : UInt16
  base : UInt64

/-- The two items of a tuple or a list; fewer are caught by an assertion. -/
def descriptorItems (a : Arch) : List PyValue → EtsM NewValue
  | limit :: base :: _ => do
      let limit ← ofExcept (mpObjGetInt a limit)
      let base ← ofExcept (mpObjGetInt a base)
      return ⟨0xFFFFFFFFFFFFFFFF, UInt16.ofInt limit, UInt64.ofInt base⟩
  | _ => throw .fault

/-- The start of `mod_ets_set_reg`. -/
def newValue (a : Arch) : PyValue → EtsM NewValue
  | .int i => do
      let value ← ofExcept (mpObjGetInt a (.int i))
      return ⟨UInt64.ofInt value, 0xFFFF, 0xFFFFFFFFFFFFFFFF⟩
  | .tuple items => descriptorItems a items
  | .list items => descriptorItems a items
  | _ => throw (.exception "Unsupported value type")

/-- Its `switch`. -/
def registerWrite (v : NewValue) : Reg → Option RegisterWrite
  | .cr0 => some (.register .cr0 v.value)
  | .cr2 => some (.register .cr2 v.value)
  | .cr3 => some (.register .cr3 v.value)
  | .cr4 => some (.register .cr4 v.value)
  | .dr n => some (.register (.dr n) v.value)
  | .tr => some (.selector .tr v.value.toUInt16)
  | .gdtr => some (.descriptor .gdtr v.limit v.base)
  | .idtr => some (.descriptor .idtr v.limit v.base)
  | .ldtr => some (.selector .ldtr v.value.toUInt16)
  | .mm n => some (.register (.mm n) v.value)
  | _ => none

/-- `mod_ets_set_reg`. -/
def modEtsSetReg (a : Arch) (reg : Reg) (value : PyValue) : EtsM Unit := do
  let v ← newValue a value
  match registerWrite v reg with
  | none => throw (invalidRegister reg)
  | some write => modify fun s => { s with writes := s.writes ++ [write] }

/-! ## Reading and writing back -/

/-- The write of what the register holds, of those that both functions know. -/
def Registers.content (hw : Registers) : Reg → Option RegisterWrite
  | .tr => some (.selector .tr (hw.selector .tr))
  | .ldtr => some (.selector .ldtr (hw.selector .ldtr))
  | .gdtr => some (.descriptor .gdtr (hw.limit .gdtr) (hw.base .gdtr))
  | .idtr => some (.descriptor .idtr (hw.limit .idtr) (hw.base .idtr))
  | reg => registerWrite ⟨hw.register reg, 0, 0⟩ reg

/-- A program returns, and has issued this write and no other. -/
structure Issues (program : EtsM Unit) (s : EtsState) (write : RegisterWrite) : Prop where
  wp : Wp program s (fun _ s' => s'.writes = s.writes ++ [write]) fun _ _ => False

/-- What is read is written back. -/
def RegRoundTrips (hw : Registers) (s : EtsState) (reg : Reg) (write : RegisterWrite) : Prop :=
  Issues (do let value ← modEtsGetReg hw reg; modEtsSetReg .x64 reg value) s write

/-- The content can be passed back: a descriptor as a pair, and no number of 64 bits with its top
bit set. -/
def Representable (hw : Registers) : Reg → Prop
  | .gdtr => 0 < hw.limit .gdtr ∧ hw.base .gdtr < 0x8000000000000000
  | .idtr => 0 < hw.limit .idtr ∧ hw.base .idtr < 0x8000000000000000
  | .tr => True
  | .ldtr => True
  | reg => hw.register reg < 0x8000000000000000

/-- A number that is not negative passes as long as its top bit is clear. -/
theorem convertible_natCast {n : Nat} : Convertible .x64 (.int n) ↔ n < 2 ^ 63 := by
  have hword : (Arch.x64.word : Int) = 2 ^ 64 := rfl
  show -(Arch.x64.word : Int) < 2 * (n : Int) ∧ 2 * (n : Int) < Arch.x64.word ↔ n < 2 ^ 63
  omega

theorem ofInt_toNat_uint64 (v : UInt64) : UInt64.ofInt (v.toNat : Int) = v := by
  have hlt := v.toNat_lt
  apply UInt64.toNat_inj.mp
  rw [UInt64.ofInt, UInt64.toNat_ofNat']
  omega

theorem ofInt_toNat_uint16 (v : UInt16) : UInt16.ofInt (v.toNat : Int) = v := by
  have hlt := v.toNat_lt
  apply UInt16.toNat_inj.mp
  rw [UInt16.ofInt, UInt16.toNat_ofNat']
  omega

/-- Both functions know the register. -/
theorem content_isSome (hw : Registers) (v : NewValue) (reg : Reg) :
    (hw.content reg).isSome ↔ (hw.read reg).isSome ∧ (registerWrite v reg).isSome := by
  cases reg <;> simp [Registers.content, Registers.read, registerWrite]

theorem mpObjGetInt_error {a : Arch} {value : PyValue} (h : ¬ Convertible a value) :
    ∃ e, mpObjGetInt a value = .error e := by
  cases hvalue : mpObjGetInt a value with
  | ok z => exact absurd (mpObjGetInt_ok hvalue) h
  | error e => exact ⟨e, rfl⟩

section NewValue

variable {a : Arch} {i j : Int}

theorem newValue_int (h : Convertible a (.int i)) :
    newValue a (.int i) = pure ⟨UInt64.ofInt i, 0xFFFF, 0xFFFFFFFFFFFFFFFF⟩ := by
  rw [newValue, mpObjGetInt_int h]
  rfl

theorem newValue_int_raises (h : ¬ Convertible a (.int i)) :
    ∃ e, newValue a (.int i) = throw e := by
  rcases mpObjGetInt_error h with ⟨e, he⟩
  refine ⟨e, ?_⟩
  rw [newValue, he]
  rfl

theorem newValue_pair (hi : Convertible a (.int i)) (hj : Convertible a (.int j)) :
    newValue a (.tuple [.int i, .int j]) =
      pure ⟨0xFFFFFFFFFFFFFFFF, UInt16.ofInt i, UInt64.ofInt j⟩ := by
  rw [newValue, descriptorItems, mpObjGetInt_int hi, mpObjGetInt_int hj]
  rfl

theorem newValue_pair_raises (hi : Convertible a (.int i)) (hj : ¬ Convertible a (.int j)) :
    ∃ e, newValue a (.tuple [.int i, .int j]) = throw e := by
  rcases mpObjGetInt_error hj with ⟨e, he⟩
  refine ⟨e, ?_⟩
  rw [newValue, descriptorItems, mpObjGetInt_int hi, he]
  rfl

end NewValue

section Issues

variable {a : Arch} {s : EtsState} {reg : Reg} {value : PyValue} {v : NewValue}
  {write write' : RegisterWrite}

theorem setReg_issues (hvalue : newValue a value = pure v)
    (hwrite : registerWrite v reg = some write) : Issues (modEtsSetReg a reg value) s write := by
  constructor
  rw [modEtsSetReg, hvalue, pure_bind, hwrite]
  exact rfl

theorem setReg_raises {e : EtsExc} (hvalue : newValue a value = throw e) :
    ¬ Issues (modEtsSetReg a reg value) s write := by
  rintro ⟨h⟩
  rw [modEtsSetReg, hvalue] at h
  exact h

/-- One write only. -/
theorem Issues.unique {program : EtsM Unit} (h : Issues program s write)
    (h' : Issues program s write') : write = write' := by
  rcases h with ⟨h⟩
  rcases h' with ⟨h'⟩
  unfold Wp at h h'
  cases hprogram : program s with
  | ok u t =>
      rw [hprogram] at h h'
      have hwrites : s.writes ++ [write] = s.writes ++ [write'] :=
        h.symm.trans h'
      exact List.singleton_injective (List.append_cancel_left hwrites)
  | error e t =>
      rw [hprogram] at h
      exact h.elim

end Issues

section RoundTrip

variable {s : EtsState} {hw : Registers} {reg : Reg} {write : RegisterWrite}

/-- The top bit decides. -/
theorem lt_top_iff (v : UInt64) : v < 0x8000000000000000 ↔ Convertible .x64 (.int v.toNat) := by
  rw [convertible_natCast]
  exact UInt64.lt_iff_toNat_lt

/-- A register that is read as an integer. -/
theorem word_round_trip_iff {v : UInt64} (hread : hw.read reg = some (v, 0))
    (hwrite : registerWrite ⟨v, 0xFFFF, 0xFFFFFFFFFFFFFFFF⟩ reg = some write) :
    RegRoundTrips hw s reg write ↔ v < 0x8000000000000000 := by
  have hget : modEtsGetReg hw reg = pure (.int v.toNat) := by
    rw [modEtsGetReg, hread]
    rfl
  rw [RegRoundTrips, hget, pure_bind, lt_top_iff]
  constructor
  · intro h
    by_contra hfit
    rcases newValue_int_raises hfit with ⟨e, he⟩
    exact setReg_raises he h
  · intro hfit
    apply setReg_issues (newValue_int hfit)
    rw [ofInt_toNat_uint64]
    exact hwrite

/-- A register that is read as a limit and a base, unless the limit is 0. -/
theorem descriptor_round_trip_iff {limit : UInt16} {base : UInt64}
    (hread : hw.read reg = some (base, limit))
    (hwrite : ∀ v, registerWrite v reg = some (.descriptor reg v.limit v.base)) :
    RegRoundTrips hw s reg (.descriptor reg limit base) ↔
      0 < limit ∧ base < 0x8000000000000000 := by
  by_cases hlimit : 0 < limit
  · have hget : modEtsGetReg hw reg = pure (.tuple [.int limit.toNat, .int base.toNat]) := by
      rw [modEtsGetReg, hread]
      simp only [if_pos hlimit]
    have hsmall : Convertible .x64 (.int limit.toNat) :=
      convertible_natCast.mpr (limit.toNat_lt.trans (by decide))
    rw [RegRoundTrips, hget, pure_bind, lt_top_iff]
    constructor
    · intro h
      by_contra hfit
      rcases newValue_pair_raises hsmall fun hbase => hfit ⟨hlimit, hbase⟩ with ⟨e, he⟩
      exact setReg_raises he h
    · rintro ⟨-, hbase⟩
      apply setReg_issues (newValue_pair hsmall hbase)
      rw [hwrite, ofInt_toNat_uint16, ofInt_toNat_uint64]
  · -- the base alone goes nowhere, and the limit that is written is not 0
    have hget : modEtsGetReg hw reg = pure (.int base.toNat) := by
      rw [modEtsGetReg, hread]
      simp only [if_neg hlimit]
    rw [RegRoundTrips, hget, pure_bind]
    apply iff_of_false _ fun h => hlimit h.1
    intro h
    by_cases hfit : Convertible .x64 (.int base.toNat)
    · have hother := h.unique (setReg_issues (newValue_int hfit) (hwrite _))
      rw [RegisterWrite.descriptor.injEq] at hother
      rw [hother.2.1] at hlimit
      have hpos : (0 : UInt16) < 0xFFFF := by decide
      exact hlimit hpos
    · rcases newValue_int_raises hfit with ⟨e, he⟩
      exact setReg_raises he h

/-- A selector has 16 bits. -/
theorem selector_round_trip {v : UInt16} (hread : hw.read reg = some (v.toUInt64, 0))
    (hwrite : ∀ v, registerWrite v reg = some (.selector reg v.value.toUInt16)) :
    RegRoundTrips hw s reg (.selector reg v) := by
  have hsame : v.toUInt64.toUInt16 = v := by simp
  have hlt : v.toUInt64 < 0x8000000000000000 := by
    rw [UInt64.lt_iff_toNat_lt]
    exact v.toNat_lt.trans (by decide)
  refine (word_round_trip_iff hread ?_).mpr hlt
  rw [hwrite, hsame]

/-- The registers that are read as integers of 64 bits and written as such. -/
theorem register_round_trip_iff {v : UInt64} (hread : hw.read reg = some (v, 0))
    (hwrite : ∀ v, registerWrite v reg = some (.register reg v.value))
    (hcontent : hw.content reg = some write) (hv : hw.content reg = some (.register reg v)) :
    RegRoundTrips hw s reg write ↔ v < 0x8000000000000000 := by
  rw [hv] at hcontent
  cases hcontent
  exact word_round_trip_iff hread (hwrite _)

/-- A register that both functions know is written back exactly if it is representable. -/
theorem reg_round_trip_iff (hw : Registers) (s : EtsState) {reg : Reg} {write : RegisterWrite}
    (hcontent : hw.content reg = some write) :
    RegRoundTrips hw s reg write ↔ Representable hw reg := by
  cases reg with
  | cr0 => exact register_round_trip_iff rfl (fun _ => rfl) hcontent rfl
  | cr2 => exact register_round_trip_iff rfl (fun _ => rfl) hcontent rfl
  | cr3 => exact register_round_trip_iff rfl (fun _ => rfl) hcontent rfl
  | cr4 => exact register_round_trip_iff rfl (fun _ => rfl) hcontent rfl
  | dr n => exact register_round_trip_iff rfl (fun _ => rfl) hcontent rfl
  | mm n => exact register_round_trip_iff rfl (fun _ => rfl) hcontent rfl
  | tr =>
      cases hcontent
      exact iff_of_true (selector_round_trip rfl fun _ => rfl) trivial
  | ldtr =>
      cases hcontent
      exact iff_of_true (selector_round_trip rfl fun _ => rfl) trivial
  | gdtr =>
      cases hcontent
      exact descriptor_round_trip_iff rfl fun _ => rfl
  | idtr =>
      cases hcontent
      exact descriptor_round_trip_iff rfl fun _ => rfl
  | _ => cases hcontent

end RoundTrip

/-! ## Model specific registers -/

section Msr

variable {a : Arch} {p : Platform} {s : EtsState} {msr : UInt32}

/-- A register that is there, and a processor protocol with no handler registered. -/
structure MsrReady (p : Platform) (s : EtsState) (msr : UInt32) : Prop where
  located : Located p s
  unregistered : s.gpHandler = false
  reads : p.readFaults msr = false
  writes : ∀ value, p.writeFaults msr value = false

/-- What `rdmsr` returns is passed to `wrmsr`. -/
def MsrRoundTrips (a : Arch) (p : Platform) (s : EtsState) (msr : UInt32) : Prop :=
  Issues (do
      let value ← modEtsRdmsr a p (.int msr.toNat)
      modEtsWrmsr a p (.int msr.toNat) value) s
    (.msr msr (p.msr msr))

theorem convertible_uint32 (msr : UInt32) : Convertible .x64 (.int msr.toNat) :=
  convertible_natCast.mpr (msr.toNat_lt.trans (by decide))

theorem ofInt_toNat_uint32 (v : UInt32) : UInt32.ofInt (v.toNat : Int) = v := by
  have hlt := v.toNat_lt
  apply UInt32.toNat_inj.mp
  rw [UInt32.ofInt, UInt32.toNat_ofNat']
  omega

theorem wp_ofExcept_int {i : Int} {Q : Int → EtsState → Prop} {E : EtsExc → EtsState → Prop}
    (h : Convertible a (.int i)) (hQ : Q i s) :
    Wp (ofExcept (mpObjGetInt a (.int i))) s Q E := by
  rw [mpObjGetInt_int h]
  exact hQ

/-- Reading leaves the processor as it was, but for `mCpu`. -/
theorem wp_rdmsr {Q : PyValue → EtsState → Prop} {E : EtsExc → EtsState → Prop}
    (h : MsrReady p s msr) (hmsr : Convertible a (.int msr.toNat))
    (hQ : Q (.int (p.msr msr).toNat) { s with mCpu := true, gpHandler := false }) :
    Wp (modEtsRdmsr a p (.int msr.toNat)) s Q E := by
  refine wp_withMsrHandler h.unregistered h.located (wp_bind ?_)
  refine wp_ofExcept_int hmsr (wp_bind ?_)
  rw [ofInt_toNat_uint32]
  refine wp_asmReadMsr64 rfl rfl ?_ ?_
  · intro _
    exact ⟨rfl, rfl, hQ⟩
  · intro hfault
    rw [h.reads] at hfault
    cases hfault

/-- Writing, up to the conversion of the value. -/
theorem wp_wrmsr {value : Int} {Q : Unit → EtsState → Prop}
    {E : EtsExc → EtsState → Prop} (hs : s.gpHandler = false) (hlocated : Located p s)
    (hmsr : Convertible a (.int msr.toNat))
    (hvalue : Wp (do
        let value ← ofExcept (mpObjGetInt a (.int value))
        asmWriteMsr64 p msr (UInt64.ofInt value)) (guarded s)
      (fun v t => t.mCpu = true ∧ t.gpHandler = true ∧ Q v { t with gpHandler := false }) E) :
    Wp (modEtsWrmsr a p (.int msr.toNat) (.int value)) s Q E := by
  refine wp_withMsrHandler hs hlocated (wp_bind ?_)
  refine wp_ofExcept_int hmsr ?_
  rw [ofInt_toNat_uint32]
  exact hvalue

/-- A register is written back exactly if its content can be converted. -/
theorem msrRoundTrips_iff (h : MsrReady p s msr) (hmsr : Convertible a (.int msr.toNat)) :
    MsrRoundTrips a p s msr ↔ Convertible a (.int (p.msr msr).toNat) := by
  constructor
  · rintro ⟨htrip⟩
    by_contra hfit
    -- the conversion of the value raises
    rcases mpObjGetInt_error hfit with ⟨e, he⟩
    refine htrip.not_raises (E := fun _ _ => True) (wp_bind (wp_rdmsr h hmsr ?_))
    refine wp_wrmsr rfl (.inl rfl) hmsr (wp_bind ?_)
    rw [he]
    exact trivial
  · intro hfit
    constructor
    refine wp_bind (wp_rdmsr h hmsr ?_)
    refine wp_wrmsr rfl (.inl rfl) hmsr (wp_bind (wp_ofExcept_int hfit ?_))
    rw [ofInt_toNat_uint64]
    refine wp_asmWriteMsr64 rfl rfl ?_ ?_
    · intro _
      exact ⟨rfl, rfl, rfl⟩
    · intro hfault
      rw [h.writes] at hfault
      cases hfault

end Msr

/-! ## All registers -/

/-- What is read of a register is written back exactly if the top bit of the number is clear, and
a descriptor's limit is not 0. -/
theorem round_trip_iff (hw : Registers) (p : Platform) (s : EtsState) :
    (∀ reg write, hw.content reg = some write →
      (RegRoundTrips hw s reg write ↔ Representable hw reg)) ∧
    ∀ msr, MsrReady p s msr →
      (MsrRoundTrips .x64 p s msr ↔ p.msr msr < 0x8000000000000000) := by
  constructor
  · intro reg write hcontent
    exact reg_round_trip_iff hw s hcontent
  · intro msr h
    rw [lt_top_iff]
    exact msrRoundTrips_iff h (convertible_uint32 msr)

/-- A page table at the end of the address space, and interrupts that are not set up. -/
def topRegisters : Registers where
  register _ := 0x8000000000000000
  selector _ := 0x38
  limit reg := if reg = .gdtr then 0x47 else 0
  base _ := 0x1000

/-- A selector and a descriptor are written back. -/
theorem selector_and_descriptor_written_back :
    RegRoundTrips topRegisters etsInit .tr (.selector .tr 0x38) ∧
      RegRoundTrips topRegisters etsInit .gdtr (.descriptor .gdtr 0x47 0x1000) ∧
      MsrRoundTrips .x64 quietPlatform etsInit 0x10 := by
  rcases round_trip_iff topRegisters quietPlatform etsInit with ⟨hreg, hmsr⟩
  refine ⟨(hreg .tr _ rfl).mpr trivial, (hreg .gdtr _ rfl).mpr ?_, (hmsr 0x10 ?_).mpr ?_⟩
  · exact ⟨by decide, by decide⟩
  · exact ⟨.inr rfl, rfl, rfl, fun _ => rfl⟩
  · decide

/-- A register with its top bit set is not, and neither is a descriptor without a limit. -/
theorem top_bit_not_written_back :
    ¬ RegRoundTrips topRegisters etsInit (.dr 0) (.register (.dr 0) 0x8000000000000000) ∧
      ¬ RegRoundTrips topRegisters etsInit .idtr (.descriptor .idtr 0 0x1000) := by
  constructor
  · intro h
    exact absurd ((word_round_trip_iff rfl rfl).mp h) (by decide)
  · intro h
    exact absurd ((descriptor_round_trip_iff rfl fun _ => rfl).mp h).1 (by decide)

end EfiLvgl.Ets
