import EfiLvgl.Lib.Search
import EfiLvgl.Smbios.Strings
import EfiLvgl.Uefi.Division
import EfiLvgl.Uefi.Store

/-!
# EfiLvgl.Smbios.Record — the string fields of a record

A string field holds the number of one of the strings behind the record, counted from one.
`SmbiosRecord` shows the string in place of the number, and changes the string when one is
assigned. Fields with one number share their string, so that an assignment shows in all of them
and in no other (`assignment_shared`).
-/

namespace EfiLvgl.Smbios

open EfiLvgl.Search EfiLvgl.Uefi
open EfiLvgl.Variables (arrayObj)

/-! ## Records -/

/-- What cuts a script short here. -/
inductive Exc where
  | stop (s : Stop)
  | keyError (key : Str)
deriving DecidableEq, Repr

/-- The result of a script. -/
abbrev Py := Except Exc

/-- What a `mem` object raises. -/
def lift {α : Type} : Res α → Py α
  | .ok x => .ok x
  | .error s => .error (.stop s)

/-- `RECORDS[self]`, `TYPES[self]` and `STRINGS[self]`. -/
structure SmbiosRecord where
  data : Mem
  typeDef : List (Str × Str)
  strings : List PyObj

/-- What `_GetEntryType` returns. -/
inductive EntryType where
  | text (defStr : Str)
  | dict (entries : List (Str × SpecObj))
deriving DecidableEq, Repr

/-- What an attribute of a record is: a value, or an `SmbiosEntry` that shares the strings. -/
inductive Attr where
  | value (obj : PyObj)
  | entry (obj : PyObj) (entries : List (Str × SpecObj))

/-- `"SMBIOS_TABLE_STRING"`. -/
def tableString : Str := "SMBIOS_TABLE_STRING".toList

/-- The name of a value's type. -/
def typeName : PyObj → String
  | .false => "bool"
  | .none => "NoneType"
  | .int _ => "int"
  | .str _ => "str"
  | .mem m => m.type.name

/-- The integer that an object is; `False` is one as well. -/
def asInt : PyObj → Option Int
  | .int i => some i
  | .false => some 0
  | _ => none

/-- The left operand of an operator, next to an integer. -/
def operand (op : String) (obj : PyObj) : Py Int :=
  match asInt obj with
  | some i => .ok i
  | none => .error (.stop (.raise .typeError
      ("unsupported types for " ++ op ++ ": '" ++ typeName obj ++ "', 'int'")))

section Script

variable (a : Arch) (env : Setting) (eval : Str → Res TypeDesc)

/-- `_GetEntryType`. What `index` or `eval` raise is passed over. -/
def getEntryType (typeDef : List (Str × Str)) (entryName : Str) : Py EntryType :=
  match typeDef.lookup entryName with
  | none => .error (.keyError entryName)
  | some defStr =>
      match strStr defStr ['O', '#'] with
      | none => .ok (.text defStr)
      | some rest =>
          match eval (rest.drop 2) with
          | .ok (.dict entries) => .ok (.dict entries)
          | _ => .ok (.text (rest.drop 2))

/-- `getattr(Data, Name)`. -/
def dataAttr (self : SmbiosRecord) (name : Str) : Py PyObj :=
  lift (memAttr a env.names env.depth env.lib env.memory self.data name)

/-- `__getattr__`. -/
def SmbiosRecord.getattr (self : SmbiosRecord) (name : Str) : Py Attr := do
  let value ← dataAttr a env self name
  let type ← getEntryType eval self.typeDef name
  match type with
  | .dict entries => .ok (.entry value entries)
  | .text defStr =>
      if defStr = tableString then do
        let i ← operand "__gt__" value
        if 0 < i ∧ i ≤ self.strings.length then
          .ok (.value (self.strings.getD (i.toNat - 1) value))
        else .ok (.value value)
      else .ok (.value value)

/-- The place in a list of so many items that an index stands for. -/
def listIndex (len : Nat) (i : Int) : Py Nat := do
  let i ← lift (getInt a i)
  let i := if i < 0 then i + len else i
  if i < 0 ∨ (len : Int) ≤ i then .error (.stop (.raise .indexError "list index out of range"))
  else .ok i.toNat

/-- `setattr(Data, Name, Value)`. -/
def dataStore (lib : BaseLib) (self : SmbiosRecord) (name : Str) (value : PyVal) : Store :=
  match self.data.lookup name with
  | none => .fail (.raise .attributeError "Non-existing attribute")
  | some field => setValue a lib env.memory field .none value

/-- `__setattr__`: the record after it, and what is written to memory. -/
def SmbiosRecord.setattr (lib : BaseLib) (self : SmbiosRecord) (name : Str) (value : PyVal) :
    Py (SmbiosRecord × Store) :=
  match value with
  | .str false text _ => do
      let obj ← dataAttr a env self name
      let index ← operand "__sub__" obj
      let k ← listIndex a self.strings.length (index - 1)
      .ok ({ self with strings := self.strings.set k (.str text) }, .done)
  | value => .ok (self, dataStore a env lib self name value)

end Script

/-! ## Numbers of fields -/

/-- A field of type `SMBIOS_TABLE_STRING`, which is a byte. -/
structure StringField (eval : Str → Res TypeDesc) (record : SmbiosRecord) (name : Str) : Prop where
  type : getEntryType eval record.typeDef name = .ok (.text tableString)
  byte : ∀ field, record.data.lookup name = some field → typechar field = some 'B'

/-- The field holds this number. -/
def HasNumber (a : Arch) (env : Setting) (self : SmbiosRecord) (name : Str) (i : Int) : Prop :=
  ∃ obj, dataAttr a env self name = .ok obj ∧ asInt obj = some i

section Fields

variable {a : Arch} {env : Setting} {eval : Str → Res TypeDesc} {self : SmbiosRecord} {name : Str}

theorem HasNumber.unique {i j : Int} (hi : HasNumber a env self name i)
    (hj : HasNumber a env self name j) : i = j := by
  rcases hi with ⟨obj, hobj, hi⟩
  rcases hj with ⟨obj', hobj', hj⟩
  rw [hobj] at hobj'
  cases hobj'
  rw [hi] at hj
  exact Option.some.inj hj

/-- A byte has no sign. -/
theorem getValue_byte_nonneg {ns : Namespace} {n : Nat} {lib : LoadLib} {memory : Nat → UInt8}
    {field : Mem} (hbyte : typechar field = some 'B') {obj : PyObj}
    (h : getValue a ns n lib memory field .none = .ok obj) {i : Int} (hi : asInt obj = some i) :
    0 ≤ i := by
  unfold getValue at h
  split at h
  · -- `False` for the address zero
    cases h
    cases hi
    exact Int.le_refl 0
  · split at h
    · cases h
      cases hi
      unfold getBits
      dsimp only
      split
      · exact Int.natCast_nonneg _
      · split
        · exact Int.natCast_nonneg _
        · split <;> exact Int.natCast_nonneg _
    · rcases bind_ok.mp h with ⟨len, -, h⟩
      dsimp only at h
      generalize (if len = 0 then a.word - 1 else len.toNat) = l at h
      rcases bind_ok.mp h with ⟨k, -, h⟩
      split at h
      · cases h
      · rw [loadElement, hbyte] at h
        cases h
        cases hi
        exact Int.natCast_nonneg _

theorem StringField.number_nonneg (hfield : StringField eval self name) {i : Int}
    (hi : HasNumber a env self name i) : 0 ≤ i := by
  rcases hi with ⟨obj, hobj, hi⟩
  unfold dataAttr memAttr at hobj
  cases hlookup : self.data.lookup name with
  | none =>
      rw [hlookup] at hobj
      cases hobj
  | some field =>
      rw [hlookup] at hobj
      dsimp only at hobj
      cases hret : returnsObject field with
      | error e =>
          rw [hret] at hobj
          cases hobj
      | ok isObject =>
          rw [hret, bind_ok_left] at hobj
          cases isObject with
          | true =>
              cases hobj
              cases hi
          | false =>
              rw [if_neg Bool.false_ne_true] at hobj
              cases hvalue : getValue a env.names env.depth env.lib env.memory field .none with
              | error e =>
                  rw [hvalue] at hobj
                  cases hobj
              | ok obj' =>
                  rw [hvalue] at hobj
                  cases hobj
                  exact getValue_byte_nonneg (hfield.byte field hlookup) hvalue hi

end Fields

/-- Two fields hold one number. -/
def SameNumber (a : Arch) (env : Setting) (self : SmbiosRecord) (name name' : Str) : Prop :=
  ∃ i, HasNumber a env self name i ∧ HasNumber a env self name' i

/-! ## What an assignment changes -/

section Assignment

variable {a : Arch} {env : Setting} {eval : Str → Res TypeDesc} {self : SmbiosRecord} {name : Str}

theorem py_bind_ok {α β : Type} {x : Py α} {f : α → Py β} {b : β} :
    x >>= f = .ok b ↔ ∃ v, x = .ok v ∧ f v = .ok b := by
  cases x with
  | error e => simp [bind, Except.bind]
  | ok v => simp [bind, Except.bind]

@[simp] theorem py_bind_ok_left {α β : Type} (v : α) (f : α → Py β) :
    (Except.ok v : Py α) >>= f = f v := rfl

/-- `__getattr__` of a string field. -/
theorem getattr_string (hfield : StringField eval self name) :
    self.getattr a env eval name = (dataAttr a env self name >>= fun value =>
      operand "__gt__" value >>= fun i =>
        if 0 < i ∧ i ≤ self.strings.length then
          .ok (.value (self.strings.getD (i.toNat - 1) value))
        else .ok (.value value)) := by
  unfold SmbiosRecord.getattr
  rw [hfield.type]
  cases dataAttr a env self name with
  | error e => rfl
  | ok value => simp only [py_bind_ok_left, if_true]

/-- The string that a number stands for, or the number. -/
theorem getattr_number (hfield : StringField eval self name) {obj : PyObj}
    (hobj : dataAttr a env self name = .ok obj) {i : Int} (hi : asInt obj = some i) :
    self.getattr a env eval name =
      .ok (.value (if 0 < i ∧ i ≤ self.strings.length then self.strings.getD (i.toNat - 1) obj
        else obj)) := by
  have hop : operand "__gt__" obj = .ok i := by rw [operand, hi]
  rw [getattr_string hfield, hobj, py_bind_ok_left, hop, py_bind_ok_left]
  split <;> rfl

/-- The strings are not part of the data. -/
theorem dataAttr_strings (strings : List PyObj) :
    dataAttr a env { self with strings := strings } name = dataAttr a env self name := rfl

theorem StringField.strings (hfield : StringField eval self name) (strings : List PyObj) :
    StringField eval { self with strings := strings } name :=
  ⟨hfield.type, hfield.byte⟩

/-- Where there is no number, nothing is read from the strings. -/
theorem getattr_no_number (hfield : StringField eval self name)
    (hno : ∀ i, ¬ HasNumber a env self name i) (strings : List PyObj) :
    SmbiosRecord.getattr a env eval { self with strings := strings } name =
      self.getattr a env eval name := by
  rw [getattr_string hfield, getattr_string (hfield.strings strings), dataAttr_strings]
  cases hobj : dataAttr a env self name with
  | error e => rfl
  | ok obj =>
      rw [py_bind_ok_left, py_bind_ok_left]
      unfold operand
      cases hi : asInt obj with
      | some i => exact absurd ⟨obj, hobj, hi⟩ (hno i)
      | none => rfl

/-- A field with another number does not see the string that is changed. -/
theorem getattr_set_other (hfield : StringField eval self name) {k : Nat}
    (hother : ∀ i, HasNumber a env self name i → i ≠ k + 1) (str : PyObj) :
    SmbiosRecord.getattr a env eval { self with strings := self.strings.set k str } name =
      self.getattr a env eval name := by
  by_cases hno : ∀ i, ¬ HasNumber a env self name i
  · exact getattr_no_number hfield hno _
  · rcases not_forall_not.mp hno with ⟨i, obj, hobj, hi⟩
    have hne : i ≠ k + 1 := hother i ⟨obj, hobj, hi⟩
    rw [getattr_number hfield hobj hi,
      getattr_number (hfield.strings _) ((dataAttr_strings _).trans hobj) hi, List.length_set]
    by_cases hin : 0 < i ∧ i ≤ self.strings.length
    · have hindex : k ≠ i.toNat - 1 := by omega
      rw [if_pos hin, if_pos hin, List.getD_eq_getElem?_getD, List.getD_eq_getElem?_getD,
        List.getElem?_set_ne hindex]
    · rw [if_neg hin, if_neg hin]

/-- A field with the number of the string sees it. -/
theorem getattr_set_same (hfield : StringField eval self name) {k : Nat}
    (hnumber : HasNumber a env self name (k + 1)) (hk : k < self.strings.length) (str : PyObj) :
    SmbiosRecord.getattr a env eval { self with strings := self.strings.set k str } name =
      .ok (.value str) := by
  rcases hnumber with ⟨obj, hobj, hi⟩
  have hindex : ((k : Int) + 1).toNat - 1 = k := by omega
  rw [getattr_number (hfield.strings _) ((dataAttr_strings _).trans hobj) hi, List.length_set,
    if_pos (by omega), hindex, List.getD_eq_getElem?_getD, List.getElem?_set_self hk]
  rfl

theorem listIndex_ok {len : Nat} {i : Int} {k : Nat} (h : listIndex a len i = .ok k) :
    (k : Int) = (if i < 0 then i + len else i) ∧ k < len := by
  rcases py_bind_ok.mp h with ⟨j, hj, hk⟩
  have hji : j = i := by
    unfold getInt at hj
    split at hj
    · cases hj
      rfl
    · cases hj
  subst hji
  dsimp only at hk
  generalize (if j < 0 then j + (len : Int) else j) = place at hk ⊢
  split at hk
  · cases hk
  · cases hk
    omega

/-- What assigning a string does when it does not raise. -/
theorem setattr_str {lib : BaseLib} {text : List UInt8} {items : PyItems} {self' : SmbiosRecord}
    {store : Store}
    (h : self.setattr a env lib name (.str false text items) = .ok (self', store)) :
    ∃ i k, HasNumber a env self name i ∧ listIndex a self.strings.length (i - 1) = .ok k ∧
      self' = { self with strings := self.strings.set k (.str text) } ∧ store = .done := by
  rcases py_bind_ok.mp h with ⟨obj, hobj, h⟩
  rcases py_bind_ok.mp h with ⟨i, hi, h⟩
  rcases py_bind_ok.mp h with ⟨k, hk, h⟩
  cases h
  refine ⟨i, k, ⟨obj, hobj, ?_⟩, hk, rfl, rfl⟩
  unfold operand at hi
  cases hint : asInt obj with
  | none =>
      rw [hint] at hi
      cases hi
  | some j =>
      rw [hint] at hi
      cases hi
      rfl

/-- Unless it raises, the assignment is read back from the field and from all others with its
number, and the rest is read as before. -/
def AssignmentShared (a : Arch) (env : Setting) (eval : Str → Res TypeDesc) (lib : BaseLib)
    (self : SmbiosRecord) (name : Str) (text : List UInt8) : Prop :=
  ∀ items self' store, self.setattr a env lib name (.str false text items) = .ok (self', store) →
    store = .done ∧
    self'.getattr a env eval name = .ok (.value (.str text)) ∧
    ∀ other, StringField eval self other →
      (SameNumber a env self name other →
        self'.getattr a env eval other = .ok (.value (.str text))) ∧
      (¬ SameNumber a env self name other →
        self'.getattr a env eval other = self.getattr a env eval other)

/-- The strings are shared by number, and zero is none. -/
theorem assignment_shared (lib : BaseLib) (text : List UInt8) (hfield : StringField eval self name)
    (hzero : ¬ HasNumber a env self name 0) :
    AssignmentShared a env eval lib self name text := by
  intro items self' store h
  rcases setattr_str h with ⟨i, k, hi, hk, rfl, rfl⟩
  have hne : i ≠ 0 := by
    rintro rfl
    exact hzero hi
  have hnonneg := hfield.number_nonneg hi
  have hindex := listIndex_ok hk
  rw [if_neg (by omega)] at hindex
  obtain rfl : i = k + 1 := by omega
  refine ⟨rfl, getattr_set_same hfield hi hindex.2 _, ?_⟩
  intro other hother
  constructor
  · rintro ⟨j, hj, hj'⟩
    obtain rfl := hi.unique hj
    exact getattr_set_same hother hj' hindex.2 _
  · intro hdiff
    refine getattr_set_other hother ?_ _
    rintro j hj rfl
    exact hdiff ⟨_, hi, hj⟩

/-- With the number zero the last string is changed, and the number is read as before. -/
theorem assignment_zero {lib : BaseLib} {text : List UInt8} {items : PyItems}
    (hfield : StringField eval self name) (hzero : HasNumber a env self name 0)
    {self' : SmbiosRecord} {store : Store}
    (h : self.setattr a env lib name (.str false text items) = .ok (self', store)) :
    self'.strings = self.strings.set (self.strings.length - 1) (.str text) ∧
      self'.getattr a env eval name = self.getattr a env eval name := by
  rcases setattr_str h with ⟨i, k, hi, hk, rfl, -⟩
  obtain rfl := hi.unique hzero
  have hindex := listIndex_ok hk
  rw [if_pos (by omega)] at hindex
  have hlast : k = self.strings.length - 1 := by omega
  refine ⟨by rw [hlast], getattr_set_other hfield ?_ _⟩
  intro j hj
  rw [hj.unique hzero]
  omega

end Assignment

/-! ## Two fields of one number -/

/-- The assignment shows in this field only. -/
def AssignmentLocal (a : Arch) (env : Setting) (eval : Str → Res TypeDesc) (lib : BaseLib)
    (self : SmbiosRecord) (name : Str) (text : List UInt8) : Prop :=
  ∀ items self' store, self.setattr a env lib name (.str false text items) = .ok (self', store) →
    self'.getattr a env eval name = .ok (.value (.str text)) ∧
    ∀ other, other ≠ name → StringField eval self other →
      self'.getattr a env eval other = self.getattr a env eval other

/-- Memory in which every byte is one. -/
def onesSetting : Setting where
  names := noNames
  depth := 0
  lib := ⟨fun _ _ _ _ => 0, id⟩
  alloc := id
  memory _ := 1

/-- `SMBIOS_TABLE_STRING` is the text `B`. -/
def evalByte : Str → Res TypeDesc := fun _ => .ok (.str ['B'])

def noLib : BaseLib := ⟨fun _ _ _ _ _ => 0, fun _ _ => 0, fun _ => none⟩

def manufacturer : Str := "Manufacturer".toList

def productName : Str := "ProductName".toList

/-- The first two fields of `SMBIOS_TABLE_TYPE1`, both with the number one. -/
def sharedRecord : SmbiosRecord where
  data := { blank 8 false with
    fields := .dict [(manufacturer, arrayObj .x64 'B' 8 1), (productName, arrayObj .x64 'B' 9 1)] }
  typeDef := [(manufacturer, ['O', '#'] ++ tableString), (productName, ['O', '#'] ++ tableString)]
  strings := [.str [0x41]]

theorem stringField_manufacturer : StringField evalByte sharedRecord manufacturer := by
  refine ⟨rfl, ?_⟩
  intro field h
  cases h
  rfl

theorem stringField_productName : StringField evalByte sharedRecord productName := by
  refine ⟨rfl, ?_⟩
  intro field h
  cases h
  rfl

theorem hasNumber_manufacturer : HasNumber .x64 onesSetting sharedRecord manufacturer 1 :=
  ⟨.int 1, rfl, rfl⟩

theorem assignment_shared_manufacturer :
    AssignmentShared .x64 onesSetting evalByte noLib sharedRecord manufacturer [0x42] := by
  refine assignment_shared noLib [0x42] stringField_manufacturer ?_
  intro hzero
  have heq := hzero.unique hasNumber_manufacturer
  omega

/-- The second field changes with the first one. -/
theorem shared_string_changes_both :
    StringField evalByte sharedRecord manufacturer ∧ StringField evalByte sharedRecord productName ∧
      ¬ AssignmentLocal .x64 onesSetting evalByte noLib sharedRecord manufacturer [0x42] := by
  refine ⟨stringField_manufacturer, stringField_productName, ?_⟩
  intro hlocal
  have hset : sharedRecord.setattr .x64 onesSetting noLib manufacturer (.str false [0x42] .stop) =
      .ok ({ sharedRecord with strings := [.str [0x42]] }, .done) := rfl
  have hother := (hlocal _ _ _ hset).2 productName (by decide) stringField_productName
  have hafter : SmbiosRecord.getattr .x64 onesSetting evalByte
      { sharedRecord with strings := [.str [0x42]] } productName = .ok (.value (.str [0x42])) := rfl
  have hbefore : sharedRecord.getattr .x64 onesSetting evalByte productName =
      .ok (.value (.str [0x41])) := rfl
  rw [hafter, hbefore] at hother
  injection hother with hattr
  injection hattr with hobj
  injection hobj with htext
  exact absurd htext (by decide)

end EfiLvgl.Smbios
