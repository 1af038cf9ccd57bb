import EfiLvgl.Lib.History
import EfiLvgl.Lib.Run
import EfiLvgl.Variables.Services

/-!
# EfiLvgl.Variables.Storage — variables as a map

`VariableStorage` of `uefi.py` makes a map of the variables of the firmware. Each of its
operations makes objects for the name and the GUID of a key, calls a service with them and gives
their memory back. What scripts assign, delete and look up agrees with a map
(`storage_is_map`); only the pool can get in the way, when it has no memory left.
-/

namespace EfiLvgl.Variables

open EfiLvgl.Text (utf8Charlen_unicodeToUtf8)
open EfiLvgl.Uefi

/-! ## Keys and values -/

/-- The bytes of the heap of scripts, `mHeapSize`: each of their objects is smaller. -/
def heapSize : Nat := 2 ^ 26

/-- A text of a script. -/
def pyStr (s : List UInt16) : PyVal := .str false (unicodeToUtf8 s) .stop

/-- A `bytes` object of a script. -/
def pyBytes (v : List UInt8) : PyVal := .str true v (byteItems v)

/-- A key of a script. The GUID is not used when the storage has one. -/
structure PyKey where
  name : List UInt16
  guid : List UInt8

/-- A storage, for one vendor or, without a GUID, for all. -/
structure VariableStorage where
  vendorGuid : List UInt8

namespace VariableStorage

/-- `VariableStorage(VendorGuid)`. -/
def new (vendorGuid : List UInt8) : VariableStorage := ⟨upper vendorGuid⟩

/-- The text of the GUID for a key. -/
def guidText (self : VariableStorage) (key : PyKey) : List UInt8 :=
  if self.vendorGuid = [] then key.guid else self.vendorGuid

/-! ## Operations -/

section Operations

variable {a : Arch} (env : Env a) (self : VariableStorage)

/-- The objects for the name and the GUID, with which every operation starts. -/
def nameAndGuid (key : PyKey) : Op a (Mem × Mem) := do
  let name ← memNew env (formatNat (key.name.length + 1) ++ ['u'])
  memStore env name .none (pyStr key.name)
  let guid ← guidNew env (self.guidText key)
  pure (name, guid)

/-- What is looked for in the text of an exception. -/
def bufferTooSmall : Str :=
  ['B', 'U', 'F', 'F', 'E', 'R', '_', 'T', 'O', 'O', '_', 'S', 'M', 'A', 'L', 'L']

/-- Whether a call is answered as by a variable that there is no room for; `returned` is for a
call that raises nothing. -/
def tooSmall (call : Op a Unit) (returned : Bool) : Op a Bool :=
  tryCatch (do
    call
    pure returned) fun
    | .efistatus msg => pure (decide (bufferTooSmall <:+: msg))
    | e => throw e

/-- The size object, and whether the service finds no room for the data: the first call of
`__getitem__` and that of `__contains__`. -/
def probe (name guid : Mem) (returned : Bool) : Op a (Mem × Bool) := do
  let size ← memNew env ['N']
  memStore env size .none (.int 0)
  let found ← tooSmall (rtGetVariable env name guid size (nullObj env)) returned
  pure (size, found)

/-- `__getitem__`. -/
def getItem (key : PyKey) : Op a (Option (List UInt8)) := do
  let (name, guid) ← nameAndGuid env self key
  let (size, found) ← probe env name guid true
  if found then
    match ← memLoad env size .none with
    | .int n => do
        let data ← memNew env (formatNat n.toNat ++ ['B'])
        rtGetVariable env name guid size data
        let value ← bytearrayOf data
        memFree name
        memFree size
        memFree data
        memFree guid
        pure (some value)
    | _ => throw (.stop (.raise .typeError "can't convert to int"))
  else pure none

/-- `__setitem__`. -/
def setItem (key : PyKey) (value : List UInt8) : Op a Unit := do
  let (name, guid) ← nameAndGuid env self key
  let data ← memNew env (formatNat value.length ++ ['B'])
  memStore env data (.slice .none .none .none) (pyBytes value)
  rtSetVariable env name guid 7 value.length data
  memFree name
  memFree guid
  memFree data

/-- `__delitem__`. -/
def delItem (key : PyKey) : Op a Unit := do
  let (name, guid) ← nameAndGuid env self key
  rtSetVariable env name guid 0 0 (nullObj env)
  memFree name
  memFree guid

/-- `__contains__`. -/
def contains (key : PyKey) : Op a Bool := do
  let (name, guid) ← nameAndGuid env self key
  let (size, result) ← probe env name guid false
  memFree name
  memFree guid
  memFree size
  pure result

end Operations

/-! ## Keys that name variables -/

section Keys

variable {a : Arch}

/-- A key that names a variable: the name is not empty and has no NUL, and the text of the GUID
is one. -/
structure Key (env : Env a) (S : VariableStorage) extends PyKey where
  var : VarKey
  var_name : var.name = name
  name_ne_nil : name ≠ []
  name_ne_zero : ∀ u ∈ name, u ≠ 0
  name_lt : (unicodeToUtf8 name).length < heapSize
  guid_len : (S.guidText toPyKey).length = 36
  guid_eq : (env.base.asciiStrToGuid (S.guidText toPyKey)).map Subtype.val = some var.guid

/-- A value that a variable can have. -/
structure Value where
  bytes : List UInt8
  ne_nil : bytes ≠ []
  lt : bytes.length < heapSize

/-- Sizes of what scripts have do not come close to a word. -/
theorem heapSize_le (a : Arch) : 16 * heapSize ≤ a.word := by cases a <;> decide

/-- A text has no more characters than bytes. -/
theorem length_le_unicodeToUtf8 (s : List UInt16) : s.length ≤ (unicodeToUtf8 s).length := by
  rw [← utf8Charlen_unicodeToUtf8 s]
  exact List.countP_le_length

end Keys

/-! ## What the operations do -/

section Specs

variable {a : Arch} {env : Env a} {S : VariableStorage} {w : World a}
  {l : List (Block × List UInt8)}

/-- The objects for a key are new, and hold it. -/
theorem wp_nameAndGuid {Q : Mem × Mem → World a → Prop} {E : Exc → World a → Prop}
    (hown : w.heap.Owns l) (k : Key env S)
    (hok : ∀ pn pg heap, heap.Owns (keyBlocks a pn (k.name.length + 1) pg k.var [] ++ l) →
      Q (arrayObj a 'u' pn (k.name.length + 1), efiGuidNew pg) { w with heap := heap })
    (hno : ∀ heap, heap.Owns l → E .noMemory { w with heap := heap }) :
    Wp (nameAndGuid env S k.toPyKey) w Q E := by
  have hheap := heapSize_le a
  have hlen := length_le_unicodeToUtf8 k.name
  have hlt := k.name_lt
  rcases Option.map_eq_some_iff.mp k.guid_eq with ⟨g, hg, hval⟩
  have htwo : typeSize a 'u' = 2 := rfl
  unfold nameAndGuid
  refine wp_bind (wp_memNew (isDigit_formatNat _) rfl
    (repeatCount_formatNat (Nat.succ_pos _) (by omega) rfl) (by rw [htwo]; omega)
    (by rw [htwo]; omega) ?_ fun _ => hno _ hown)
  intro pn heap hname
  refine wp_bind (wp_memStore_text hname.self (Nat.lt_succ_self _) ?_)
  intro heap' htext
  rw [show 2 * (k.name.length + 1) - (k.name.length + 1) * 2 = 0 by omega,
    List.replicate_zero] at htext
  have hown' := hown.take (hname.fill htext)
  refine wp_bind (wp_guidNew k.guid_len hg ?_ fun _ => hno _ ?_)
  · intro pg heap'' hguid
    have hown'' := hown'.take hguid
    refine wp_pure (hok pn pg heap'' ?_)
    rw [hval] at hown''
    unfold keyBlocks
    rw [k.var_name]
    exact hown''
  · exact hown'.tail

/-- A buffer for bytes. -/
theorem wp_memNew_bytes {n : Nat} {Q : Mem → World a → Prop} {E : Exc → World a → Prop}
    (hpos : 0 < n) (hlt : n < a.word)
    (hok : ∀ p heap, w.heap.Takes heap (arrayBlock a 'B' p n) (List.replicate (1 * n) 0) →
      Q (arrayObj a 'B' p n) { w with heap := heap })
    (hno : E .noMemory w) : Wp (memNew env (formatNat n ++ ['B'])) w Q E := by
  have hone : typeSize a 'B' = 1 := rfl
  exact wp_memNew (isDigit_formatNat n) rfl (repeatCount_formatNat hpos hlt rfl)
    (by rw [hone]; omega) (by rw [hone]; omega) hok fun _ => hno

/-- Between the operations: `null` points to zeros, and variables have data. -/
structure Ok (env : Env a) (w : World a) : Prop where
  null : w.heap.Holds (nullBlock env) (wordBytes a 0)
  data : ∀ v ∈ w.vars, 0 < v.data.length ∧ v.data.length < a.word

/-- What the operations own besides their objects. -/
def nullPart (env : Env a) : List (Block × List UInt8) := [(nullBlock env, wordBytes a 0)]

/-- The variables are as said, and `null` still points to zeros. -/
def Leaves (env : Env a) (vars : List Variable) (w : World a) : Prop :=
  w.vars = vars ∧ w.heap.Holds (nullBlock env) (wordBytes a 0)

/-- The pool has no memory left, and the variables are as said. -/
def Refused (env : Env a) (vars : List Variable) (e : Exc) (w : World a) : Prop :=
  e = .noMemory ∧ Leaves env vars w

theorem Ok.owns (hw : Ok env w) : w.heap.Owns (nullPart env) :=
  ⟨List.forall_mem_singleton.mpr hw.null, List.nodup_singleton _⟩

theorem leaves_of_owns {heap : Heap a.word} (h : heap.Owns (l ++ nullPart env)) :
    Leaves env w.vars { w with heap := heap } :=
  ⟨rfl, h.holds (nullBlock env, wordBytes a 0)
    (List.mem_append_right _ (List.mem_singleton_self _))⟩

/-- An object is given back that is not `null`. -/
theorem wp_free {vars : List Variable} {m : Mem} {Q : Unit → World a → Prop}
    {E : Exc → World a → Prop} (h : Leaves env vars w) (haddr : 0 < m.addr)
    (hne : m.addr ≠ env.nullPtr) (hok : ∀ w', Leaves env vars w' → Q () w') :
    Wp (memFree m) w Q E :=
  wp_memFree haddr (hok _ ⟨h.1, h.2.free (Ne.symm hne)⟩)

/-- The address of a block is neither zero nor that of `null`. -/
theorem place_of_owns {heap : Heap a.word} {b : Block} (h : heap.Owns (l ++ nullPart env))
    (hb : b ∈ l.map Prod.fst) : 0 < b.addr ∧ b.addr ≠ env.nullPtr := by
  rcases List.mem_map.mp hb with ⟨p, hp, rfl⟩
  exact ⟨(heap.proper _ (h.holds p (List.mem_append_left _ hp)).1).addr_pos, h.addr_ne hp⟩

/-- An exception is looked at only for its text. -/
theorem wp_tooSmall {call : Op a Unit} {returned : Bool} {Q : Bool → World a → Prop}
    {E : Exc → World a → Prop}
    (h : Wp call w (fun _ w' => Q returned w') fun e w' =>
      ∃ st, (st = .bufferTooSmall ∨ st = .notFound) ∧ e = .efistatus (statusMsg st) ∧
        Q (decide (st = .bufferTooSmall)) w') : Wp (tooSmall call returned) w Q E := by
  refine wp_tryCatch (wp_bind (h.mono (fun _ _ hq => wp_pure hq) ?_))
  rintro e w' ⟨st, hst, rfl, hq⟩
  rcases hst with rfl | rfl
  · exact hq
  · exact hq

/-- The first call finds out whether there is a variable, and how long its data is. -/
theorem wp_probe {pn n pg : Nat} {k : VarKey} {returned : Bool} {Q : Mem × Bool → World a → Prop}
    {E : Exc → World a → Prop} (hdata : ∀ v ∈ w.vars, 0 < v.data.length)
    (hown : w.heap.Owns (keyBlocks a pn n pg k [] ++ nullPart env)) (hs : ∀ u ∈ k.name, u ≠ 0)
    (hmissing : ∀ ps heap, lookup w.vars k = none →
      heap.Owns ((arrayBlock a 'N' ps 1, wordBytes a 0) ::
        (keyBlocks a pn n pg k [] ++ nullPart env)) →
      Q (arrayObj a 'N' ps 1, false) { w with heap := heap })
    (hfound : ∀ ps v heap, lookup w.vars k = some v →
      heap.Owns ((arrayBlock a 'N' ps 1, wordBytes a v.data.length) ::
        (keyBlocks a pn n pg k [] ++ nullPart env)) →
      Q (arrayObj a 'N' ps 1, true) { w with heap := heap })
    (hno : E .noMemory w) :
    Wp (probe env (arrayObj a 'u' pn n) (efiGuidNew pg) returned) w Q E := by
  unfold probe
  refine wp_bind (wp_memNew_word ?_ fun _ => hno)
  intro ps heap hsize
  refine wp_bind (wp_memStore_word hsize.self ?_)
  intro heap' hzero
  have hown' := hown.take (hsize.fill hzero)
  have hnull : heap'.Holds (nullBlock env) (wordBytes a 0) :=
    (leaves_of_owns (w := w) (l := (_, _) :: keyBlocks a pn n pg k []) hown').2
  refine wp_bind (wp_tooSmall (wp_rtGetVariable hnull (callArg_null hnull)
    (wp_getVariable_size hown' hs hdata ?_ ?_)))
  · intro hlookup
    exact wp_raise (.inr rfl) ⟨_, .inr rfl, rfl, wp_pure (hmissing ps heap' hlookup hown')⟩
  · intro v heap'' hlookup hown''
    exact wp_raise (.inl rfl) ⟨_, .inl rfl, rfl, wp_pure (hfound ps v heap'' hlookup hown'')⟩

/-- What is stored under a key. -/
def contents (vars : List Variable) (k : VarKey) : Option (List UInt8) :=
  (lookup vars k).map Variable.data

theorem Key.var_ne_zero (k : Key env S) : ∀ u ∈ k.var.name, u ≠ 0 := by
  rw [k.var_name]
  exact k.name_ne_zero

theorem Key.var_ne_nil (k : Key env S) : k.var.name ≠ [] := by
  rw [k.var_name]
  exact k.name_ne_nil

theorem wp_getItem (hw : Ok env w) (k : Key env S) :
    Wp (getItem env S k.toPyKey) w
      (fun v w' => v = contents w.vars k.var ∧ Leaves env w.vars w') (Refused env w.vars) := by
  unfold getItem
  refine wp_bind (wp_nameAndGuid hw.owns k ?_ fun _ h => ⟨rfl, leaves_of_owns (l := []) h⟩)
  intro pn pg heap hkey
  refine wp_bind (wp_probe (fun v hv => (hw.data v hv).1) hkey k.var_ne_zero ?_ ?_
    ⟨rfl, leaves_of_owns hkey⟩)
  · intro ps heap' hlookup hsize
    refine wp_pure ⟨?_, leaves_of_owns (l := (_, _) :: keyBlocks a pn _ pg k.var []) hsize⟩
    unfold contents
    rw [hlookup]
    rfl
  · intro ps v heap' hlookup hsize
    rcases hw.data v (List.mem_of_find?_eq_some hlookup) with ⟨hpos, hlt⟩
    -- the second call has room for the data, whose size the first one has found
    have hvalue : contents w.vars k.var = some v.data := by
      unfold contents
      rw [hlookup]
      rfl
    dsimp only
    rw [if_pos rfl]
    refine wp_bind (wp_memLoad_word hlt (hsize.holds _ List.mem_cons_self) ?_)
    dsimp only
    rw [Int.toNat_natCast]
    refine wp_bind (wp_memNew_bytes hpos hlt ?_
      ⟨rfl, leaves_of_owns (l := (_, _) :: keyBlocks a pn _ pg k.var []) hsize⟩)
    intro pd heap'' hdata
    have hown := hsize.take hdata
    have hnull : heap''.Holds (nullBlock env) (wordBytes a 0) :=
      (leaves_of_owns (w := w) (l := (_, _) :: (_, _) :: keyBlocks a pn _ pg k.var []) hown).2
    refine wp_bind (wp_rtGetVariable hnull rfl
      (wp_getVariable_data hown k.var_ne_zero hlt hlookup ?_))
    intro heap''' hown'
    -- all objects are given back, and none of them is `null`
    have hplace := fun b hb => place_of_owns (b := b)
      (l := (_, _) :: (_, _) :: keyBlocks a pn _ pg k.var []) hown' hb
    refine wp_raise_success (wp_bind (wp_bytearrayOf (hown'.holds _ List.mem_cons_self) ?_))
    have hname := hplace (arrayBlock a 'u' pn (k.name.length + 1)) (by simp [keyBlocks])
    have hsize := hplace (arrayBlock a 'N' ps 1) (by simp)
    have hdata := hplace (arrayBlock a 'B' pd v.data.length) List.mem_cons_self
    have hguid := hplace ⟨pg, 16⟩ (by simp [keyBlocks])
    refine wp_bind (wp_free (leaves_of_owns
      (l := (_, _) :: (_, _) :: keyBlocks a pn _ pg k.var []) hown') hname.1 hname.2 ?_)
    intro w₁ h₁
    refine wp_bind (wp_free h₁ hsize.1 hsize.2 ?_)
    intro w₂ h₂
    refine wp_bind (wp_free h₂ hdata.1 hdata.2 ?_)
    intro w₃ h₃
    refine wp_bind (wp_free h₃ hguid.1 hguid.2 ?_)
    intro w₄ h₄
    exact wp_pure ⟨hvalue.symm, h₄⟩

theorem wp_setItem (hw : Ok env w) (k : Key env S) (v : Value) :
    Wp (setItem env S k.toPyKey v.bytes) w
      (fun _ w' => Leaves env (insert w.vars k.var v.bytes) w') (Refused env w.vars) := by
  have hheap := heapSize_le a
  have hlt := v.lt
  have hlarge : heapSize ≤ 2 ^ 31 := by decide
  unfold setItem
  refine wp_bind (wp_nameAndGuid hw.owns k ?_ fun _ h => ⟨rfl, leaves_of_owns (l := []) h⟩)
  intro pn pg heap hkey
  dsimp only
  refine wp_bind (wp_memNew_bytes (List.length_pos_of_ne_nil v.ne_nil) (by omega) ?_
    ⟨rfl, leaves_of_owns hkey⟩)
  intro pd heap' hdata
  refine wp_bind (wp_memStore_bytes hdata.self (by omega) (by omega) ?_)
  intro heap'' hfill
  have hown := hkey.take (hdata.fill hfill)
  have hplace := fun b hb => place_of_owns (b := b) (l := (_, _) :: keyBlocks a pn _ pg k.var [])
    hown hb
  have hname := hplace (arrayBlock a 'u' pn (k.name.length + 1)) (by simp [keyBlocks])
  have hdata := hplace (arrayBlock a 'B' pd v.bytes.length) List.mem_cons_self
  have hguid := hplace ⟨pg, 16⟩ (by simp [keyBlocks])
  refine wp_bind (wp_rtSetVariable (by omega) (by omega) rfl
    (wp_setVariable hown k.var_ne_zero k.var_ne_nil (by decide) v.ne_nil (wp_raise_success ?_)))
  refine wp_bind (wp_free (leaves_of_owns (l := (_, _) :: keyBlocks a pn _ pg k.var [])
    (w := { w with vars := insert w.vars k.var v.bytes }) hown) hname.1 hname.2 ?_)
  intro w₁ h₁
  refine wp_bind (wp_free h₁ hguid.1 hguid.2 ?_)
  intro w₂ h₂
  exact wp_free h₂ hdata.1 hdata.2 fun _ h₃ => h₃

/-- A variable that is not there is not deleted: the service raises. -/
theorem wp_delItem (hw : Ok env w) (k : Key env S) :
    Wp (delItem env S k.toPyKey) w
      (fun _ w' => contents w.vars k.var ≠ none ∧ Leaves env (erase w.vars k.var) w')
      fun e w' => Refused env w.vars e w' ∨
        contents w.vars k.var = none ∧ e = .efistatus (statusMsg .notFound) ∧
          Leaves env w.vars w' := by
  have hword := a.word_large
  unfold delItem
  refine wp_bind (wp_nameAndGuid hw.owns k ?_
    fun _ h => .inl ⟨rfl, leaves_of_owns (l := []) h⟩)
  intro pn pg heap hown
  dsimp only
  have hname := place_of_owns (b := arrayBlock a 'u' pn (k.name.length + 1)) hown
    (by simp [keyBlocks])
  have hguid := place_of_owns (b := ⟨pg, 16⟩) hown (by simp [keyBlocks])
  have hnull : heap.Holds (nullBlock env) (wordBytes a 0) := (leaves_of_owns (w := w) hown).2
  refine wp_bind (wp_rtSetVariable a.word_pos a.word_pos (callArg_null hnull)
    (wp_setVariable_delete hown k.var_ne_zero k.var_ne_nil ?_ ?_))
  · intro hlookup
    refine wp_raise (.inr rfl) (.inr ⟨?_, rfl, leaves_of_owns hown⟩)
    exact Option.map_eq_none_iff.mpr hlookup
  · intro hlookup
    refine wp_raise_success (wp_bind (wp_free (leaves_of_owns
      (w := { w with vars := erase w.vars k.var }) hown) hname.1 hname.2 ?_))
    intro w₁ h₁
    refine wp_free h₁ hguid.1 hguid.2 fun _ h₂ => ⟨?_, h₂⟩
    exact fun hnone => hlookup (Option.map_eq_none_iff.mp hnone)

theorem wp_contains (hw : Ok env w) (k : Key env S) :
    Wp (contains env S k.toPyKey) w
      (fun r w' => r = (contents w.vars k.var).isSome ∧ Leaves env w.vars w')
      (Refused env w.vars) := by
  unfold contains
  refine wp_bind (wp_nameAndGuid hw.owns k ?_ fun _ h => ⟨rfl, leaves_of_owns (l := []) h⟩)
  intro pn pg heap hkey
  -- whatever the answer is, the objects are given back
  have hfrees : ∀ ps x heap' r, heap'.Owns ((arrayBlock a 'N' ps 1, wordBytes a x) ::
      (keyBlocks a pn (k.name.length + 1) pg k.var [] ++ nullPart env)) →
      r = (contents w.vars k.var).isSome →
      Wp (do
        memFree (arrayObj a 'u' pn (k.name.length + 1))
        memFree (efiGuidNew pg)
        memFree (arrayObj a 'N' ps 1)
        pure r) { w with heap := heap' }
        (fun r w' => r = (contents w.vars k.var).isSome ∧ Leaves env w.vars w')
        (Refused env w.vars) := by
    intro ps x heap' r hown hr
    have hplace := fun b hb => place_of_owns (b := b)
      (l := (_, _) :: keyBlocks a pn _ pg k.var []) hown hb
    have hname := hplace (arrayBlock a 'u' pn (k.name.length + 1)) (by simp [keyBlocks])
    have hsize := hplace (arrayBlock a 'N' ps 1) List.mem_cons_self
    have hguid := hplace ⟨pg, 16⟩ (by simp [keyBlocks])
    refine wp_bind (wp_free (leaves_of_owns (l := (_, _) :: keyBlocks a pn _ pg k.var []) hown)
      hname.1 hname.2 ?_)
    intro w₁ h₁
    refine wp_bind (wp_free h₁ hguid.1 hguid.2 ?_)
    intro w₂ h₂
    refine wp_bind (wp_free h₂ hsize.1 hsize.2 ?_)
    intro w₃ h₃
    exact wp_pure ⟨hr, h₃⟩
  refine wp_bind (wp_probe (fun v hv => (hw.data v hv).1) hkey k.var_ne_zero ?_ ?_
    ⟨rfl, leaves_of_owns hkey⟩)
  · intro ps heap' hlookup hown
    refine hfrees ps 0 heap' false hown ?_
    unfold contents
    rw [hlookup]
    rfl
  · intro ps v heap' hlookup hown
    refine hfrees ps v.data.length heap' true hown ?_
    unfold contents
    rw [hlookup]
    rfl

end Specs

/-! ## Contents -/

section Contents

variable {vars : List Variable} {k k' : VarKey} {data : List UInt8}

/-- Deleting a variable deletes its key. -/
theorem contents_erase : contents (erase vars k) = (Change.mk k none).on (contents vars) := by
  funext k'
  by_cases h : k = k'
  · subst h
    rw [Change.on_self ⟨k, none⟩]
    unfold contents
    rw [lookup_erase_self]
    rfl
  · rw [Change.on_of_ne _ _ h]
    unfold contents
    rw [lookup_erase_of_ne h]

/-- Setting a variable assigns its key. -/
theorem contents_insert :
    contents (insert vars k data) = (Change.mk k (some data)).on (contents vars) := by
  funext k'
  have happend : lookup (insert vars k data) k' =
      (lookup (erase vars k) k').or (lookup [⟨k.name, k.guid, data⟩] k') := List.find?_append
  have hkey : Variable.key ⟨k.name, k.guid, data⟩ = k := rfl
  unfold contents
  rw [happend]
  by_cases h : k = k'
  · subst h
    rw [Change.on_self ⟨k, some data⟩, lookup_erase_self, lookup_cons_of_eq hkey]
    rfl
  · rw [Change.on_of_ne _ _ h, lookup_erase_of_ne h, lookup_cons_of_ne (hkey.symm ▸ h)]
    show ((lookup vars k').or none).map Variable.data = _
    rw [Option.or_none]

end Contents

/-! ## Scripts -/

section Scripts

variable {a : Arch} {env : Env a} {S : VariableStorage}

/-- What a script does with a storage. -/
inductive Act (env : Env a) (S : VariableStorage) where
  | assign (k : Key env S) (v : Value)
  | delete (k : Key env S)
  | get (k : Key env S)
  | contains (k : Key env S)

/-- What comes back. -/
inductive Answer where
  | done
  | value (v : Option (List UInt8))
  | member (b : Bool)
  | raised (e : Exc)
deriving DecidableEq, Repr

/-- The operation that is carried out. -/
def Act.op : Act env S → Op a Answer
  | .assign k v => do
      setItem env S k.toPyKey v.bytes
      pure .done
  | .delete k => do
      delItem env S k.toPyKey
      pure .done
  | .get k => do
      let v ← getItem env S k.toPyKey
      pure (.value v)
  | .contains k => do
      let b ← VariableStorage.contains env S k.toPyKey
      pure (.member b)

/-- One operation of a script, which goes on after an exception. Nothing goes on when the pool
has no memory left. -/
def step (env : Env a) (S : VariableStorage) : Run.Step (World a) (Act env S) Answer :=
  fun w act =>
    match act.op w with
    | .ok answer w' => some (w', [answer])
    | .error .noMemory _ => none
    | .error e w' => some (w', [.raised e])

/-- What an operation changes. -/
def Act.change : Act env S → Option (Change VarKey (List UInt8))
  | .assign k v => some ⟨k.var, some v.bytes⟩
  | .delete k => some ⟨k.var, none⟩
  | .get _ => none
  | .contains _ => none

/-- What a map answers. -/
def Act.answer (m : VarKey → Option (List UInt8)) : Act env S → Answer
  | .assign _ _ => .done
  | .delete k => if m k.var = none then .raised (.efistatus (statusMsg .notFound)) else .done
  | .get k => .value (m k.var)
  | .contains k => .member (m k.var).isSome

/-- The same operations on a map. -/
def mapStep : Run.Step (VarKey → Option (List UInt8)) (Act env S) Answer := fun m act =>
  some (Change.after m act.change.toList, [act.answer m])

/-- A world of which a map says what the variables are. -/
def Shows (env : Env a) (w : World a) (m : VarKey → Option (List UInt8)) : Prop :=
  Ok env w ∧ contents w.vars = m

theorem Leaves.ok {w : World a} {vars : List Variable} (h : Leaves env vars w)
    (hdata : ∀ v ∈ vars, 0 < v.data.length ∧ v.data.length < a.word) : Ok env w :=
  ⟨h.2, h.1 ▸ hdata⟩

theorem data_insert {vars : List Variable} (k : VarKey) (v : Value)
    (hdata : ∀ v ∈ vars, 0 < v.data.length ∧ v.data.length < a.word) :
    ∀ u ∈ insert vars k v.bytes, 0 < u.data.length ∧ u.data.length < a.word := by
  intro u hu
  rcases List.mem_append.mp hu with hu | hu
  · exact hdata u (List.mem_of_mem_filter hu)
  · cases List.mem_singleton.mp hu
    have hheap := heapSize_le a
    have hlt := v.lt
    refine ⟨List.length_pos_of_ne_nil v.ne_nil, ?_⟩
    show v.bytes.length < a.word
    omega

/-- Each operation answers as the map does, and changes as the map does, unless it finds no
memory. -/
theorem wp_op {w : World a} (hw : Ok env w) (act : Act env S) :
    Wp act.op w
      (fun answer w' => answer = act.answer (contents w.vars) ∧
        Shows env w' (Change.after (contents w.vars) act.change.toList))
      fun e w' => e = .noMemory ∨
        .raised e = act.answer (contents w.vars) ∧
          Shows env w' (Change.after (contents w.vars) act.change.toList) := by
  cases act with
  | assign k v =>
      refine wp_bind ((wp_setItem hw k v).mono ?_ fun _ _ h => .inl h.1)
      intro _ w' h
      refine wp_pure ⟨rfl, h.ok (data_insert k.var v hw.data), ?_⟩
      rw [h.1]
      exact contents_insert
  | delete k =>
      refine wp_bind ((wp_delItem hw k).mono ?_ ?_)
      · rintro _ w' ⟨hsome, h⟩
        refine wp_pure ⟨(if_neg hsome).symm, h.ok ?_, ?_⟩
        · exact fun v hv => hw.data v (List.mem_of_mem_filter hv)
        · rw [h.1]
          exact contents_erase
      · rintro e w' (h | ⟨hnone, rfl, h⟩)
        · exact .inl h.1
        · refine .inr ⟨(if_pos hnone).symm, h.ok hw.data, ?_⟩
          rw [h.1]
          exact (Change.on_eq_self (c := ⟨k.var, none⟩) hnone).symm
  | get k =>
      refine wp_bind ((wp_getItem hw k).mono ?_ fun _ _ h => .inl h.1)
      rintro v w' ⟨rfl, h⟩
      exact wp_pure ⟨rfl, h.ok hw.data, congrArg contents h.1⟩
  | contains k =>
      refine wp_bind ((wp_contains hw k).mono ?_ fun _ _ h => .inl h.1)
      rintro b w' ⟨rfl, h⟩
      exact wp_pure ⟨rfl, h.ok hw.data, congrArg contents h.1⟩

theorem step_refines {w w' : World a} {m : VarKey → Option (List UInt8)} {act : Act env S}
    {answers : List Answer} (hR : Shows env w m) (hs : step env S w act = some (w', answers)) :
    ∃ m', mapStep m act = some (m', answers) ∧ Shows env w' m' := by
  rcases hR with ⟨hw, rfl⟩
  have hop := wp_op hw act
  unfold Wp at hop
  unfold step at hs
  cases hact : act.op w with
  | ok answer w₁ =>
      rw [hact] at hop hs
      cases hs
      rcases hop with ⟨rfl, hshows⟩
      exact ⟨_, rfl, hshows⟩
  | error e w₁ =>
      rw [hact] at hop hs
      rcases hop with rfl | ⟨hanswer, hshows⟩
      · cases hs
      · cases e with
        | noMemory => cases hs
        | _ =>
            cases hs
            rw [hanswer]
            exact ⟨_, rfl, hshows⟩

end Scripts

/-! ## A script -/

/-- A machine whose pool is behind the place that `null` points to. -/
def scriptEnv : Env .x64 where
  pool := Allocator.above _
  base := baseLib
  lib :=
    { bitFieldRead := fun _ operand startBit endBit =>
        operand / 2 ^ startBit % 2 ^ (endBit + 1 - startBit)
      guidToString := textOfGuid }
  nullPtr := 8

/-- Memory of zeros, and no variables. -/
def scriptWorld : World .x64 where
  heap :=
    { ram := ⟨fun _ => 0, fun _ => rfl⟩
      live := [nullBlock scriptEnv]
      apart := List.pairwise_singleton _ _
      proper := by
        intro b hb
        cases List.mem_singleton.mp hb
        exact ⟨by decide, by decide, by decide⟩ }
  vars := []

theorem scriptWorld_ok : Ok scriptEnv scriptWorld where
  null := ⟨List.mem_singleton_self _, by decide⟩
  data := fun v hv => nomatch hv

/-- The name `Boot`, under the GUID that the format is shown with. -/
def bootKey : Key scriptEnv (.new []) where
  name := [66, 111, 111, 116]
  guid := gGuidFormat
  var := ⟨[66, 111, 111, 116], [0x67, 0x45, 0x23, 0x01, 0xAB, 0x89, 0xEF, 0xCD, 0x01, 0x23, 0x45,
    0x67, 0x89, 0xAB, 0xCD, 0xEF]⟩
  var_name := rfl
  name_ne_nil := by decide
  name_ne_zero := by simp
  name_lt := by decide +kernel
  guid_len := by decide
  guid_eq := by decide +kernel

end VariableStorage

end EfiLvgl.Variables
