import EfiLvgl.Uefi.InPlace

/-!
# EfiLvgl.Uefi.Access — getting hold of `mem` objects

How a script comes by objects: it builds them (`efiMemMakeNew`, `efiGuidNew`), casts
them, takes elements and slices of them (`getMem`, the part of `get_value` that
returns objects) and takes their fields. `Obtained` collects the objects that any
sequence of these gives.

`Fits` is the invariant of all of them: `size` and `typesize` are words, in the object
and in its fields (`Obtained.fits`). It is kept by every reader of type descriptions,
by induction on the depth of aliases (`efiMemTypecast_fits`).
-/

namespace EfiLvgl.Uefi

/-! ## Indexes -/

/-- A word read as `mp_int_t`. -/
def Arch.signed (a : Arch) (x : Int) : Int :=
  let r := x % a.word
  if 2 * r < a.word then r else r - a.word

/-- `MP_OBJ_NEW_SMALL_INT`: a small integer has one bit less than a word. -/
def Arch.smallInt (a : Arch) (i : Nat) : Int :=
  let r : Int := (i % (a.word / 2) : Nat)
  if 2 * r < (a.word / 2 : Nat) then r else r - (a.word / 2 : Nat)

/-- A bound or the step of a slice. -/
inductive SliceArg where
  | none
  | int (i : Int)
  | other (typeName : String)
deriving DecidableEq, Repr

/-- What stands in the brackets, or `None` for `VALUE`. -/
inductive PyIndex where
  | none
  | int (i : Int)
  | slice (start stop step : SliceArg)
  | other (typeName : String)
deriving DecidableEq, Repr

/-- The `name` of an object's type. -/
def ObjType.name : ObjType → String
  | .mem => "mem"
  | .guid => "guid"
  | .fptr => "fptr"

/-- `mp_obj_get_int` of an integer. `mpz_as_int_checked` looks at the magnitude, so the smallest
word does not pass. -/
def getInt (a : Arch) (i : Int) : Res Int :=
  if -(a.word : Int) < 2 * i ∧ 2 * i < a.word then .ok i
  else .error (.raise .overflowError "overflow converting long int to machine word")

/-- `mp_obj_get_int` of a bound, with the value for `None`. -/
def SliceArg.get (a : Arch) (default : Int) : SliceArg → Res Int
  | .none => .ok default
  | .int i => getInt a i
  | .other typeName => .error (.raise .typeError ("can't convert " ++ typeName ++ " to int"))

/-- A negative index counts from the end. -/
def wrapIndex (a : Arch) (len : Nat) (i : Int) : Int := if i < 0 then a.signed (i + len) else i

/-- `mp_get_index` for a single element. -/
def mpGetIndex (a : Arch) (type : ObjType) (len : Nat) (i : Int) : Res Nat := do
  let i ← getInt a i
  if wrapIndex a len i < 0 ∨ (len : Int) ≤ wrapIndex a len i then
    .error (.raise .indexError (type.name ++ " index out of range"))
  else .ok (wrapIndex a len i).toNat

/-- The element that an index stands for. -/
def elementIndex (a : Arch) (type : ObjType) (len : Nat) : PyIndex → Res Nat
  | .int i => mpGetIndex a type len i
  | .other typeName =>
      .error (.raise .typeError (type.name ++ " indices must be integers, not " ++ typeName))
  | _ => .ok 0

/-- The bounds of a slice with step one: what lies outside is cut off, and a slice
that ends before it starts is empty. -/
def sliceBounds (a : Arch) (len : Nat) (start stop : Int) : Nat × Nat :=
  let start :=
    if start < 0 then max 0 (a.signed (len + start))
    else if (len : Int) < start then a.signed len else start
  let stop :=
    if stop < 0 then max (-1) (a.signed (len + stop))
    else if (len : Int) < stop then a.signed len else stop
  let stop := if stop < start then start else stop
  ((start % a.word).toNat, (stop % a.word).toNat)

/-- `mp_seq_get_fast_slice_indexes`, with the exception its callers raise for a step
other than one. -/
def mpSeqGetFastSliceIndexes (a : Arch) (len : Nat) (start stop step : SliceArg) :
    Res (Nat × Nat) := do
  let step ← step.get a 1
  if step = 0 then .error (.raise .valueError "slice step cannot be zero")
  else do
    let start ← start.get a (if 0 < step then 0 else a.signed (len - 1))
    let stop ← stop.get a (if 0 < step then a.signed len else 0)
    if step ≠ 1 then
      .error (.raise .notImplementedError "only slices with step=1 (aka None) are supported")
    else .ok (sliceBounds a len start stop)

/-- `MP_UNARY_OP_LEN`. -/
def memLen (m : Mem) : Nat := if 0 < m.typesize then m.size / m.typesize else 0

/-! ## Elements and slices -/

/-- An integer of `n` bytes in memory. -/
def readUnit (memory : Nat → UInt8) (addr n : Nat) : Nat :=
  (List.range n).foldr (fun k x => (memory (addr + k)).toNat + 256 * x) 0

/-- The letters whose elements are plain values. -/
def plainCodes : List Char :=
  ['b', 'B', 'h', 'H', 'i', 'l', 'I', 'L', 'n', 'E', 'N', 'q', 'Q', 'G', 'a', 'u']

/-- The object that a slice stands for. -/
def getSlice (a : Arch) (ns : Namespace) (n : Nat) (self : Mem) (len start stop : Nat) :
    Res (Option Mem) :=
  if 0 < len ∧ len < stop then
    .error (.raise .indexError "Index slice is out of buffer")
  else
    some <$> efiMemNewN a ns n ((self.addr + start * self.typesize) % a.word) (stop - start)
      self.typespec self.readonly self.page

/-- The object that an element stands for, `none` when it is a plain value. -/
def getElement (a : Arch) (ns : Namespace) (n : Nat) (memory : Nat → UInt8) (self : Mem)
    (len i : Nat) : Res (Option Mem) :=
  if len < i ∨ 0 < len ∧ i = len then .error (.raise .indexError "Out of buffer")
  else
    match self.typespec with
    | none => .ok none
    | some t =>
        if t.head? = some 'T' ∨ t.head? = some 'F' ∨ t.head? = some 'P' then
          if t.tail = [] then .ok none
          else
            some <$> efiMemNew a ns n (readUnit memory (self.addr + i * a.ptrSize) a.ptrSize)
              (some t.tail)
              self.readonly self.page
        else if t.head? = some 'O' then
          -- the attributes are copied, `typeattr` as a whole
          .ok (some { self with
            type := .mem
            addr := (self.addr + i * self.typesize) % a.word
            size := self.typesize })
        else if t.head?.any plainCodes.contains then .ok none
        else .error (.raise .valueError "Not supported type to subscribe")

/-- The object that `get_value` returns, `none` when it returns a plain value. An
object of length zero counts as one of the largest length. -/
def getMem (a : Arch) (ns : Namespace) (n : Nat) (memory : Nat → UInt8) (self : Mem)
    (index : PyIndex) : Res (Option Mem) :=
  if self.addr = 0 ∨ 0 < self.bitnum then .ok none
  else do
    let len ← getInt a (memLen self)
    -- so that an object without a length can be indexed
    let len := if len = 0 then a.word - 1 else len.toNat
    match index with
    | .slice start stop step => do
        let bounds ← mpSeqGetFastSliceIndexes a len start stop step
        getSlice a ns n self len bounds.1 bounds.2
    | index => do
        let i ← elementIndex a self.type len index
        getElement a ns n memory self len i

/-! ## Construction -/

mutual

/-- `efi_mem_update_addr`: move an object and its fields. -/
def efiMemUpdateAddr (a : Arch) (addr : Nat) : Mem → Res Mem
  | .mk type maddr fields bitoff bitnum readonly hasvarg overrw page typespec typesize size => do
      let fields ← (if typespec.any fun t => t.head? ≠ some 'F' then updateFields a addr fields
        else .ok fields : Res (Fields Mem))
      .ok (.mk type ((addr + maddr) % a.word) fields bitoff bitnum readonly hasvarg overrw page
        typespec typesize size)

/-- The fields of a structure. In a prototype that is taken for a structure the length stands
where `map.used` is, three bits higher: from eight types on, a text is taken for a field. -/
def updateFields (a : Arch) (addr : Nat) : Fields Mem → Res (Fields Mem)
  | .null => .ok .null
  | .dict entries => do
      let entries ← updateEntries a addr entries
      .ok (.dict entries)
  | .args items => if 8 ≤ items.length then .error .fault else .ok (.args items)

/-- The entries of a dictionary. -/
def updateEntries (a : Arch) (addr : Nat) : List (Str × Mem) → Res (List (Str × Mem))
  | [] => .ok []
  | e :: rest => do
      let e ← updateEntry a addr e
      let rest ← updateEntries a addr rest
      .ok (e :: rest)

/-- One entry of a dictionary. -/
def updateEntry (a : Arch) (addr : Nat) : Str × Mem → Res (Str × Mem)
  | (key, m) => do
      let m ← efiMemUpdateAddr a addr m
      .ok (key, m)

end

/-- The first argument of `mem`. -/
inductive MemArg where
  | spec (typespec : Str)
  | len (n : Nat)
deriving DecidableEq, Repr

/-- The object that `efi_mem_make_new` builds, and how many bytes it needs. -/
def makeNewObj (a : Arch) (ns : Namespace) (n : Nat) (addr : Nat) (pmem readonly : Bool) :
    MemArg → Res (Mem × Nat)
  | .spec [] => (fun m => (m, 0)) <$> efiMemNewN a ns n addr 0 (some ['B']) readonly pmem
  | .spec t =>
      (fun m => (m, if 0 < m.size then m.size else m.typesize)) <$>
        efiMemNew a ns n addr (some t) readonly pmem
  | .len k =>
      (fun m => (m, if pmem then k * 4096 % a.word else k)) <$>
        efiMemNewN a ns n addr k (some ['B']) readonly pmem

/-- A description that is not empty is read by `efi_mem_new`. -/
theorem makeNewObj_spec (a : Arch) (ns : Namespace) (n addr : Nat) (pmem readonly : Bool) {t : Str}
    (ht : t ≠ []) :
    makeNewObj a ns n addr pmem readonly (.spec t) =
      (fun m => (m, if 0 < m.size then m.size else m.typesize)) <$>
        efiMemNew a ns n addr (some t) readonly pmem := by
  cases t with
  | nil => exact absurd rfl ht
  | cons c t => rfl

/-- `efi_mem_make_new` with its four arguments; `alloc` is what `AllocatePages` or
`AllocateZeroPool` return. -/
def efiMemMakeNew (a : Arch) (ns : Namespace) (n : Nat) (arg : MemArg) (addr : Nat)
    (pmem readonly : Bool) (alloc : Nat → Nat) : Res Mem := do
  let p ← makeNewObj a ns n addr pmem readonly arg
  if addr = 0 ∧ 0 < p.2 then efiMemUpdateAddr a (alloc p.2) p.1 else .ok p.1

/-- `efi_guid_new`. -/
def efiGuidNew (addr : Nat) : Mem :=
  { blank addr true with type := .guid, typesize := 16, size := 16, typespec := some ['G'] }

/-! ## Sizes are words -/

/-- `size` and `typesize` are words, in the object and in its fields. -/
inductive Fits (a : Arch) : Mem → Prop where
  | intro {m : Mem} (size : m.size < a.word) (typesize : m.typesize < a.word)
      (fields : ∀ entries, m.fields = .dict entries → ∀ e ∈ entries, Fits a e.2) : Fits a m

section Fits

variable {a : Arch}

theorem Fits.size_lt {m : Mem} (h : Fits a m) : m.size < a.word := by
  cases h
  assumption

theorem Fits.typesize_lt {m : Mem} (h : Fits a m) : m.typesize < a.word := by
  cases h
  assumption

theorem Fits.field {m : Mem} (h : Fits a m) {entries : List (Str × Mem)} {e : Str × Mem}
    (hm : m.fields = .dict entries) (he : e ∈ entries) : Fits a e.2 := by
  cases h with
  | intro _ _ hf => exact hf entries hm e he

theorem typeSize_lt (a : Arch) (c : Char) : typeSize a c < a.word := by
  have h16 : typeSize a c ≤ 16 := by
    unfold typeSize
    split <;> first | decide | (cases a <;> decide)
  have := a.word_large
  omega

theorem fits_blank (buf : Nat) (readonly : Bool) : Fits a (blank buf readonly) := by
  refine .intro a.word_pos a.word_pos ?_
  intro entries h
  cases h

/-- Only sizes and fields matter. -/
theorem Fits.change {m m' : Mem} (h : Fits a m) (hsize : m'.size = m.size)
    (htype : m'.typesize = m.typesize) (hfields : m'.fields = m.fields) : Fits a m' := by
  refine .intro ?_ ?_ ?_
  · rw [hsize]
    exact h.size_lt
  · rw [htype]
    exact h.typesize_lt
  · intro entries he e hmem
    rw [hfields] at he
    exact h.field he hmem

theorem Fits.setTypesize {m : Mem} (h : Fits a m) {n : Nat} (hn : n < a.word) :
    Fits a { m with typesize := n } :=
  .intro h.size_lt hn fun _ he _ hmem => h.field he hmem

theorem Fits.setType {m : Mem} (h : Fits a m) (t : ObjType) : Fits a { m with type := t } :=
  h.change rfl rfl rfl

theorem Fits.setTypespec {m : Mem} (h : Fits a m) (t : Option Str) :
    Fits a { m with typespec := t } :=
  h.change rfl rfl rfl

theorem Fits.setArgs {m : Mem} (h : Fits a m) (items : List (Option Str)) (varg : Bool) :
    Fits a { m with fields := .args items, hasvarg := varg } :=
  .intro h.size_lt h.typesize_lt fun _ he => by cases he

theorem Fits.finish {m : Mem} (h : Fits a m) (num : Nat) (bitfield : Bool) :
    Fits a (finish m num bitfield) := by
  unfold Uefi.finish
  split
  · exact h.change rfl rfl rfl
  · exact h

theorem Fits.sized {m : Mem} (h : Fits a m) (len : Nat) (pmem : Bool) :
    Fits a (m.sized a len pmem) :=
  .intro (Nat.mod_lt _ a.word_pos) h.typesize_lt fun _ he _ hmem => h.field he hmem

theorem Fits.fillSize {m m' : Mem} (h : Fits a m) {len : Nat} (hm : m.fillSize a len = .ok m') :
    Fits a m' := by
  unfold Mem.fillSize at hm
  split at hm
  · rcases bind_ok.mp hm with ⟨size, -, hm⟩
    cases hm
    exact .intro (Nat.mod_lt _ a.word_pos) h.typesize_lt
      fun _ he _ hmem => h.field he hmem
  · cases hm
    exact h

section Deref

variable {deref : Mem → Str → Res Mem}
  (hd : ∀ (m m' : Mem) (name : Str), Fits a m → deref m name = .ok m' → Fits a m')

include hd

theorem byStrLoop_fits {m m' : Mem} {num : Nat} {bitfield : Bool} {text : Str} (h : Fits a m)
    (hm : byStrLoop a deref m num bitfield text = .ok m') : Fits a m' := by
  fun_induction byStrLoop a deref m num bitfield text with
  | case1 =>
      cases hm
      exact h.finish _ _
  | case2 _ _ _ _ _ _ ih => exact ih h hm
  | case3 => cases hm
  | case4 =>
      -- an object's name: what it stands for fits, and so does it finished
      rcases bind_ok.mp hm with ⟨m₁, hm₁, hfin⟩
      cases hfin
      exact (hd _ _ _ (h.setTypesize (typeSize_lt a _)) hm₁).finish _ _
  | case5 =>
      cases hm
      exact ((h.setTypesize (typeSize_lt a _)).setType _).finish _ _
  | case6 =>
      rename_i ih
      exact ih (((h.setTypesize (typeSize_lt a _)).setType _).setArgs _ _) hm
  | case7 =>
      cases hm
      exact (h.setTypesize (typeSize_lt a _)).finish _ _
  | case8 =>
      cases hm
      exact ((h.setTypesize (typeSize_lt a _)).setType _).finish _ _
  | case9 =>
      rename_i ih
      exact ih (h.setTypesize (typeSize_lt a _)) hm
  | case10 => cases hm
  | case11 =>
      rename_i ih
      exact ih (h.change rfl rfl rfl) hm
  | case12 => cases hm

theorem castByStr_fits {m m' : Mem} {t : Str} (h : Fits a m)
    (hm : castByStr a deref m t = .ok m') : Fits a m' :=
  byStrLoop_fits hd (h.setTypespec _) hm

theorem newN_fits {buf len : Nat} {t : Option Str} {readonly pmem : Bool} {m : Mem}
    (hm : newN a deref buf len t readonly pmem = .ok m) : Fits a m := by
  unfold newN at hm
  split at hm
  · rcases bind_ok.mp hm with ⟨m₁, hm₁, hsized⟩
    cases hsized
    exact (castByStr_fits hd (fits_blank buf readonly) hm₁).sized _ _
  · cases hm
    have := a.word_large
    exact ((fits_blank buf readonly).setTypesize (by omega)).sized _ _

theorem byDictLoop_fits {readonly page : Bool} :
    ∀ (entries : List (Str × SpecObj)) {last : Option Mem} {addr x : Nat} {fs : List (Str × Mem)},
      byDictLoop a deref readonly page last addr entries = .ok (x, fs) → ∀ e ∈ fs, Fits a e.2
  | [], last, addr, x, fs, h => by
      cases h
      intro e he
      cases he
  | (key, value) :: rest, last, addr, x, fs, h => by
      rcases byDictLoop_ok _ _ h with ⟨t, f, size, fs₁, -, hf, -, hr, rfl⟩
      have hfits : Fits a (follow last f) := by
        rcases follow_eq last f with ⟨bitoff, heq⟩
        rw [heq]
        exact (newN_fits hd hf).change rfl rfl rfl
      intro e he
      rcases List.mem_cons.mp he with rfl | he
      · exact hfits
      · exact byDictLoop_fits rest hr e he

theorem castByDict_fits {m m' : Mem} {entries : List (Str × SpecObj)} (h : Fits a m)
    (hm : castByDict a deref m entries = .ok m') : Fits a m' := by
  unfold castByDict at hm
  rcases bind_ok.mp hm with ⟨⟨x, fs⟩, hfs, hok⟩
  cases hok
  refine .intro h.size_lt (Nat.mod_lt _ a.word_pos) ?_
  intro es he e hmem
  cases he
  exact byDictLoop_fits hd entries hfs e hmem

end Deref

/-- Casting keeps sizes words. -/
theorem efiMemTypecast_fits {ns : Namespace} : ∀ (n : Nat) {m m' : Mem} {d : TypeDesc},
    Fits a m → efiMemTypecast a ns n m d = .ok m' → Fits a m'
  | 0, m, m', d, _, hm => by cases hm
  | n + 1, m, m', d, h, hm => by
      have hd : ∀ (m m' : Mem) (name : Str), Fits a m → castByName a ns n m name = .ok m' →
          Fits a m' := by
        intro m m' name h hm
        rcases bind_ok.mp hm with ⟨desc, -, hm⟩
        exact efiMemTypecast_fits n h hm
      cases d with
      | none =>
          cases hm
          have := a.word_large
          exact (h.setTypespec none).setTypesize (by omega)
      | dict entries => exact castByDict_fits hd h hm
      | other => cases hm
      | str t =>
          rw [efiMemTypecast_str] at hm
          rcases bind_ok.mp hm with ⟨m₁, hm₁, hsize⟩
          exact (castByStr_fits hd h hm₁).fillSize hsize

/-! In place. -/

theorem Fits.behind {r : InPlace} (h : Fits a r.self) (writes : List Attr) :
    Fits a (r.behind writes).self := h

theorem Fits.next {r : InPlace} (h : Fits a r.self) {f : Mem → InPlace}
    (hf : ∀ m, Fits a m → Fits a (f m).self) : Fits a (r.next f).self := by
  rcases r with ⟨self, writes, stop⟩
  cases stop with
  | none => exact hf self h
  | some e => exact h

theorem Fits.finishInPlace {m : Mem} (h : Fits a m) (num : Nat) (bitfield : Bool) :
    Fits a (finishInPlace m num bitfield).self := h.finish num bitfield

theorem Fits.fillInPlace {m : Mem} (h : Fits a m) (len : Nat) :
    Fits a (fillInPlace a len m).self := by
  unfold Uefi.fillInPlace
  split
  · next hm => exact h.fillSize hm
  · exact h

theorem byStrInPlace_fits {deref : Mem → Str → InPlace}
    (hd : ∀ (m : Mem) (name : Str), Fits a m → Fits a (deref m name).self) {m : Mem} (h : Fits a m)
    (num : Nat) (bitfield : Bool) (text : Str) :
    Fits a (byStrInPlace a deref m num bitfield text).self := by
  fun_induction byStrInPlace a deref m num bitfield text with
  | case1 => exact h.finishInPlace _ _
  | case2 _ _ _ _ _ _ ih => exact ih h
  | case3 => exact h.setTypesize (typeSize_lt a _)
  | case4 =>
      exact ((hd _ _ (h.setTypesize (typeSize_lt a _))).next
        fun _ hm => hm.finishInPlace _ _).behind _
  | case5 => exact ((h.setTypesize (typeSize_lt a _)).setType _).finishInPlace _ _
  | case6 =>
      rename_i ih
      exact (ih (((h.setTypesize (typeSize_lt a _)).setType _).setArgs _ _)).behind _
  | case7 => exact (h.setTypesize (typeSize_lt a _)).finishInPlace _ _
  | case8 => exact ((h.setTypesize (typeSize_lt a _)).setType _).finishInPlace _ _
  | case9 =>
      rename_i ih
      exact (ih (h.setTypesize (typeSize_lt a _))).behind _
  | case10 => exact h
  | case11 =>
      rename_i ih
      exact (ih (h.change rfl rfl rfl)).behind _
  | case12 => exact h

/-- What a cast leaves keeps its sizes words, whether the cast returns or not. -/
theorem castInPlace_fits {ns : Namespace} (n : Nat) {m : Mem} (h : Fits a m) (d : TypeDesc) :
    Fits a (castInPlace a ns n m d).self := by
  induction n generalizing m d with
  | zero => exact h
  | succ n ih =>
      -- a name is cast with less fuel, so the induction gives it
      have hname : ∀ (m : Mem) (name : Str), Fits a m → Fits a (nameInPlace a ns n m name).self := by
        intro m name hm
        unfold nameInPlace
        split
        · exact ih hm _
        · exact hm
      cases d with
      | none =>
          have := a.word_large
          exact (h.setTypespec none).setTypesize (by omega)
      | other => exact h
      | dict entries =>
          have hcast := castInPlace_result a ns (n + 1) m (.dict entries)
          rw [castInPlace] at hcast ⊢
          cases hdict : efiMemTypecastByDict a ns n m entries with
          | ok m' =>
              rw [hdict] at hcast
              exact efiMemTypecast_fits (n + 1) h hcast.symm
          | error e => exact h
      | str t =>
          rw [castInPlace_str]
          exact ((byStrInPlace_fits hname (h.setTypespec _) 0 false _).behind _).next
            fun _ hm => hm.fillInPlace _

theorem castByName_fits {ns : Namespace} (n : Nat) {m m' : Mem} {name : Str} (h : Fits a m)
    (hm : castByName a ns n m name = .ok m') : Fits a m' := by
  rcases bind_ok.mp hm with ⟨desc, -, hm⟩
  exact efiMemTypecast_fits n h hm

theorem efiMemNewN_fits {ns : Namespace} {n buf len : Nat} {t : Option Str} {readonly pmem : Bool}
    {m : Mem} (hm : efiMemNewN a ns n buf len t readonly pmem = .ok m) : Fits a m :=
  newN_fits (fun _ _ _ => castByName_fits n) hm

theorem efiMemNew_fits {ns : Namespace} {n buf : Nat} {t : Option Str} {readonly pmem : Bool}
    {m : Mem} (hm : efiMemNew a ns n buf t readonly pmem = .ok m) : Fits a m := by
  unfold efiMemNew at hm
  split at hm
  · exact newN_fits (fun _ _ _ => castByName_fits n) hm
  · exact efiMemNewN_fits hm

theorem mem_updateEntries {addr : Nat} {entries entries' : List (Str × Mem)} {e : Str × Mem}
    (h : updateEntries a addr entries = .ok entries') (he : e ∈ entries') :
    ∃ d ∈ entries, efiMemUpdateAddr a addr d.2 = .ok e.2 := by
  induction entries generalizing entries' with
  | nil =>
      rw [updateEntries] at h
      cases h
      cases he
  | cons d rest ih =>
      rw [updateEntries] at h
      rcases bind_ok.mp h with ⟨d', hd, h⟩
      rcases bind_ok.mp h with ⟨rest', hrest, h⟩
      cases h
      rcases List.mem_cons.mp he with rfl | he
      · rw [updateEntry] at hd
        rcases bind_ok.mp hd with ⟨m, hm, hd⟩
        cases hd
        exact ⟨d, List.mem_cons_self .., hm⟩
      · rcases ih hrest he with ⟨d', hd', hm⟩
        exact ⟨d', List.mem_cons_of_mem _ hd', hm⟩

/-- Only the address and the fields are changed. -/
theorem efiMemUpdateAddr_ok {addr : Nat} {m m' : Mem} (h : efiMemUpdateAddr a addr m = .ok m') :
    ∃ fields, m' = { m with addr := (addr + m.addr) % a.word, fields := fields } ∧
      (fields = m.fields ∨ updateFields a addr m.fields = .ok fields) := by
  cases m with
  | mk type maddr fields bitoff bitnum readonly hasvarg overrw page typespec typesize size =>
      rw [efiMemUpdateAddr] at h
      rcases bind_ok.mp h with ⟨fields', hfields, h⟩
      cases h
      refine ⟨fields', rfl, ?_⟩
      split at hfields
      · exact .inr hfields
      · cases hfields
        exact .inl rfl

/-- Moving an object changes no size. -/
theorem efiMemUpdateAddr_fits {addr : Nat} {m m' : Mem} (h : Fits a m)
    (hm : efiMemUpdateAddr a addr m = .ok m') : Fits a m' := by
  induction h generalizing m' with
  | @intro m hsize htype hfields ih =>
      rcases efiMemUpdateAddr_ok hm with ⟨fields', rfl, hsame | hupdate⟩
      · refine .intro hsize htype ?_
        intro entries he e hmem
        exact hfields entries (hsame ▸ he) e hmem
      · refine .intro hsize htype ?_
        intro entries he e hmem
        cases hm' : m.fields with
        | null =>
            rw [hm', updateFields] at hupdate
            cases hupdate
            cases he
        | args items =>
            rw [hm', updateFields] at hupdate
            split at hupdate
            · cases hupdate
            · cases hupdate
              cases he
        | dict es =>
            rw [hm', updateFields] at hupdate
            rcases bind_ok.mp hupdate with ⟨es', hes, hupdate⟩
            cases hupdate
            cases he
            -- each new field is an old one moved
            rcases mem_updateEntries hes hmem with ⟨d, hd, hok⟩
            exact ih es hm' d hd hok

theorem map_ok {α β : Type} {x : Res α} {g : α → β} {b : β} (h : g <$> x = .ok b) :
    ∃ y, x = .ok y ∧ g y = b := by
  cases x with
  | error e => cases h
  | ok y =>
      cases h
      exact ⟨y, rfl, rfl⟩

theorem makeNewObj_fits {ns : Namespace} {n addr : Nat} {arg : MemArg} {pmem readonly : Bool}
    {p : Mem × Nat} (hp : makeNewObj a ns n addr pmem readonly arg = .ok p) : Fits a p.1 := by
  unfold makeNewObj at hp
  split at hp
  · rcases map_ok hp with ⟨m₁, hm₁, rfl⟩
    exact efiMemNewN_fits hm₁
  · rcases map_ok hp with ⟨m₁, hm₁, rfl⟩
    exact efiMemNew_fits hm₁
  · rcases map_ok hp with ⟨m₁, hm₁, rfl⟩
    exact efiMemNewN_fits hm₁

theorem efiMemMakeNew_fits {ns : Namespace} {n addr : Nat} {arg : MemArg} {pmem readonly : Bool}
    {alloc : Nat → Nat} {m : Mem}
    (hm : efiMemMakeNew a ns n arg addr pmem readonly alloc = .ok m) : Fits a m := by
  rcases bind_ok.mp hm with ⟨p, hp, hm⟩
  have hfits : Fits a p.1 := makeNewObj_fits hp
  split at hm
  · exact efiMemUpdateAddr_fits hfits hm
  · cases hm
    exact hfits

theorem getSlice_fits {ns : Namespace} {n len start stop : Nat} {m m' : Mem}
    (hm : getSlice a ns n m len start stop = .ok (some m')) : Fits a m' := by
  unfold getSlice at hm
  split at hm
  · cases hm
  · rcases map_ok hm with ⟨m₁, hm₁, he⟩
    cases he
    exact efiMemNewN_fits hm₁

theorem getElement_fits {ns : Namespace} {n len i : Nat} {memory : Nat → UInt8} {m m' : Mem}
    (h : Fits a m) (hm : getElement a ns n memory m len i = .ok (some m')) : Fits a m' := by
  unfold getElement at hm
  split at hm
  · cases hm
  · split at hm
    · cases hm
    · split at hm
      · split at hm
        · cases hm
        · rcases map_ok hm with ⟨m₁, hm₁, he⟩
          cases he
          exact efiMemNew_fits hm₁
      · split at hm
        · cases hm
          exact .intro h.typesize_lt h.typesize_lt fun _ he _ hmem => h.field he hmem
        · split at hm <;> cases hm

theorem getMem_fits {ns : Namespace} {n : Nat} {memory : Nat → UInt8} {m m' : Mem} {index : PyIndex}
    (h : Fits a m) (hm : getMem a ns n memory m index = .ok (some m')) : Fits a m' := by
  unfold getMem at hm
  split at hm
  · cases hm
  · rcases bind_ok.mp hm with ⟨len, -, hm⟩
    cases index with
    | slice start stop step =>
        rcases bind_ok.mp hm with ⟨bounds, -, hm⟩
        exact getSlice_fits hm
    | none =>
        rcases bind_ok.mp hm with ⟨i, -, hm⟩
        exact getElement_fits h hm
    | int k =>
        rcases bind_ok.mp hm with ⟨i, -, hm⟩
        exact getElement_fits h hm
    | other name =>
        rcases bind_ok.mp hm with ⟨i, -, hm⟩
        exact getElement_fits h hm

end Fits

/-! ## The objects of a script -/

/-- The objects that construction, casts (also those that raise), elements, slices and
fields give, in any order. The names that are bound and the memory may be others in each step. -/
inductive Obtained (a : Arch) : Mem → Prop where
  | make {ns : Namespace} {n addr : Nat} {arg : MemArg} {pmem readonly : Bool} {alloc : Nat → Nat}
      {m : Mem} (h : efiMemMakeNew a ns n arg addr pmem readonly alloc = .ok m) : Obtained a m
  | new {ns : Namespace} {n buf : Nat} {t : Option Str} {readonly pmem : Bool} {m : Mem}
      (h : efiMemNew a ns n buf t readonly pmem = .ok m) : Obtained a m
  | newN {ns : Namespace} {n buf len : Nat} {t : Option Str} {readonly pmem : Bool} {m : Mem}
      (h : efiMemNewN a ns n buf len t readonly pmem = .ok m) : Obtained a m
  | guid (addr : Nat) : Obtained a (efiGuidNew addr)
  | cast {ns : Namespace} {n : Nat} {m m' : Mem} {d : TypeDesc} (hm : Obtained a m)
      (h : efiMemTypecast a ns n m d = .ok m') : Obtained a m'
  | castLeaves {ns : Namespace} {n : Nat} {m : Mem} {d : TypeDesc} (hm : Obtained a m) :
      Obtained a (castInPlace a ns n m d).self
  | item {ns : Namespace} {n : Nat} {memory : Nat → UInt8} {m m' : Mem} {index : PyIndex}
      (hm : Obtained a m) (h : getMem a ns n memory m index = .ok (some m')) : Obtained a m'
  | field {m : Mem} {entries : List (Str × Mem)} {e : Str × Mem} (hm : Obtained a m)
      (h : m.fields = .dict entries) (he : e ∈ entries) : Obtained a e.2

theorem Obtained.fits {a : Arch} {m : Mem} (h : Obtained a m) : Fits a m := by
  induction h with
  | make h => exact efiMemMakeNew_fits h
  | new h => exact efiMemNew_fits h
  | newN h => exact efiMemNewN_fits h
  | guid addr =>
      have := a.word_large
      have h16 : 16 < a.word := by omega
      exact .intro h16 h16 fun _ he => by cases he
  | cast _ h ih => exact efiMemTypecast_fits _ ih h
  | castLeaves _ ih => exact castInPlace_fits _ ih _
  | item _ h ih => exact getMem_fits ih h
  | field _ h he ih => exact ih.field h he

end EfiLvgl.Uefi
