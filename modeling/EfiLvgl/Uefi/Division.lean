import EfiLvgl.Uefi.Elements

/-!
# EfiLvgl.Uefi.Division — sizes that are divided by

`efi_mem_get_size` divides by the bits of a unit, `len` and `mem_attr` by the bytes of one. Only
`len` looks first whether there are any. How many there are is decided by the text that the
object was cast to: by the last letter in it, or by what stands behind its `#`. `TypeBase` keeps
what matters of that, and `baseLoop` follows the text; so an object and its fields never divide by
zero if and only if the types that their texts end with have a size (`never_divides_iff`).
-/

namespace EfiLvgl.Uefi

/-! ## The divisions -/

/-- A quotient of words. -/
def quotient (x y : Nat) : Res Nat := if y = 0 then .error .fault else .ok (x / y)

/-- A remainder of words. -/
def remainder (x y : Nat) : Res Nat := if y = 0 then .error .fault else .ok (x % y)

/-- `mem_unary_op` for `len`. -/
def memUnaryLen (m : Mem) : Res Nat :=
  if 0 < m.typesize then quotient m.size m.typesize else .ok 0

/-- There is a table of fields, or a prototype. -/
def Fields.present {α : Type} : Fields α → Bool
  | .null => false
  | _ => true

/-- Whether `mem_attr` returns the object of a field instead of its value. -/
def returnsObject (p : Mem) : Res Bool :=
  if p.fields.present ∨ p.typesize < p.size then .ok true
  else do
    let rest ← remainder 8 p.typesize
    .ok (rest ≠ 0)

/-- `mem_attr` for a field that is read. -/
def memAttr (a : Arch) (ns : Namespace) (n : Nat) (lib : LoadLib) (memory : Nat → UInt8)
    (self : Mem) (attr : Str) : Res PyObj :=
  match self.lookup attr with
  | none => .error (.raise .attributeError "Non-existing attribute")
  | some p => do
      if ← returnsObject p then .ok (.mem p) else getValue a ns n lib memory p .none

/-- What is done with an object once it has its type: `SIZE` may be assigned, and in a structure
the field before moves the bits. None of it divides by zero. -/
structure DividesSafely (a : Arch) (m : Mem) : Prop where
  getSize : ∀ size, efiMemGetSize a { m with size := size } ≠ .error .fault
  layout : ∀ last size, efiMemGetSize a (follow last { m with size := size }) ≠ .error .fault
  len : ∀ size, memUnaryLen { m with size := size } ≠ .error .fault
  attr : ∀ last size, returnsObject (follow last { m with size := size }) ≠ .error .fault

/-- An object, its fields, and the fields of these. -/
inductive Comprises : Mem → Mem → Prop where
  | self (m : Mem) : Comprises m m
  | field {m f : Mem} {entries : List (Str × Mem)} {e : Str × Mem} (hm : m.fields = .dict entries)
      (he : e ∈ entries) (hf : Comprises e.2 f) : Comprises m f

/-- Nothing is divided by zero, in an object and in its fields. -/
def NeverDivides (a : Arch) (g : Mem) : Prop := ∀ m, Comprises g m → DividesSafely a m

/-- `len` is the number that loads and stores count with. -/
theorem memUnaryLen_eq (m : Mem) : memUnaryLen m = .ok (memLen m) := by
  unfold memUnaryLen memLen quotient
  split
  · rw [if_neg (by omega)]
  · rfl

theorem efiMemGetSize_fault {a : Arch} {m : Mem} :
    efiMemGetSize a m = .error .fault ↔ m.bitnum ≠ 0 ∧ m.typesize * 8 % a.word = 0 := by
  unfold efiMemGetSize
  by_cases hbits : m.bitnum = 0
  · simp [hbits]
  · by_cases hunit : m.typesize * 8 % a.word = 0
    · simp [hbits, hunit]
    · simp [hbits, hunit]

theorem returnsObject_fault {p : Mem} :
    returnsObject p = .error .fault ↔
      p.fields.present = false ∧ p.typesize = 0 ∧ p.size = 0 := by
  unfold returnsObject remainder
  by_cases h : p.fields.present = true ∨ p.typesize < p.size
  · rw [if_pos h]
    refine iff_of_false (fun h => nomatch h) ?_
    rintro ⟨hfields, htype, hsize⟩
    rcases h with h | h
    · rw [hfields] at h
      cases h
    · omega
  · rw [if_neg h]
    rw [not_or, Bool.not_eq_true, Nat.not_lt] at h
    by_cases htype : p.typesize = 0
    · rw [if_pos htype]
      exact iff_of_true rfl ⟨h.1, htype, by omega⟩
    · rw [if_neg htype]
      exact iff_of_false (fun h => nomatch h) fun h => htype h.2.1

theorem returnsObject_cases (p : Mem) :
    (∃ whole, returnsObject p = .ok whole) ∨ returnsObject p = .error .fault := by
  unfold returnsObject remainder
  by_cases h : p.fields.present = true ∨ p.typesize < p.size
  · exact .inl ⟨true, if_pos h⟩
  · rw [if_neg h]
    by_cases htype : p.typesize = 0
    · rw [if_pos htype]
      exact .inr rfl
    · rw [if_neg htype]
      exact .inl ⟨_, rfl⟩

/-! ## The type that a text ends with -/

/-- What divisions depend on: the bytes of a unit, the bits of it that count, whether there are
fields, and whether all is well with those. -/
structure TypeBase where
  typesize : Nat
  bitoff : Nat
  bitnum : Nat
  fields : Bool
  inner : Bool
deriving DecidableEq, Repr

/-- No type: that of a new object. -/
def TypeBase.blank : TypeBase := ⟨0, 0, 0, false, true⟩

/-- There is something to divide by: the bits of a unit, where it is a bit field, and its bytes,
where there are no fields. -/
def TypeBase.sized (a : Arch) (u : TypeBase) : Bool :=
  (u.bitnum == 0 || u.typesize * 8 % a.word != 0) && (u.fields || u.typesize != 0) && u.inner

mutual

/-- There is something to divide by in an object and its fields. -/
def Mem.divisible (a : Arch) : Mem → Bool
  | .mk _ _ fields bitoff bitnum _ _ _ _ _ typesize _ =>
      (TypeBase.mk typesize bitoff bitnum fields.present (fieldsDivisible a fields)).sized a

/-- There is something to divide by in all fields. -/
def fieldsDivisible (a : Arch) : Fields Mem → Bool
  | .null => true
  | .args _ => true
  | .dict entries => entriesDivisible a entries

/-- There is something to divide by in all entries of a dictionary. -/
def entriesDivisible (a : Arch) : List (Str × Mem) → Bool
  | [] => true
  | e :: rest => entryDivisible a e && entriesDivisible a rest

/-- There is something to divide by in one entry. -/
def entryDivisible (a : Arch) : Str × Mem → Bool
  | (_, m) => m.divisible a

end

/-- The type of an object, as far as divisions go. -/
def Mem.base (a : Arch) (m : Mem) : TypeBase :=
  ⟨m.typesize, m.bitoff, m.bitnum, m.fields.present, fieldsDivisible a m.fields⟩

theorem Mem.divisible_eq (a : Arch) (m : Mem) : m.divisible a = (m.base a).sized a := by
  cases m
  rw [Mem.divisible]
  rfl

theorem entriesDivisible_iff {a : Arch} {entries : List (Str × Mem)} :
    entriesDivisible a entries = true ↔ ∀ e ∈ entries, e.2.divisible a = true := by
  induction entries with
  | nil => simp [entriesDivisible]
  | cons e rest ih =>
      rcases e with ⟨key, m⟩
      rw [entriesDivisible, entryDivisible, Bool.and_eq_true, ih, List.forall_mem_cons]

theorem fieldsDivisible_iff {a : Arch} {fields : Fields Mem} :
    fieldsDivisible a fields = true ↔
      ∀ entries, fields = .dict entries → ∀ e ∈ entries, e.2.divisible a = true := by
  cases fields with
  | null => simp [fieldsDivisible]
  | args items => simp [fieldsDivisible]
  | dict entries => simp [fieldsDivisible, entriesDivisible_iff]

/-- The number behind the last `:` is the number of bits. -/
def TypeBase.close (u : TypeBase) (num : Nat) (bitfield : Bool) : TypeBase :=
  if bitfield then { u with bitnum := (if 0 < num then num else 1) % 256 } else u

/-- A field behind another one. -/
def TypeBase.behind (u : TypeBase) : Option TypeBase → TypeBase
  | some last =>
      if 0 < last.bitnum ∧ 0 < u.bitnum then
        { u with bitoff := (last.bitoff + last.bitnum) % 256 }
      else u
  | none => u

/-- The bytes that a field of `count` units takes. -/
def TypeBase.bytes (a : Arch) (u : TypeBase) (count : Nat) : Nat :=
  if u.bitnum = 0 then
    if 0 < u.typesize * count % a.word then u.typesize * count % a.word else u.typesize
  else (u.bitoff + u.bitnum) / (u.typesize * 8 % a.word) * u.typesize % a.word

/-- The type that a text ends with; `u` is the one so far, and `derefB` the one that `#name`
stands for. -/
def baseLoop (a : Arch) (derefB : TypeBase → Str → TypeBase) (u : TypeBase) (num : Nat)
    (bitfield : Bool) : Str → TypeBase
  | [] => u.close num bitfield
  | c :: rest =>
      if c.isDigit then baseLoop a derefB u (digit a num c) bitfield rest
      else if c.isAlpha then
        let u := { u with typesize := typeSize a c }
        if c = 'O' then (derefB u rest).close 0 bitfield
        else if c = 'F' then
          if rest = [] then u.close 0 bitfield
          else
            baseLoop a derefB { u with fields := true, inner := true } 0 bitfield
              (prototype [] false [] rest).2.2
        else if c = 'T' ∨ c = 'P' ∨ c = 'G' then u.close 0 bitfield
        else baseLoop a derefB u 0 bitfield rest
      else baseLoop a derefB { u with bitoff := num % 256 } 0 true rest
termination_by text => text.length
decreasing_by
  all_goals simp
  have := prototype_length [] false [] rest
  omega

/-- The type after a cast to a text. -/
def baseStr (a : Arch) (derefB : TypeBase → Str → TypeBase) (u : TypeBase) (t : Str) : TypeBase :=
  baseLoop a derefB u 0 false t

/-- The type of a new object. -/
def baseSpec (a : Arch) (derefB : TypeBase → Str → TypeBase) : SpecObj → TypeBase
  | .str t => baseStr a derefB .blank (afterCount t)
  | .other _ => .blank

/-- The number of units in a text. -/
def unitCount (a : Arch) : SpecObj → Nat
  | .str t => repeatCount a t
  | .other _ => 1

/-- The bytes of the fields of a structure. -/
def structBytes (a : Arch) (derefB : TypeBase → Str → TypeBase) :
    Option TypeBase → List (Str × SpecObj) → Nat
  | _, [] => 0
  | last, (_, value) :: rest =>
      let u := (baseSpec a derefB value).behind last
      u.bytes a (unitCount a value) + structBytes a derefB (some u) rest

/-- The type after a cast. -/
def baseDesc (a : Arch) (ns : Namespace) : Nat → TypeBase → TypeDesc → TypeBase
  | 0, u, _ => u
  | n + 1, u, typedesc =>
      let derefB := fun u name =>
        match resolveTypeByName ns n .none name with
        | .ok desc => baseDesc a ns n u desc
        | .error _ => u
      match typedesc with
      | .none => { u with typesize := 1 }
      | .dict entries =>
          { u with
            typesize := structBytes a derefB none entries % a.word
            fields := true
            inner := entries.all fun e => (baseSpec a derefB e.2).sized a }
      | .str t => baseStr a derefB u (afterCount t)
      | .other => u

/-- The type after a cast to what `#name` stands for. -/
def baseDeref (a : Arch) (ns : Namespace) (n : Nat) (u : TypeBase) (name : Str) : TypeBase :=
  match resolveTypeByName ns n .none name with
  | .ok desc => baseDesc a ns n u desc
  | .error _ => u

theorem follow_base (a : Arch) (last : Option Mem) (m : Mem) :
    (follow last m).base a = (m.base a).behind (last.map (Mem.base a)) := by
  cases last with
  | none => rfl
  | some l => exact apply_ite (Mem.base a) (0 < l.bitnum ∧ 0 < m.bitnum) _ _

theorem behind_sized (a : Arch) (u : TypeBase) (last : Option TypeBase) :
    (u.behind last).sized a = u.sized a := by
  unfold TypeBase.behind
  split
  · split <;> rfl
  · rfl

/-- What an object itself divides by. -/
theorem dividesSafely_iff {a : Arch} {m : Mem} :
    DividesSafely a m ↔
      (m.bitnum ≠ 0 → m.typesize * 8 % a.word ≠ 0) ∧
        (m.fields.present = false → m.typesize ≠ 0) := by
  constructor
  · intro h
    constructor
    · exact fun hbits hunit => h.getSize m.size (efiMemGetSize_fault.mpr ⟨hbits, hunit⟩)
    · exact fun hfields htype => h.attr none 0 (returnsObject_fault.mpr ⟨hfields, htype, rfl⟩)
  · rintro ⟨hbits, hbytes⟩
    refine ⟨?_, ?_, ?_, ?_⟩
    · intro size hfault
      exact hbits (efiMemGetSize_fault.mp hfault).1 (efiMemGetSize_fault.mp hfault).2
    · intro last size hfault
      rcases follow_eq last { m with size := size } with ⟨bitoff, heq⟩
      rw [heq] at hfault
      exact hbits (efiMemGetSize_fault.mp hfault).1 (efiMemGetSize_fault.mp hfault).2
    · intro size
      rw [memUnaryLen_eq]
      exact fun h => nomatch h
    · intro last size hfault
      rcases follow_eq last { m with size := size } with ⟨bitoff, heq⟩
      rw [heq] at hfault
      rcases returnsObject_fault.mp hfault with ⟨hfields, htype, -⟩
      exact hbytes hfields htype

theorem divisible_iff {a : Arch} {m : Mem} :
    m.divisible a = true ↔ DividesSafely a m ∧
      ∀ entries, m.fields = .dict entries → ∀ e ∈ entries, e.2.divisible a = true := by
  rw [Mem.divisible_eq, dividesSafely_iff, ← fieldsDivisible_iff]
  simp only [TypeBase.sized, Mem.base, Bool.and_eq_true, Bool.or_eq_true, beq_iff_eq, bne_iff_ne,
    Bool.not_eq_false, ne_eq, not_not, Decidable.imp_iff_not_or]

theorem sizeOf_field_lt {m : Mem} {entries : List (Str × Mem)} {e : Str × Mem}
    (hm : m.fields = .dict entries) (he : e ∈ entries) : sizeOf e.2 < sizeOf m := by
  have hentry := List.sizeOf_lt_of_mem he
  cases m
  cases hm
  rcases e with ⟨key, f⟩
  simp only [Mem.mk.sizeOf_spec, Fields.dict.sizeOf_spec, Prod.mk.sizeOf_spec] at hentry ⊢
  omega

theorem divisible_of_neverDivides {a : Arch} {g : Mem} (h : NeverDivides a g) :
    g.divisible a = true := by
  rw [divisible_iff]
  refine ⟨h g (.self g), ?_⟩
  intro entries hm e he
  have hlt := sizeOf_field_lt hm he
  exact divisible_of_neverDivides fun m hf => h m (.field hm he hf)
termination_by sizeOf g

theorem neverDivides_of_divisible {a : Arch} {g : Mem} (h : g.divisible a = true) :
    NeverDivides a g := by
  intro m hm
  induction hm with
  | self m => exact (divisible_iff.mp h).1
  | field hm he hf ih => exact ih ((divisible_iff.mp h).2 _ hm _ he)

/-- A field that is found by its name. -/
theorem comprises_lookup {m p : Mem} {name : Str} (h : m.lookup name = some p) :
    Comprises m p := by
  unfold Mem.lookup at h
  split at h
  · rename_i entries hm
    rcases Option.map_eq_some_iff.mp h with ⟨e, he, rfl⟩
    exact .field hm (List.mem_of_find?_eq_some he) (.self e.2)
  · cases h

/-- Reading a field ends in its object or in its value. -/
theorem memAttr_field {a : Arch} {ns : Namespace} {n : Nat} {lib : LoadLib} {memory : Nat → UInt8}
    {g p : Mem} {name : Str} (h : NeverDivides a g) (hp : g.lookup name = some p) :
    memAttr a ns n lib memory g name = .ok (.mem p) ∨
      memAttr a ns n lib memory g name = getValue a ns n lib memory p .none := by
  have hsafe := (h p (comprises_lookup hp)).attr none p.size
  have hattr : returnsObject p ≠ .error .fault := hsafe
  rcases returnsObject_cases p with ⟨whole, hwhole⟩ | hfault
  · unfold memAttr
    simp only [hp, hwhole, bind_ok_left]
    cases whole
    · exact .inr rfl
    · exact .inl rfl
  · exact absurd hfault hattr

/-! ## Reading a text -/

section Bases

variable {a : Arch} {deref : Mem → Str → Res Mem} {derefB : TypeBase → Str → TypeBase}

theorem finish_base (m : Mem) (num : Nat) (bitfield : Bool) :
    (finish m num bitfield).base a = (m.base a).close num bitfield := by
  cases bitfield <;> rfl

theorem efiMemGetSize_bytes {m : Mem} {count size : Nat}
    (hsize : m.size = m.typesize * count % a.word) (h : efiMemGetSize a m = .ok size) :
    size = (m.base a).bytes a count := by
  unfold efiMemGetSize at h
  unfold TypeBase.bytes
  rw [hsize] at h
  by_cases hbits : m.bitnum = 0
  · rw [if_pos hbits] at h
    rw [if_pos (show (m.base a).bitnum = 0 from hbits)]
    exact (Except.ok.inj h).symm
  · rw [if_neg hbits] at h
    rw [if_neg (show ¬ (m.base a).bitnum = 0 from hbits)]
    by_cases hunit : m.typesize * 8 % a.word = 0
    · rw [if_pos hunit] at h
      cases h
    · rw [if_neg hunit] at h
      exact (Except.ok.inj h).symm

variable (hd : ∀ (m m' : Mem) (name : Str), deref m name = .ok m' →
  m'.base a = derefB (m.base a) name)

include hd

theorem byStrLoop_base {m m' : Mem} {num : Nat} {bitfield : Bool} {text : Str}
    (h : byStrLoop a deref m num bitfield text = .ok m') :
    m'.base a = baseLoop a derefB (m.base a) num bitfield text := by
  fun_induction byStrLoop a deref m num bitfield text with
  | case1 m num bitfield =>
      cases h
      rw [baseLoop, finish_base]
  | case2 m num bitfield c rest hc ih => rw [ih h, baseLoop, if_pos hc]
  | case3 => cases h
  | case4 m num bitfield rest hr =>
      -- the base of a name is that of the object it leads to
      rcases bind_ok.mp h with ⟨m₁, hm₁, hfin⟩
      cases hfin
      rw [finish_base, hd _ _ _ hm₁, baseLoop, if_neg (by decide), if_pos (by decide), if_pos rfl]
      rfl
  | case5 m num bitfield =>
      cases h
      rw [finish_base, baseLoop, if_neg (by decide), if_pos (by decide), if_neg (by decide),
        if_pos rfl, if_pos rfl]
      rfl
  | case6 m num bitfield rest hr =>
      rename_i ih
      rw [ih h, baseLoop, if_neg (by decide), if_pos (by decide), if_neg (by decide), if_pos rfl,
        if_neg hr]
      rfl
  | case7 m num bitfield c rest hd' hα _ hO hF hc =>
      cases h
      rw [finish_base, baseLoop, if_neg hd', if_pos hα, if_neg hO, if_neg hF,
        if_pos (by rw [← or_assoc]; exact .inl hc)]
      rfl
  | case8 m num bitfield rest =>
      cases h
      rw [finish_base, baseLoop, if_neg (by decide), if_pos (by decide), if_neg (by decide),
        if_neg (by decide), if_pos (by decide)]
      rfl
  | case9 m num bitfield c rest hc hα _ hO hF hP hG ih =>
      rw [ih h, baseLoop, if_neg hc, if_pos hα, if_neg hO, if_neg hF,
        if_neg (by rw [← or_assoc]; exact not_or.mpr ⟨hP, hG⟩)]
      rfl
  | case10 => cases h
  | case11 m num bitfield rest _ _ _ ih =>
      rw [ih h, baseLoop, if_neg (by decide), if_neg (by decide)]
      rfl
  | case12 => cases h

theorem castByStr_base {m m' : Mem} {t : Str} (h : castByStr a deref m t = .ok m') :
    m'.base a = baseStr a derefB (m.base a) t := by
  unfold castByStr at h
  have hbase := byStrLoop_base hd h
  exact hbase

/-- The address behind the fields is as far off as they are long, and each field has the type that
its text ends with. -/
theorem byDictLoop_base {readonly page : Bool} {entries : List (Str × SpecObj)}
    {last : Option Mem} {addr x : Nat} {fs : List (Str × Mem)} (base : Nat)
    (h : byDictLoop a deref readonly page last addr entries = .ok (x, fs)) :
    a.sub x base =
        (a.sub addr base + structBytes a derefB (last.map (Mem.base a)) entries) % a.word ∧
      entriesDivisible a fs = entries.all fun e => (baseSpec a derefB e.2).sized a := by
  induction entries generalizing last addr x fs with
  | nil =>
      cases h
      rw [structBytes, Nat.add_zero, Nat.mod_eq_of_lt (a.sub_lt _ _)]
      exact ⟨rfl, rfl⟩
  | cons e rest ih =>
      rcases e with ⟨key, value⟩
      rcases byDictLoop_ok _ _ h with ⟨t, f, size, fs', rfl, hf, hsize, hrest, rfl⟩
      rcases (newBySpec_ok _ _).mp hf with ⟨g, hg, rfl⟩
      have hbase : (follow last (g.sized a (repeatCount a t) page)).base a =
          (baseSpec a derefB (.str t)).behind (last.map (Mem.base a)) := by
        rw [follow_base]
        exact congrArg (TypeBase.behind · _) (castByStr_base hd hg)
      -- the size does not depend on where `follow` puts the bits of the field
      have hbytes : size = ((baseSpec a derefB (.str t)).behind (last.map (Mem.base a))).bytes a
          (repeatCount a t) := by
        rw [← hbase]
        refine efiMemGetSize_bytes ?_ hsize
        rcases follow_eq last (g.sized a (repeatCount a t) page) with ⟨bitoff, heq⟩
        rw [heq]
        rfl
      rcases ih hrest with ⟨hx, hfs⟩
      constructor
      · rw [hx, structBytes, Arch.sub_add, hbytes, Option.map_some, hbase, Nat.mod_add_mod,
          Nat.add_assoc]
        rfl
      · rw [entriesDivisible, entryDivisible, Mem.divisible_eq, hbase, behind_sized, hfs,
          List.all_cons]

theorem castByDict_base {m m' : Mem} {entries : List (Str × SpecObj)}
    (h : castByDict a deref m entries = .ok m') :
    m'.base a = { m.base a with
      typesize := structBytes a derefB none entries % a.word
      fields := true
      inner := entries.all fun e => (baseSpec a derefB e.2).sized a } := by
  rcases bind_ok.mp h with ⟨⟨x, fs⟩, hfs, hok⟩
  cases hok
  rcases byDictLoop_base hd m.addr hfs with ⟨hsize, hinner⟩
  rw [Arch.sub_self, Nat.zero_add] at hsize
  unfold Mem.base
  dsimp only [fieldsDivisible]
  rw [hsize, hinner]
  rfl

end Bases

theorem fillSize_base {a : Arch} {m m' : Mem} {len : Nat} (h : m.fillSize a len = .ok m') :
    m'.base a = m.base a := by
  unfold Mem.fillSize at h
  split at h
  · rcases bind_ok.mp h with ⟨size, -, h⟩
    cases h
    rfl
  · cases h
    rfl

/-- The text alone decides on what is divided by. -/
theorem efiMemTypecast_base {a : Arch} {ns : Namespace} {n : Nat} {m m' : Mem} {d : TypeDesc}
    (h : efiMemTypecast a ns n m d = .ok m') : m'.base a = baseDesc a ns n (m.base a) d := by
  induction n generalizing m m' d with
  | zero => cases h
  | succ n ih =>
      have hd : ∀ (m m' : Mem) (name : Str), castByName a ns n m name = .ok m' →
          m'.base a = baseDeref a ns n (m.base a) name := by
        intro m m' name h
        rcases bind_ok.mp h with ⟨desc, hdesc, h⟩
        rw [ih h, baseDeref, hdesc]
      cases d with
      | none =>
          cases h
          rfl
      | dict entries => exact castByDict_base hd h
      | other => cases h
      | str t =>
          rw [efiMemTypecast_str] at h
          rcases bind_ok.mp h with ⟨m₁, hm₁, hsize⟩
          rw [fillSize_base hsize]
          exact castByStr_base hd hm₁

theorem castByName_base {a : Arch} {ns : Namespace} {n : Nat} {m m' : Mem} {name : Str}
    (h : castByName a ns n m name = .ok m') : m'.base a = baseDeref a ns n (m.base a) name := by
  rcases bind_ok.mp h with ⟨desc, hdesc, h⟩
  rw [efiMemTypecast_base h, baseDeref, hdesc]

/-! ## Division by zero -/

/-- An object and its fields never divide by zero exactly when the types that their texts end with
have a size. -/
theorem never_divides_iff {a : Arch} {ns : Namespace} {n : Nat} {self g : Mem} {t : Str}
    (h : efiMemTypecastByStr a ns n self t = .ok g) :
    NeverDivides a g ↔ (baseStr a (baseDeref a ns n) (self.base a) t).sized a = true := by
  have hd : ∀ (m m' : Mem) (name : Str), castByName a ns n m name = .ok m' →
      m'.base a = baseDeref a ns n (m.base a) name := fun _ _ _ => castByName_base
  rw [← castByStr_base hd h, ← Mem.divisible_eq]
  exact ⟨divisible_of_neverDivides, neverDivides_of_divisible⟩

/-- Three bits of a byte. -/
theorem never_divides_iff_bits : ∃ g,
    efiMemTypecastByStr .x64 noNames 1 (blank 4096 false) ['B', ':', '3'] = .ok g ∧
      NeverDivides .x64 g := by
  have hcast := @castByStr_bits .x64 (castByName .x64 noNames 1) 'B' ['3'] (by decide) (by decide)
    (by simp) (blank 4096 false)
  have hbase : baseStr .x64 (baseDeref .x64 noNames 1) ((blank 4096 false).base .x64)
      ['B', ':', '3'] = ⟨1, 0, 3, false, true⟩ := by
    rw [baseStr, baseLoop, if_neg (by decide), if_pos (by decide), if_neg (by decide),
      if_neg (by decide), if_neg (by decide), baseLoop, if_neg (by decide), if_neg (by decide),
      baseLoop, if_pos (by decide), baseLoop]
    rfl
  have hunit : 1 * 8 % Arch.x64.word ≠ 0 := by
    have hword := Arch.x64.word_large
    rw [Nat.mod_eq_of_lt (by omega)]
    decide
  refine ⟨_, hcast, (never_divides_iff hcast).mpr ?_⟩
  rw [hbase]
  simp [TypeBase.sized, hunit]

/-- Three bits of nothing; and a byte that is cast to a structure with a field of an unknown
letter. -/
theorem bits_of_nothing_divided :
    (∃ g, efiMemTypecastByStr .x64 noNames 1 (blank 4096 false) [':', '3'] = .ok g ∧
        efiMemGetSize .x64 g = .error .fault) ∧
      ∃ m g, efiMemNew .x64 noNames 1 4096 (some ['B']) false false = .ok m ∧
        efiMemTypecast .x64 noNames 1 m (.dict [(['x'], .str ['X'])]) = .ok g ∧
        ∀ lib memory, memAttr .x64 noNames 1 lib memory g ['x'] = .error .fault := by
  constructor
  · refine ⟨{ blank 4096 false with typespec := some [':', '3'], bitnum := 3 }, ?_, rfl⟩
    rw [efiMemTypecastByStr, castByStr, byStrLoop_colon _ _ _ _ (by decide),
      byStrLoop_digit _ _ _ _ (by decide), byStrLoop_nil]
    rfl
  · have hnew : efiMemNew .x64 noNames 1 4096 (some ['B']) false false =
        .ok (letterField .x64 4096 'B') := efiMemNew_plain (by decide) (by decide)
    have hfield : efiMemNew .x64 noNames 0 4096 (some ['X']) false false =
        .ok (letterField .x64 4096 'X') := efiMemNew_plain (by decide) (by decide)
    have hloop : byDictLoop .x64 (castByName .x64 noNames 0) false false none 4096
        [(['x'], .str ['X'])] = .ok (4096, [(['x'], letterField .x64 4096 'X')]) :=
      byDictLoop_cons ['x'] hfield rfl rfl rfl
    have hcast : efiMemTypecast .x64 noNames 1 (letterField .x64 4096 'B')
        (.dict [(['x'], .str ['X'])]) = .ok { letterField .x64 4096 'B' with
          typesize := 0
          fields := .dict [(['x'], letterField .x64 4096 'X')] } := by
      rw [efiMemTypecast_dict]
      show byDictLoop .x64 (castByName .x64 noNames 0) false false none 4096 _ >>= _ = _
      rw [hloop]
      rfl
    exact ⟨_, _, hnew, hcast, fun lib memory => rfl⟩

end EfiLvgl.Uefi
