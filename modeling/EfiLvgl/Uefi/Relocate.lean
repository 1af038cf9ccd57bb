import EfiLvgl.Uefi.Access
import EfiLvgl.Uefi.Shift

/-!
# EfiLvgl.Uefi.Relocate — moving what was built at address zero

An object for memory that is still to be allocated is built at zero and moved afterwards by
`efi_mem_update_addr`, which visits the fields of an object unless its `typespec` starts with
`F`, for then `fields` should be the types of a prototype. What counts is the `Shape` of the
object, and that depends on the text alone (`efiMemTypecast_shape`): the object comes out as if
it had been built at the other address if and only if `F` and prototypes go together in it and
in its fields (`relocates_iff`).
-/

namespace EfiLvgl.Uefi

/-! ## What can be moved -/

/-- Fields as `efi_mem_update_addr` meets them: none, the types of a prototype, `long` from eight
on, or a dictionary. -/
inductive FieldShape where
  | null
  | args (long : Bool)
  | dict (empty movable : Bool)
deriving DecidableEq, Repr

/-- `visited`: there is a `typespec`, and it does not start with `F`. -/
structure Shape where
  visited : Bool
  fields : FieldShape
deriving DecidableEq, Repr

/-- Fields are moved where they are visited; a long prototype must not be. -/
def Shape.movable (s : Shape) : Bool :=
  match s.fields with
  | .null => true
  | .args long => !(s.visited && long)
  | .dict empty movable => if s.visited then movable else empty

/-- Whether `efi_mem_update_addr` visits the fields. -/
def visits (typespec : Option Str) : Bool := typespec.any fun t => t.head? ≠ some 'F'

mutual

/-- An object and its fields can be moved. -/
def Mem.movable : Mem → Bool
  | .mk _ _ fields _ _ _ _ _ _ typespec _ _ => (Shape.mk (visits typespec) (fieldShape fields)).movable

/-- The shape of fields. -/
def fieldShape : Fields Mem → FieldShape
  | .null => .null
  | .dict entries => .dict entries.isEmpty (allMovable entries)
  | .args items => .args (8 ≤ items.length)

/-- All entries of a dictionary can be moved. -/
def allMovable : List (Str × Mem) → Bool
  | [] => true
  | e :: rest => entryMovable e && allMovable rest

/-- One entry can be moved. -/
def entryMovable : Str × Mem → Bool
  | (_, m) => m.movable

end

/-- The shape of an object. -/
def Mem.shape (m : Mem) : Shape := ⟨visits m.typespec, fieldShape m.fields⟩

theorem Mem.movable_eq (m : Mem) : m.movable = m.shape.movable := by
  cases m
  rw [Mem.movable]
  rfl

theorem allMovable_iff {entries : List (Str × Mem)} :
    allMovable entries = true ↔ ∀ e ∈ entries, e.2.movable = true := by
  induction entries with
  | nil => simp [allMovable]
  | cons e rest ih =>
      rcases e with ⟨key, m⟩
      rw [allMovable, entryMovable, Bool.and_eq_true, ih, List.forall_mem_cons]

section Update

variable {a : Arch} {base : Nat}

theorem efiMemUpdateAddr_eq (m : Mem) :
    efiMemUpdateAddr a base m = (do
      let fields ← (if visits m.typespec then updateFields a base m.fields else .ok m.fields :
        Res (Fields Mem))
      .ok { m with addr := (base + m.addr) % a.word, fields := fields }) := by
  cases m
  rw [efiMemUpdateAddr]
  rfl

/-- An object is moved as a whole when its fields are. -/
theorem efiMemUpdateAddr_iff (m : Mem) :
    efiMemUpdateAddr a base m = .ok (m.shift a base) ↔
      (if visits m.typespec then updateFields a base m.fields else .ok m.fields) =
        .ok (shiftFields a base m.fields) := by
  rw [efiMemUpdateAddr_eq, Mem.shift_eq]
  constructor
  · intro h
    rcases bind_ok.mp h with ⟨fields, hfields, h⟩
    rw [hfields]
    have heq := congrArg Mem.fields (Except.ok.inj h)
    exact congrArg Except.ok heq
  · intro h
    rw [h]
    rfl

theorem updateEntries_iff (entries : List (Str × Mem)) :
    updateEntries a base entries = .ok (shiftEntries a base entries) ↔
      ∀ e ∈ entries, efiMemUpdateAddr a base e.2 = .ok (e.2.shift a base) := by
  induction entries with
  | nil => simp [updateEntries, shiftEntries]
  | cons e rest ih =>
      rcases e with ⟨key, m⟩
      rw [updateEntries, updateEntry, shiftEntries, shiftEntry, List.forall_mem_cons, ← ih]
      constructor
      · intro h
        rcases bind_ok.mp h with ⟨e', he, h⟩
        rcases bind_ok.mp he with ⟨m', hm, he'⟩
        rcases bind_ok.mp h with ⟨rest', hrest, h⟩
        cases he'
        have heq := Except.ok.inj h
        rw [List.cons.injEq, Prod.mk.injEq] at heq
        exact ⟨hm.trans (congrArg Except.ok heq.1.2), hrest.trans (congrArg Except.ok heq.2)⟩
      · rintro ⟨hm, hrest⟩
        rw [hm, hrest]
        rfl

/-- Nothing stays where it is. -/
theorem shiftEntries_one_ne {e : Str × Mem} {rest : List (Str × Mem)} :
    e :: rest ≠ shiftEntries a 1 (e :: rest) := by
  intro h
  rcases e with ⟨key, m⟩
  rw [shiftEntries, shiftEntry, List.cons.injEq, Prod.mk.injEq, Mem.shift_eq] at h
  have haddr : m.addr = (1 + m.addr) % a.word := congrArg Mem.addr h.1.2
  have hlt := Nat.mod_lt (1 + m.addr) a.word_pos
  have hword := a.word_large
  rcases Nat.lt_or_ge (1 + m.addr) a.word with hin | hout
  · rw [Nat.mod_eq_of_lt hin] at haddr
    omega
  · have heq : 1 + m.addr = a.word := by omega
    rw [heq, Nat.mod_self] at haddr
    omega

/-- The movable objects are those that are moved right, to any address. -/
theorem movable_iff {m : Mem} (h : Fits a m) :
    (∀ base < a.word, efiMemUpdateAddr a base m = .ok (m.shift a base)) ↔ m.movable = true := by
  have hword := a.word_large
  induction h with
  | @intro m hsize htype hfields ih =>
      rw [Mem.movable_eq]
      simp only [efiMemUpdateAddr_iff, Mem.shape, Shape.movable]
      cases hm : m.fields with
      | null => simp [updateFields, shiftFields, fieldShape]
      | args items =>
          by_cases hv : visits m.typespec = true
          · by_cases hlong : 8 ≤ items.length
            · simp only [hv, hlong, fieldShape, updateFields, if_true]
              constructor
              · intro h
                cases h 0 a.word_pos
              · intro h
                cases h
            · simp [hv, hlong, fieldShape, updateFields, shiftFields]
          · simp [hv, fieldShape, shiftFields]
      | dict entries =>
          by_cases hv : visits m.typespec = true
          · simp only [hv, fieldShape, if_true, allMovable_iff]
            constructor
            · intro h e he
              refine (ih entries hm e he).mp ?_
              intro base hbase
              rcases bind_ok.mp (h base hbase) with ⟨entries', hupdate, heq⟩
              have hshift : entries' = shiftEntries a base entries :=
                Fields.dict.inj (Except.ok.inj heq)
              rw [hshift] at hupdate
              exact (updateEntries_iff entries).mp hupdate e he
            · intro h base hbase
              have hupdate := (updateEntries_iff entries).mpr fun e he =>
                (ih entries hm e he).mpr (h e he) base hbase
              rw [updateFields, hupdate]
              rfl
          · -- entries that are not visited are moved only if there are none
            rw [Bool.not_eq_true] at hv
            simp only [hv, fieldShape, Bool.false_eq_true, if_false]
            cases entries with
            | nil => simp [shiftFields, shiftEntries]
            | cons e rest =>
                constructor
                · intro h
                  have heq := Fields.dict.inj (Except.ok.inj (h 1 (by omega)))
                  exact absurd heq shiftEntries_one_ne
                · intro h
                  cases h

end Update

/-! ## The shape that a text leads to -/

/-- The shape that the loop over a text leaves; `derefS` is what `#name` leaves. -/
def shapeLoop (derefS : Shape → Str → Shape) (s : Shape) : Str → Shape
  | [] => s
  | c :: rest =>
      if c.isAlpha then
        if c = 'O' then derefS s rest
        else if c = 'F' then
          if rest = [] then s
          else
            let p := prototype [] false [] rest
            shapeLoop derefS { s with fields := .args (8 ≤ p.1.length) } p.2.2
        else if c = 'T' ∨ c = 'P' ∨ c = 'G' then s
        else shapeLoop derefS s rest
      else shapeLoop derefS s rest
termination_by text => text.length
decreasing_by
  all_goals simp
  have := prototype_length [] false [] rest
  omega

/-- The shape after a cast to a text. -/
def shapeStr (derefS : Shape → Str → Shape) (s : Shape) (t : Str) : Shape :=
  shapeLoop derefS { s with visited := visits (some t) } t

/-- The shape of a new object. -/
def shapeSpec (derefS : Shape → Str → Shape) : SpecObj → Shape
  | .str t => shapeStr derefS ⟨false, .null⟩ (afterCount t)
  | .other _ => ⟨false, .null⟩

/-- The shape of the fields of a structure. -/
def shapeDict (derefS : Shape → Str → Shape) (entries : List (Str × SpecObj)) : FieldShape :=
  .dict entries.isEmpty (entries.all fun e => (shapeSpec derefS e.2).movable)

/-- The shape after a cast. -/
def shapeDesc (ns : Namespace) : Nat → Shape → TypeDesc → Shape
  | 0, s, _ => s
  | n + 1, s, typedesc =>
      let derefS := fun s name =>
        match resolveTypeByName ns n .none name with
        | .ok desc => shapeDesc ns n s desc
        | .error _ => s
      match typedesc with
      | .none => { s with visited := false }
      | .dict entries => { s with fields := shapeDict derefS entries }
      | .str t => shapeStr derefS s (afterCount t)
      | .other => s

/-- The shape after a cast to what `#name` stands for. -/
def shapeDeref (ns : Namespace) (n : Nat) (s : Shape) (name : Str) : Shape :=
  match resolveTypeByName ns n .none name with
  | .ok desc => shapeDesc ns n s desc
  | .error _ => s

/-- The shape of what `efi_mem_new` builds for a text. -/
def newShape (ns : Namespace) (n : Nat) (t : Str) : Shape := shapeSpec (shapeDeref ns n) (.str t)

section Shapes

variable {a : Arch} {deref : Mem → Str → Res Mem} {derefS : Shape → Str → Shape}
  (hd : ∀ (m m' : Mem) (name : Str), deref m name = .ok m' → m'.shape = derefS m.shape name)

theorem shape_congr {m m' : Mem} (ht : m'.typespec = m.typespec) (hf : m'.fields = m.fields) :
    m'.shape = m.shape := by
  unfold Mem.shape
  rw [ht, hf]

theorem shape_finish (m : Mem) (num : Nat) (bitfield : Bool) :
    (finish m num bitfield).shape = m.shape := by
  cases bitfield <;> exact shape_congr rfl rfl

include hd

theorem byStrLoop_shape {m m' : Mem} {num : Nat} {bitfield : Bool} {text : Str}
    (h : byStrLoop a deref m num bitfield text = .ok m') :
    m'.shape = shapeLoop derefS m.shape text := by
  fun_induction byStrLoop a deref m num bitfield text with
  | case1 m num bitfield =>
      cases h
      rw [shapeLoop, shape_finish]
  | case2 m num bitfield c rest hc ih =>
      rw [ih h, shapeLoop, if_neg (mt not_isDigit_of_isAlpha (not_not.mpr hc))]
  | case3 => cases h
  | case4 m num bitfield rest hr =>
      -- the shape of a name is that of the object it leads to
      rcases bind_ok.mp h with ⟨m₁, hm₁, hfin⟩
      cases hfin
      rw [shape_finish, hd _ _ _ hm₁, shapeLoop, if_pos (by decide), if_pos rfl]
      rfl
  | case5 m num bitfield =>
      cases h
      rw [shape_finish, shapeLoop, if_pos (by decide), if_neg (by decide), if_pos rfl, if_pos rfl]
      rfl
  | case6 m num bitfield rest hr =>
      rename_i ih
      rw [ih h, shapeLoop, if_pos (by decide), if_neg (by decide), if_pos rfl, if_neg hr]
      rfl
  | case7 m num bitfield c rest _ hα _ hO hF hc =>
      cases h
      rw [shape_finish, shapeLoop, if_pos hα, if_neg hO, if_neg hF,
        if_pos (by rw [← or_assoc]; exact .inl hc)]
      rfl
  | case8 m num bitfield rest =>
      cases h
      rw [shape_finish, shapeLoop, if_pos (by decide), if_neg (by decide), if_neg (by decide),
        if_pos (by decide)]
      rfl
  | case9 m num bitfield c rest hc hα _ hO hF hP hG ih =>
      rw [ih h, shapeLoop, if_pos hα, if_neg hO, if_neg hF,
        if_neg (by rw [← or_assoc]; exact not_or.mpr ⟨hP, hG⟩)]
      rfl
  | case10 => cases h
  | case11 m num bitfield rest _ _ _ ih =>
      rw [ih h, shapeLoop, if_neg (by decide)]
      rfl
  | case12 => cases h

theorem castByStr_shape {m m' : Mem} {t : Str} (h : castByStr a deref m t = .ok m') :
    m'.shape = shapeStr derefS m.shape t :=
  byStrLoop_shape hd h

theorem newBySpec_shape {buf : Nat} {t : Str} {readonly pmem : Bool} {m : Mem}
    (h : newBySpec a deref buf t readonly pmem = .ok m) :
    m.shape = shapeSpec derefS (.str t) := by
  rcases (newBySpec_ok _ _).mp h with ⟨g, hg, rfl⟩
  exact castByStr_shape hd hg

theorem byDictLoop_shape {readonly page : Bool} {entries : List (Str × SpecObj)}
    {last : Option Mem} {addr x : Nat} {fs : List (Str × Mem)}
    (h : byDictLoop a deref readonly page last addr entries = .ok (x, fs)) :
    fieldShape (.dict fs) = shapeDict derefS entries := by
  induction entries generalizing last addr x fs with
  | nil =>
      cases h
      rfl
  | cons e rest ih =>
      rcases e with ⟨key, value⟩
      rcases byDictLoop_ok _ _ h with ⟨t, f, size, fs₁, hvalue, hf, -, hr, rfl⟩
      have hshape : (follow last f).shape = shapeSpec derefS value := by
        rcases follow_eq last f with ⟨bitoff, heq⟩
        rw [hvalue, ← newBySpec_shape hd hf, heq]
        exact shape_congr rfl rfl
      have hrest := ih hr
      simp only [fieldShape, shapeDict, FieldShape.dict.injEq] at hrest ⊢
      refine ⟨rfl, ?_⟩
      rw [allMovable, entryMovable, Mem.movable_eq, hshape, hrest.2, List.all_cons]

theorem castByDict_shape {m m' : Mem} {entries : List (Str × SpecObj)}
    (h : castByDict a deref m entries = .ok m') :
    m'.shape = { m.shape with fields := shapeDict derefS entries } := by
  rcases bind_ok.mp h with ⟨⟨x, fs⟩, hfs, hok⟩
  cases hok
  rw [← byDictLoop_shape hd hfs]
  rfl

end Shapes

theorem fillSize_shape {a : Arch} {m m' : Mem} {len : Nat} (h : m.fillSize a len = .ok m') :
    m'.shape = m.shape := by
  unfold Mem.fillSize at h
  split at h
  · rcases bind_ok.mp h with ⟨size, -, h⟩
    cases h
    exact shape_congr rfl rfl
  · cases h
    rfl

/-- The text alone decides on the shape. -/
theorem efiMemTypecast_shape {a : Arch} {ns : Namespace} {n : Nat} {m m' : Mem} {d : TypeDesc}
    (h : efiMemTypecast a ns n m d = .ok m') : m'.shape = shapeDesc ns n m.shape d := by
  induction n generalizing m m' d with
  | zero => cases h
  | succ n ih =>
      have hd : ∀ (m m' : Mem) (name : Str), castByName a ns n m name = .ok m' →
          m'.shape = shapeDeref ns n m.shape name := by
        intro m m' name h
        rcases bind_ok.mp h with ⟨desc, hdesc, h⟩
        rw [ih h, shapeDeref, hdesc]
      cases d with
      | none =>
          cases h
          rfl
      | dict entries => exact castByDict_shape hd h
      | other => cases h
      | str t =>
          rw [efiMemTypecast_str] at h
          rcases bind_ok.mp h with ⟨m₁, hm₁, hsize⟩
          rw [fillSize_shape hsize]
          exact castByStr_shape hd hm₁

theorem efiMemNew_shape {a : Arch} {ns : Namespace} {n buf : Nat} {t : Str} {readonly pmem : Bool}
    {m : Mem} (h : efiMemNew a ns n buf (some t) readonly pmem = .ok m) :
    m.shape = newShape ns n t := by
  refine newBySpec_shape ?_ h
  intro m m' name h
  rcases bind_ok.mp h with ⟨desc, hdesc, h⟩
  rw [efiMemTypecast_shape h, shapeDeref, hdesc]

/-! ## Offsets -/

/-- `efi_mem_get_size` of what is no bit field. -/
def Mem.bytes (m : Mem) : Nat := if 0 < m.size then m.size else m.typesize

/-- The bytes of fields. -/
def fieldBytes (entries : List (Str × Mem)) : Nat := (entries.map fun e => e.2.bytes).sum

/-- In a structure without bit fields, and in the structures inside, every field starts behind
the bytes of the earlier ones, and `typesize` is the number of all bytes. -/
inductive Summed (a : Arch) : Mem → Prop where
  | intro {m : Mem}
      (addr : ∀ entries, m.fields = .dict entries → (∀ e ∈ entries, e.2.bitnum = 0) →
        ∀ i (hi : i < entries.length),
          entries[i].2.addr ≡ m.addr + fieldBytes (entries.take i) [MOD a.word])
      (typesize : ∀ entries, m.fields = .dict entries → (∀ e ∈ entries, e.2.bitnum = 0) →
        m.typesize = fieldBytes entries % a.word)
      (fields : ∀ entries, m.fields = .dict entries → ∀ e ∈ entries, Summed a e.2) : Summed a m

/-- An object that is no structure, so far. -/
def NoDict (m : Mem) : Prop := ∀ entries, m.fields ≠ .dict entries

section Summed

variable {a : Arch}

theorem NoDict.summed {m : Mem} (h : NoDict m) : Summed a m :=
  .intro (fun entries he => absurd he (h entries)) (fun entries he => absurd he (h entries))
    fun entries he => absurd he (h entries)

theorem NoDict.congr {m m' : Mem} (h : NoDict m) (hfields : m'.fields = m.fields) : NoDict m' := by
  intro entries he
  exact h entries (hfields ▸ he)

/-- Only addresses, types' sizes and fields matter. -/
theorem Summed.change {m m' : Mem} (h : Summed a m) (haddr : m'.addr = m.addr)
    (htype : m'.typesize = m.typesize) (hfields : m'.fields = m.fields) : Summed a m' := by
  cases h with
  | intro h1 h2 h3 =>
      refine .intro ?_ ?_ ?_
      · rw [hfields, haddr]
        exact h1
      · rw [hfields, htype]
        exact h2
      · rw [hfields]
        exact h3

theorem Summed.finish {m : Mem} (h : Summed a m) (num : Nat) (bitfield : Bool) :
    Summed a (finish m num bitfield) := by
  unfold Uefi.finish
  split
  · exact h.change rfl rfl rfl
  · exact h

theorem finish_addr (m : Mem) (num : Nat) (bitfield : Bool) :
    (Uefi.finish m num bitfield).addr = m.addr := by
  cases bitfield <;> rfl

section Deref

variable {deref : Mem → Str → Res Mem}
  (hd : ∀ (m m' : Mem) (name : Str), NoDict m → deref m name = .ok m' →
    Summed a m' ∧ m'.addr = m.addr)

include hd

theorem byStrLoop_summed {m m' : Mem} {num : Nat} {bitfield : Bool} {text : Str} (h : NoDict m)
    (hm : byStrLoop a deref m num bitfield text = .ok m') : Summed a m' ∧ m'.addr = m.addr := by
  fun_induction byStrLoop a deref m num bitfield text with
  | case1 m =>
      cases hm
      exact ⟨h.summed.finish _ _, finish_addr _ _ _⟩
  | case2 _ _ _ _ _ _ ih => exact ih h hm
  | case3 => cases hm
  | case4 m =>
      -- only a name can bring a dict of fields, and its cast gives their sum
      rcases bind_ok.mp hm with ⟨m₁, hm₁, hfin⟩
      cases hfin
      rcases hd { m with typesize := 0 } _ _ h hm₁ with ⟨hsum, haddr⟩
      exact ⟨hsum.finish _ _, (finish_addr _ _ _).trans haddr⟩
  | case5 m =>
      cases hm
      refine ⟨(NoDict.congr h ?_).summed.finish _ _, finish_addr _ _ _⟩
      rfl
  | case6 =>
      rename_i ih
      exact ih (fun entries he => by cases he) hm
  | case7 | case8 =>
      cases hm
      refine ⟨(NoDict.congr h ?_).summed.finish _ _, finish_addr _ _ _⟩
      rfl
  | case9 =>
      rename_i ih
      exact ih h hm
  | case10 => cases hm
  | case11 =>
      rename_i ih
      exact ih h hm
  | case12 => cases hm

theorem newBySpec_summed {buf : Nat} {t : Str} {readonly pmem : Bool} {m : Mem}
    (h : newBySpec a deref buf t readonly pmem = .ok m) : Summed a m ∧ m.addr = buf := by
  rcases (newBySpec_ok _ _).mp h with ⟨g, hg, rfl⟩
  rcases byStrLoop_summed hd (fun entries he => by cases he) hg with ⟨hsum, haddr⟩
  exact ⟨hsum.change rfl rfl rfl, haddr⟩

theorem byDictLoop_summed {readonly page : Bool} {entries : List (Str × SpecObj)} {last : Option Mem}
    {addr x : Nat} {fs : List (Str × Mem)}
    (h : byDictLoop a deref readonly page last addr entries = .ok (x, fs)) :
    (∀ e ∈ fs, Summed a e.2) ∧ ((∀ e ∈ fs, e.2.bitnum = 0) →
      (∀ i (hi : i < fs.length), fs[i].2.addr ≡ addr + fieldBytes (fs.take i) [MOD a.word]) ∧
        x ≡ addr + fieldBytes fs [MOD a.word]) := by
  induction entries generalizing last addr x fs with
  | nil =>
      cases h
      constructor
      · intro e he
        cases he
      · intro _
        refine ⟨?_, rfl⟩
        intro i hi
        cases hi
  | cons e rest ih =>
      rcases e with ⟨key, value⟩
      rcases byDictLoop_ok _ _ h with ⟨t, f, size, fs₁, -, hf, hsize, hr, rfl⟩
      rcases newBySpec_summed hd hf with ⟨hsum, haddr⟩
      rcases ih hr with ⟨hsums, hplaces⟩
      -- behind a bit field only the offset of the bits is changed
      have hfollow : Summed a (follow last f) ∧ (follow last f).addr = addr := by
        rcases follow_eq last f with ⟨bitoff, heq⟩
        rw [heq]
        exact ⟨hsum.change rfl rfl rfl, haddr⟩
      refine ⟨List.forall_mem_cons.mpr ⟨hfollow.1, hsums⟩, ?_⟩
      intro hbits
      rcases List.forall_mem_cons.mp hbits with ⟨hbit, hbits⟩
      rcases hplaces hbits with ⟨hplaces, hx⟩
      have hbytes : size = (follow last f).bytes := by
        unfold efiMemGetSize at hsize
        rw [if_pos hbit] at hsize
        cases hsize
        rfl
      -- addresses wrap after each entry, and once is enough
      have hnext : ∀ y, (addr + size) % a.word + y ≡
          addr + ((follow last f).bytes + y) [MOD a.word] := by
        intro y
        rw [← hbytes, ← Nat.add_assoc]
        exact (Nat.mod_modEq _ _).add_right y
      constructor
      · intro i hi
        cases i with
        | zero =>
            show (follow last f).addr ≡ addr + 0 [MOD a.word]
            rw [hfollow.2]
            rfl
        | succ i => exact (hplaces i (Nat.lt_of_succ_lt_succ hi)).trans (hnext _)
      · exact hx.trans (hnext _)

theorem castByDict_summed {m m' : Mem} {entries : List (Str × SpecObj)}
    (h : castByDict a deref m entries = .ok m') : Summed a m' ∧ m'.addr = m.addr := by
  rcases bind_ok.mp h with ⟨⟨x, fs⟩, hfs, hok⟩
  cases hok
  rcases byDictLoop_summed hd hfs with ⟨hsums, hplaces⟩
  refine ⟨.intro ?_ ?_ ?_, rfl⟩
  · intro es he hbits
    cases he
    exact (hplaces hbits).1
  · intro es he hbits
    cases he
    have hx : a.sub x m.addr + m.addr ≡ fieldBytes fs + m.addr [MOD a.word] := by
      rw [Nat.add_comm (fieldBytes fs)]
      exact (a.sub_add_modEq x m.addr).trans (hplaces hbits).2
    have hmod := Nat.ModEq.add_right_cancel' _ hx
    unfold Nat.ModEq at hmod
    rw [Nat.mod_eq_of_lt (a.sub_lt _ _)] at hmod
    exact hmod
  · intro es he
    cases he
    exact hsums

end Deref

/-- What is built lies at its address, with its fields one behind the other. -/
theorem efiMemTypecast_summed {ns : Namespace} {n : Nat} {m m' : Mem} {d : TypeDesc} (hm : NoDict m)
    (h : efiMemTypecast a ns n m d = .ok m') : Summed a m' ∧ m'.addr = m.addr := by
  induction n generalizing m m' d with
  | zero => cases h
  | succ n ih =>
      have hd : ∀ (m m' : Mem) (name : Str), NoDict m → castByName a ns n m name = .ok m' →
          Summed a m' ∧ m'.addr = m.addr := by
        intro m m' name hm h
        rcases bind_ok.mp h with ⟨desc, -, h⟩
        exact ih hm h
      cases d with
      | none =>
          cases h
          exact ⟨NoDict.summed hm, rfl⟩
      | dict entries => exact castByDict_summed hd h
      | other => cases h
      | str t =>
          rw [efiMemTypecast_str] at h
          rcases bind_ok.mp h with ⟨m₁, hm₁, hsize⟩
          rcases byStrLoop_summed hd (m := { m with typespec := some (afterCount t) }) hm hm₁ with
            ⟨hsum, haddr⟩
          unfold Mem.fillSize at hsize
          split at hsize
          · rcases bind_ok.mp hsize with ⟨size, -, hsize⟩
            cases hsize
            exact ⟨hsum.change rfl rfl rfl, haddr⟩
          · cases hsize
            exact ⟨hsum, haddr⟩

theorem efiMemNew_summed {ns : Namespace} {n buf : Nat} {t : Str} {readonly pmem : Bool} {m : Mem}
    (h : efiMemNew a ns n buf (some t) readonly pmem = .ok m) : Summed a m ∧ m.addr = buf := by
  refine newBySpec_summed ?_ h
  intro m m' name hm h
  rcases bind_ok.mp h with ⟨desc, -, h⟩
  exact efiMemTypecast_summed hm h

end Summed

/-! ## Moving what was built at zero -/

/-- Moved to any address, the object is the one that is built there; and fields lie one behind
the other. -/
structure Relocates (a : Arch) (ns : Namespace) (n : Nat) (t : Str) (readonly pmem : Bool)
    (m : Mem) : Prop where
  moved : ∀ base < a.word,
    efiMemUpdateAddr a base m = efiMemNew a ns n base (some t) readonly pmem
  summed : Summed a m

/-- An object built at address zero can be moved right if and only if no text that leads to a
structure with fields starts with `F`, and every text that ends with a prototype of eight types
or more does, in the object and in the fields that are visited. -/
theorem relocates_iff (a : Arch) (ns : Namespace) (n : Nat) (t : Str) (readonly pmem : Bool)
    (m : Mem) (hm : efiMemNew a ns n 0 (some t) readonly pmem = .ok m) :
    Relocates a ns n t readonly pmem m ↔ (newShape ns n t).movable = true := by
  have hshift : ∀ base < a.word,
      efiMemNew a ns n base (some t) readonly pmem = .ok (m.shift a base) := by
    intro base hbase
    rw [efiMemNew_shift _ _ _ hbase, hm]
    rfl
  rw [← efiMemNew_shape hm, ← Mem.movable_eq, ← movable_iff (efiMemNew_fits hm)]
  constructor
  · intro h base hbase
    rw [h.moved base hbase, hshift base hbase]
  · intro h
    refine ⟨?_, (efiMemNew_summed hm).1⟩
    intro base hbase
    rw [h base hbase, hshift base hbase]

/-! ## A structure behind a prototype -/

/-- The names of a script that binds all of them to a structure of a byte and a word. -/
def pointNames : Namespace where
  Obj := Unit
  loadName := fun _ => .ok (some ())
  loadAttr := fun _ _ => .ok (some ())
  view := fun _ => .dict [(['x'], .str ['B']), (['y'], .str ['H'])]

/-- A field of one letter. -/
def letterField (a : Arch) (addr : Nat) (c : Char) : Mem :=
  Mem.sized a { blank addr false with typespec := some [c], typesize := typeSize a c } 1 false

/-- A point at address zero. -/
theorem castByName_point (self : Mem) (haddr : self.addr = 0) (hro : self.readonly = false)
    (hpage : self.page = false) :
    castByName .x64 pointNames 1 self ['#', 'T'] = .ok { self with
      typesize := 3
      fields := .dict [(['x'], letterField .x64 0 'B'), (['y'], letterField .x64 1 'H')] } := by
  have hx : newBySpec .x64 (castByName .x64 pointNames 0) 0 ['B'] false false =
      .ok (letterField .x64 0 'B') := efiMemNew_plain (by decide) (by decide)
  have hy : newBySpec .x64 (castByName .x64 pointNames 0) 1 ['H'] false false =
      .ok (letterField .x64 1 'H') := efiMemNew_plain (by decide) (by decide)
  show castByDict .x64 (castByName .x64 pointNames 0) self
    [(['x'], .str ['B']), (['y'], .str ['H'])] = _
  unfold castByDict
  rw [haddr, hro, hpage]
  simp only [byDictLoop, strGetStr, bind_ok_left, hx, follow]
  have hsx : efiMemGetSize .x64 (letterField .x64 0 'B') = .ok 1 := by decide
  have hsy : efiMemGetSize .x64 (letterField .x64 1 'H') = .ok 2 := by decide
  have hone : (0 + 1) % Arch.word .x64 = 1 := by decide
  simp only [hsx, bind_ok_left, hone, hy]
  rfl

/-- The text of a point. -/
theorem byStrLoop_point (self : Mem) (haddr : self.addr = 0) (hro : self.readonly = false)
    (hpage : self.page = false) :
    byStrLoop .x64 (castByName .x64 pointNames 1) self 0 false ['O', '#', 'T'] = .ok { self with
      typesize := 3
      fields := .dict [(['x'], letterField .x64 0 'B'), (['y'], letterField .x64 1 'H')] } := by
  have hcast := castByName_point { self with typesize := 0 } haddr hro hpage
  rw [byStrLoop_object _ _ _ _ rfl, hcast]
  rfl

/-- A point, with what is set in front of it. -/
def pointObj (typespec : Str) (type : ObjType) : Mem :=
  { blank 0 false with
    type := type
    typespec := some typespec
    typesize := 3
    size := 3
    fields := .dict [(['x'], letterField .x64 0 'B'), (['y'], letterField .x64 1 'H')] }

theorem efiMemNew_point :
    efiMemNew .x64 pointNames 1 0 (some ['O', '#', 'T']) false false =
      .ok (pointObj ['O', '#', 'T'] .mem) := by
  exact (newBySpec_ok _ _).mpr ⟨_, byStrLoop_point _ rfl rfl rfl, rfl⟩

theorem efiMemNew_function_point :
    efiMemNew .x64 pointNames 1 0 (some ['F', '(', ')', 'O', '#', 'T']) false false =
      .ok (pointObj ['F', '(', ')', 'O', '#', 'T'] .fptr) := by
  refine (newBySpec_ok _ _).mpr ⟨{ blank 0 false with
    type := .fptr
    typespec := some ['F', '(', ')', 'O', '#', 'T']
    typesize := 3
    fields := .dict [(['x'], letterField .x64 0 'B'), (['y'], letterField .x64 1 'H')] }, ?_, rfl⟩
  show byStrLoop _ _ _ 0 false ['F', '(', ')', 'O', '#', 'T'] = _
  have hprototype : prototype [] false [] ['(', ')', 'O', '#', 'T'] =
      ([none], false, ['O', '#', 'T']) := by decide
  rw [byStrLoop_function _ _ _ _ (by decide), hprototype]
  dsimp only
  rw [byStrLoop_point _ rfl rfl rfl]
  rfl

/-- A structure that is no function can be moved. -/
theorem relocates_iff_point :
    Relocates .x64 pointNames 1 ['O', '#', 'T'] false false (pointObj ['O', '#', 'T'] .mem) := by
  refine (relocates_iff .x64 pointNames 1 ['O', '#', 'T'] false false _ efiMemNew_point).mpr ?_
  rw [← efiMemNew_shape efiMemNew_point]
  decide

/-- The fields of a structure that stands behind a prototype stay at zero when it is moved. -/
theorem function_point_left_behind :
    efiMemNew .x64 pointNames 1 0 (some ['F', '(', ')', 'O', '#', 'T']) false false =
        .ok (pointObj ['F', '(', ')', 'O', '#', 'T'] .fptr) ∧
      efiMemUpdateAddr .x64 4096 (pointObj ['F', '(', ')', 'O', '#', 'T'] .fptr) =
        .ok { pointObj ['F', '(', ')', 'O', '#', 'T'] .fptr with addr := 4096 } ∧
      ¬ Relocates .x64 pointNames 1 ['F', '(', ')', 'O', '#', 'T'] false false
        (pointObj ['F', '(', ')', 'O', '#', 'T'] .fptr) := by
  refine ⟨efiMemNew_function_point, rfl, ?_⟩
  intro h
  have hmoved := h.moved 4096 (by decide)
  rw [efiMemNew_shift _ _ _ (by decide), efiMemNew_function_point] at hmoved
  have hfields := congrArg Mem.fields (Except.ok.inj hmoved)
  have hentries := Fields.dict.inj hfields
  have haddr : (letterField .x64 0 'B').addr = 4096 + 0 :=
    congrArg (fun e => e.2.addr) (List.cons.inj hentries).1
  cases haddr

end EfiLvgl.Uefi
