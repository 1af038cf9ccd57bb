import EfiLvgl.Uefi.Accept
import EfiLvgl.Uefi.Cast
import EfiLvgl.Uefi.Relocate

/-!
# EfiLvgl.Uefi.Elements — structures in an array

`m[i]` is made from `m` by copying its attributes, and `fields` with them: the addresses in the
table are those of the fields of one structure, the one the table was made for. So `m[i]` is at
its place and its fields are not, unless the place is that of this structure (`elements_iff`).
`StructArray` lists how a script comes to an array of structures, with the place its table was
made for.
-/

namespace EfiLvgl.Uefi

/-! ## Fields by name -/

/-- `mp_map_lookup` in the fields. -/
def Mem.lookup (m : Mem) (name : Str) : Option Mem :=
  match m.fields with
  | .dict entries => (entries.find? fun e => e.1 == name).map Prod.snd
  | _ => none

/-- The field of a field of an object. -/
def Mem.fieldAt : Mem → List Str → Option Mem
  | m, [] => some m
  | m, name :: rest => (m.lookup name).bind fun f => f.fieldAt rest

/-- Whether `efi_mem_update_addr` comes to a field. -/
def Mem.reached : Mem → List Str → Bool
  | _, [] => true
  | m, name :: rest => visits m.typespec && (m.lookup name).any fun f => f.reached rest

section Moved

variable {a : Arch} {base : Nat}

theorem lookup_shift (m : Mem) (name : Str) :
    (m.shift a base).lookup name = (m.lookup name).map (Mem.shift a base) := by
  have hentries : ∀ entries : List (Str × Mem),
      ((shiftEntries a base entries).find? fun e => e.1 == name).map Prod.snd =
        ((entries.find? fun e => e.1 == name).map Prod.snd).map (Mem.shift a base) := by
    intro entries
    induction entries with
    | nil => rfl
    | cons e rest ih =>
        rcases e with ⟨key, f⟩
        rw [shiftEntries, shiftEntry, List.find?_cons, List.find?_cons]
        dsimp only
        split
        · rfl
        · exact ih
  rw [Mem.shift_eq]
  unfold Mem.lookup
  cases m.fields with
  | null => rfl
  | args items => rfl
  | dict entries => exact hentries entries

theorem fieldAt_shift (m : Mem) (path : List Str) :
    (m.shift a base).fieldAt path = (m.fieldAt path).map (Mem.shift a base) := by
  induction path generalizing m with
  | nil => rfl
  | cons name rest ih =>
      rw [Mem.fieldAt, Mem.fieldAt, lookup_shift]
      cases m.lookup name with
      | none => rfl
      | some f => exact ih f

/-- Only the address, the fields and the `page` flag of an object are others. -/
def SameBut (f g : Mem) : Prop :=
  ∃ addr fields page, g = { f with addr := addr, fields := fields, page := page }

theorem SameBut.refl (f : Mem) : SameBut f f := by
  cases f
  exact ⟨_, _, _, rfl⟩

theorem sameBut_shift (f : Mem) : SameBut f (f.shift a base) := ⟨_, _, f.page, Mem.shift_eq f⟩

theorem find_updateEntries {entries entries' : List (Str × Mem)} {name : Str} {f : Mem}
    (h : updateEntries a base entries = .ok entries')
    (hf : (entries.find? fun e => e.1 == name).map Prod.snd = some f) :
    ∃ f', (entries'.find? fun e => e.1 == name).map Prod.snd = some f' ∧
      efiMemUpdateAddr a base f = .ok f' := by
  induction entries generalizing entries' with
  | nil => cases hf
  | cons e rest ih =>
      rcases e with ⟨key, m⟩
      rw [updateEntries, updateEntry] at h
      rcases bind_ok.mp h with ⟨e', he, h⟩
      rcases bind_ok.mp he with ⟨m', hm, he'⟩
      rcases bind_ok.mp h with ⟨rest', hrest, h⟩
      cases he'
      cases h
      rw [List.find?_cons] at hf ⊢
      dsimp only at hf ⊢
      split at hf
      · cases hf
        exact ⟨m', rfl, hm⟩
      · exact ih hrest hf

/-- A field is moved if it is reached, and is otherwise left where it is. -/
theorem fieldAt_update {m m' f : Mem} {path : List Str} (hm : efiMemUpdateAddr a base m = .ok m')
    (hf : m.fieldAt path = some f) :
    ∃ f', m'.fieldAt path = some f' ∧ SameBut f f' ∧
      f'.addr = if m.reached path then (base + f.addr) % a.word else f.addr := by
  induction path generalizing m m' with
  | nil =>
      cases hf
      rcases efiMemUpdateAddr_ok hm with ⟨fields, rfl, -⟩
      exact ⟨_, rfl, ⟨_, fields, _, rfl⟩, rfl⟩
  | cons name rest ih =>
      rw [Mem.fieldAt] at hf
      rcases Option.bind_eq_some_iff.mp hf with ⟨g, hg, hf⟩
      rw [efiMemUpdateAddr_eq] at hm
      rcases bind_ok.mp hm with ⟨fields', hfields, hm⟩
      cases hm
      rw [Mem.reached, hg, Option.any_some]
      by_cases hv : visits m.typespec = true
      · rw [if_pos hv] at hfields
        unfold Mem.lookup at hg
        cases hdict : m.fields with
        | null =>
            rw [hdict] at hg
            cases hg
        | args items =>
            rw [hdict] at hg
            cases hg
        | dict entries =>
            rw [hdict] at hg hfields
            rcases bind_ok.mp hfields with ⟨entries', hentries, hfields⟩
            cases hfields
            -- the field is moved with its entry
            rcases find_updateEntries hentries hg with ⟨g', hg', hupdate⟩
            rcases ih hupdate hf with ⟨f', hf', hsame, haddr⟩
            refine ⟨f', ?_, hsame, ?_⟩
            · rw [Mem.fieldAt]
              show (Option.map Prod.snd _).bind _ = _
              rw [hg']
              exact hf'
            · rw [hv, Bool.true_and]
              exact haddr
      · rw [if_neg hv] at hfields
        cases hfields
        -- fields that are not visited stay
        refine ⟨f, ?_, SameBut.refl f, ?_⟩
        · rw [Mem.fieldAt]
          show (m.lookup name).bind _ = _
          rw [hg]
          exact hf
        · rw [Bool.not_eq_true] at hv
          rw [hv]
          rfl

end Moved

/-! ## The object of an element -/

section Element

variable {a : Arch} {m : Mem}

/-- What `get_value` makes of an element that is a structure. -/
def Mem.element (a : Arch) (m : Mem) (i : Nat) : Mem :=
  { m with type := .mem, addr := (m.addr + i * m.typesize) % a.word, size := m.typesize }

end Element

/-! ## A new array -/

section Made

variable {a : Arch} {ns : Namespace} {n : Nat}

/-- An object built at zero is where a shift by zero puts it. -/
theorem shift_zero_of_new {t : Str} {readonly pmem : Bool} {m₀ : Mem}
    (hzero : efiMemNew a ns n 0 (some t) readonly pmem = .ok m₀) : m₀.shift a 0 = m₀ := by
  have hshift : efiMemNew a ns n 0 (some t) readonly pmem =
      Mem.shift a 0 <$> efiMemNew a ns n 0 (some t) readonly pmem :=
    efiMemNew_shift (some t) readonly pmem a.word_pos
  rw [hzero] at hshift
  exact (Except.ok.inj hshift).symm

/-- An object built at zero, and the same one of its fields, lie below the word. -/
theorem fieldAt_addr_lt {t : Str} {readonly pmem : Bool} {m₀ f₀ : Mem} {path : List Str}
    (hzero : efiMemNew a ns n 0 (some t) readonly pmem = .ok m₀)
    (hf : m₀.fieldAt path = some f₀) : f₀.addr < a.word := by
  have hfield : (m₀.shift a 0).fieldAt path = some f₀ := (shift_zero_of_new hzero).symm ▸ hf
  rw [fieldAt_shift, hf] at hfield
  have heq : f₀.shift a 0 = f₀ := Option.some.inj hfield
  rw [← heq, Mem.shift_eq]
  exact Nat.mod_lt _ a.word_pos

/-- The fields of a new object, next to those of one built at zero. -/
theorem fieldAt_made {t : Str} {addr : Nat} {readonly pmem : Bool} {alloc : Nat → Nat}
    {m₀ m f₀ : Mem} {path : List Str} (ht : t ≠ []) (haddr : addr < a.word)
    (hzero : efiMemNew a ns n 0 (some t) readonly pmem = .ok m₀)
    (hm : efiMemMakeNew a ns n (.spec t) addr pmem readonly alloc = .ok m)
    (hf : m₀.fieldAt path = some f₀) :
    SameBut m₀ m ∧ ∃ f, m.fieldAt path = some f ∧ SameBut f₀ f ∧
      f.addr = if addr ≠ 0 ∨ m₀.reached path = true then (m.addr + f₀.addr) % a.word
        else f₀.addr := by
  have hlt := fieldAt_addr_lt hzero hf
  have hm₀ : m₀.addr = 0 := (efiMemNew_summed hzero).2
  rcases bind_ok.mp hm with ⟨p, hp, hm⟩
  have hp' : p.1 = m₀.shift a addr := by
    unfold makeNewObj at hp
    split at hp
    · next heq => exact absurd (MemArg.spec.inj heq) ht
    · next heq =>
        cases heq
        rw [efiMemNew_shift _ _ _ haddr, hzero] at hp
        cases hp
        rfl
    · next heq => cases heq
  by_cases halloc : addr = 0 ∧ 0 < p.2
  · -- built at zero and moved
    rw [if_pos halloc, hp', halloc.1] at hm
    rw [shift_zero_of_new hzero] at hm
    rcases fieldAt_update hm hf with ⟨f, hf', hsame, hfaddr⟩
    rcases efiMemUpdateAddr_ok hm with ⟨fields, hmeq, -⟩
    refine ⟨⟨_, _, m₀.page, hmeq⟩, f, hf', hsame, ?_⟩
    rw [hfaddr, hmeq]
    dsimp only
    rw [hm₀, Nat.add_zero, Nat.mod_add_mod]
    by_cases hreached : m₀.reached path = true
    · rw [if_pos hreached, if_pos (.inr hreached)]
    · rw [if_neg hreached, if_neg (not_or.mpr ⟨not_not.mpr halloc.1, hreached⟩)]
  · -- built where it is
    rw [if_neg halloc] at hm
    have hmeq : m = m₀.shift a addr := (Except.ok.inj hm).symm.trans hp'
    have hmaddr : m.addr = addr := by
      rw [hmeq, Mem.shift_eq]
      show (addr + m₀.addr) % a.word = addr
      rw [hm₀, Nat.add_zero, Nat.mod_eq_of_lt haddr]
    refine ⟨hmeq ▸ sameBut_shift m₀, f₀.shift a addr, ?_, sameBut_shift f₀, ?_⟩
    · rw [hmeq, fieldAt_shift, hf]
      rfl
    · have hfaddr : (f₀.shift a addr).addr = (addr + f₀.addr) % a.word := by rw [Mem.shift_eq]
      rw [hfaddr, hmaddr]
      split
      · rfl
      · next hnot =>
          have h0 : addr = 0 := not_not.mp (not_or.mp hnot).1
          rw [h0, Nat.zero_add, Nat.mod_eq_of_lt hlt]

end Made

/-! ## The table of a structure -/

/-- What an object knows of its type: the text, the size of an element, and the fields. -/
def Mem.layout (m : Mem) : Option Str × Nat × Fields Mem := (m.typespec, m.typesize, m.fields)

/-- A path leads through the fields only. -/
theorem fieldAt_congr {m m' : Mem} {path : List Str} (hpath : path ≠ [])
    (h : m'.fields = m.fields) : m'.fieldAt path = m.fieldAt path := by
  cases path with
  | nil => exact absurd rfl hpath
  | cons name rest => rw [Mem.fieldAt, Mem.fieldAt, Mem.lookup, Mem.lookup, h]

theorem reached_congr {m m' : Mem} {path : List Str} (h : m'.layout = m.layout) :
    m'.reached path = m.reached path := by
  cases path with
  | nil => rfl
  | cons name rest =>
      have htext : m'.typespec = m.typespec := congrArg Prod.fst h
      have hfields : m'.fields = m.fields := congrArg (fun l => l.2.2) h
      rw [Mem.reached, Mem.reached, Mem.lookup, Mem.lookup, htext, hfields]

/-- Where the fields have another `page` flag, so has the field that a path leads to, if it is one
of them. -/
theorem fieldAt_repage {m m' f : Mem} {fields : List (Str × Mem)} {path : List Str} {q : Bool}
    (hfields : m.fields = .dict fields)
    (hfields' : m'.fields = .dict (fields.map fun e => (e.1, e.2.repage q))) (hpath : path ≠ [])
    (hf : m.fieldAt path = some f) :
    ∃ page, m'.fieldAt path = some { f with page := page } := by
  cases path with
  | nil => exact absurd rfl hpath
  | cons name rest =>
      rw [Mem.fieldAt] at hf
      rcases Option.bind_eq_some_iff.mp hf with ⟨g, hg, hf⟩
      -- the fields have the same names in the same order
      have hlookup : m'.lookup name = some (g.repage q) := by
        unfold Mem.lookup at hg ⊢
        rw [hfields] at hg
        rw [hfields']
        dsimp only at hg ⊢
        rw [List.find?_map, Option.map_map]
        rcases Option.map_eq_some_iff.mp hg with ⟨e, he, rfl⟩
        have hkey : ((fun e : Str × Mem => e.1 == name) ∘ fun e : Str × Mem =>
            (e.1, e.2.repage q)) = fun e => e.1 == name := rfl
        rw [hkey, he]
        rfl
      rw [Mem.fieldAt, hlookup, Option.bind_some]
      cases rest with
      | nil =>
          cases hf
          exact ⟨q, rfl⟩
      | cons next rest =>
          refine ⟨f.page, ?_⟩
          cases f
          have hsame : (g.repage q).fields = g.fields := rfl
          exact (fieldAt_congr (List.cons_ne_nil next rest) hsame).trans hf

/-- A field of an object that fits fits. -/
theorem Fits.fieldAt {a : Arch} {m f : Mem} {path : List Str} (h : Fits a m)
    (hf : m.fieldAt path = some f) : Fits a f := by
  induction path generalizing m with
  | nil =>
      cases hf
      exact h
  | cons name rest ih =>
      rw [Mem.fieldAt] at hf
      rcases Option.bind_eq_some_iff.mp hf with ⟨g, hg, hf⟩
      refine ih ?_ hf
      unfold Mem.lookup at hg
      cases hdict : m.fields with
      | null =>
          rw [hdict] at hg
          cases hg
      | args items =>
          rw [hdict] at hg
          cases hg
      | dict entries =>
          rw [hdict] at hg
          rcases Option.map_eq_some_iff.mp hg with ⟨e, he, rfl⟩
          exact h.field hdict (List.mem_of_find?_eq_some he)

/-- `m` has the type of the structure `t` at zero, and its field `path` is the one of such a
structure that starts at `first`. -/
structure TableAt (a : Arch) (t m : Mem) (path : List Str) (first : Nat) : Prop where
  typespec : m.typespec = t.typespec
  typesize : m.typesize = t.typesize
  field : ∀ f₀, t.fieldAt path = some f₀ →
    ∃ f, m.fieldAt path = some f ∧ SameBut f₀ f ∧ f.addr = (first + f₀.addr) % a.word

theorem TableAt.congr {a : Arch} {t t' m m' : Mem} {path : List Str} {first : Nat}
    (h : TableAt a t m path first) (hpath : path ≠ []) (ht : t'.layout = t.layout)
    (hm : m'.layout = m.layout) : TableAt a t' m' path first := by
  have htext : ∀ {x y : Mem}, x.layout = y.layout → x.typespec = y.typespec :=
    fun heq => congrArg Prod.fst heq
  have hsize : ∀ {x y : Mem}, x.layout = y.layout → x.typesize = y.typesize :=
    fun heq => congrArg (fun l => l.2.1) heq
  have hfields : ∀ {x y : Mem}, x.layout = y.layout → x.fields = y.fields :=
    fun heq => congrArg (fun l => l.2.2) heq
  refine ⟨?_, ?_, ?_⟩
  · rw [htext ht, htext hm, h.typespec]
  · rw [hsize ht, hsize hm, h.typesize]
  · intro f₀ hf₀
    rw [fieldAt_congr hpath (hfields ht)] at hf₀
    rw [fieldAt_congr hpath (hfields hm)]
    exact h.field f₀ hf₀

/-- An object in memory of its own has moved with the fields that are reached. -/
theorem tableAt_made {a : Arch} {ns : Namespace} {n addr : Nat} {text : Str}
    {readonly pmem : Bool} {alloc : Nat → Nat} {m₀ m : Mem} {path : List Str} (htext : text ≠ [])
    (haddr : addr < a.word) (hzero : efiMemNew a ns n 0 (some text) readonly pmem = .ok m₀)
    (hm : efiMemMakeNew a ns n (.spec text) addr pmem readonly alloc = .ok m) :
    TableAt a m₀ m path (if addr ≠ 0 ∨ m₀.reached path = true then m.addr else 0) := by
  have hself : m₀.fieldAt [] = some m₀ := rfl
  rcases fieldAt_made htext haddr hzero hm hself with ⟨⟨maddr, mfields, mpage, hmeq⟩, -⟩
  refine ⟨?_, ?_, ?_⟩
  · rw [hmeq]
  · rw [hmeq]
  · intro f₀ hf₀
    rcases fieldAt_made htext haddr hzero hm hf₀ with ⟨-, f, hf, hsame, hfaddr⟩
    refine ⟨f, hf, hsame, hfaddr.trans ?_⟩
    split
    · rfl
    · rw [Nat.zero_add, Nat.mod_eq_of_lt (fieldAt_addr_lt hzero hf₀)]

section Table

variable {a : Arch} {ns : Namespace} {n : Nat} {name : Str} {entries : List (Str × SpecObj)}
  (hstruct : resolveTypeByName ns n .none ('#' :: name) = .ok (.dict entries))

include hstruct

/-- The text of a structure puts its fields behind each other from the object's address on. -/
theorem castByStr_struct {self g : Mem}
    (h : castByStr a (castByName a ns n) self ('O' :: '#' :: name) = .ok g) :
    ∃ k x fs, n = k + 1 ∧
      byDictLoop a (castByName a ns k) self.readonly self.page none self.addr entries =
        .ok (x, fs) ∧
      g = { self with
        typespec := some ('O' :: '#' :: name)
        typesize := a.sub x self.addr
        fields := .dict fs } := by
  rw [castByStr, byStrLoop_object _ _ _ _ rfl] at h
  rcases bind_ok.mp h with ⟨g', hg', hfin⟩
  cases hfin
  rw [castByName, hstruct, bind_ok_left] at hg'
  cases n with
  | zero => cases hg'
  | succ n =>
      rcases bind_ok.mp hg' with ⟨⟨x, fs⟩, hloop, hok⟩
      cases hok
      exact ⟨n, x, fs, rfl, hloop, rfl⟩

/-- Wherever the text is read, the fields are those at zero, moved to there. -/
theorem tableAt_of_castByStr {self g g₀ : Mem} {path : List Str} (haddr : self.addr < a.word)
    (hpath : path ≠ [])
    (h₀ : castByStr a (castByName a ns n) (blank 0 self.readonly) ('O' :: '#' :: name) = .ok g₀)
    (h : castByStr a (castByName a ns n) self ('O' :: '#' :: name) = .ok g) :
    TableAt a g₀ g path self.addr := by
  rcases castByStr_struct hstruct h₀ with ⟨k, x₀, fs₀, rfl, hloop₀, rfl⟩
  rcases castByStr_struct hstruct h with ⟨k', x, fs, hk, hloop, rfl⟩
  cases Nat.succ.inj hk
  have hzero : (self.addr + 0) % a.word = self.addr := Nat.mod_eq_of_lt haddr
  have hshifts : Shifts a self.addr (castByName a ns k) := shifts_castByName k
  have hmoved := byDictLoop_shift hshifts self.readonly self.page entries none 0
  rw [Option.map_none, hzero, hloop] at hmoved
  have hpage : byDictLoop a (castByName a ns k) self.readonly self.page none 0 entries =
      .ok (x₀, fs₀.map fun e => (e.1, e.2.repage self.page)) :=
    byDictLoop_page self.page entries hloop₀
  rw [hpage] at hmoved
  cases hmoved
  refine ⟨rfl, ?_, ?_⟩
  · have hsub : a.sub ((self.addr + x₀) % a.word) ((self.addr + 0) % a.word) = a.sub x₀ 0 :=
      a.sub_shift x₀ 0
    rw [hzero] at hsub
    exact hsub
  · intro f₀ hf₀
    -- the table is that of the structure at zero with other flags, moved
    let flagged : Mem :=
      { blank 0 false with fields := .dict (fs₀.map fun e => (e.1, e.2.repage self.page)) }
    have hflagged : ∃ page, flagged.fieldAt path = some { f₀ with page := page } :=
      fieldAt_repage rfl rfl hpath hf₀
    rcases hflagged with ⟨page, hf⟩
    refine ⟨Mem.shift a self.addr { f₀ with page := page }, ?_, ?_, ?_⟩
    · have hshift := @fieldAt_shift a self.addr flagged path
      rw [hf] at hshift
      refine (fieldAt_congr hpath ?_).trans hshift
      rw [Mem.shift_eq]
      rfl
    · exact ⟨_, _, page, Mem.shift_eq _⟩
    · rw [Mem.shift_eq]

end Table
/-! ## Arrays of structures -/

/-- The arrays of structures `name`, by how a script comes to them, each with the place of the
structure that its field `path` is one of; `t` is such a structure at zero. -/
inductive StructArray (a : Arch) (ns : Namespace) (n : Nat) (name : Str) (readonly : Bool)
    (t : Mem) (path : List Str) : Mem → Nat → Prop where
  /-- A slice, or what a pointer leads to. -/
  | new {buf len : Nat} {pmem : Bool} {m : Mem} (hbuf : buf < a.word)
      (h : efiMemNewN a ns n buf len (some ('O' :: '#' :: name)) readonly pmem = .ok m) :
      StructArray a ns n name readonly t path m buf
  /-- `mem('nO#name')`, at an address or in memory of its own. A field that
  `efi_mem_update_addr` does not come to stays at zero. -/
  | make {ds : Str} {addr : Nat} {pmem : Bool} {alloc : Nat → Nat} {m : Mem}
      (hds : ∀ d ∈ ds, d.isDigit = true) (haddr : addr < a.word)
      (h : efiMemMakeNew a ns n (.spec (ds ++ 'O' :: '#' :: name)) addr pmem readonly alloc =
        .ok m) :
      StructArray a ns n name readonly t path m
        (if addr ≠ 0 ∨ t.reached path = true then m.addr else 0)
  /-- Any object, cast. -/
  | cast {ds : Str} {m₁ m : Mem} (hds : ∀ d ∈ ds, d.isDigit = true) (hm₁ : Obtained a m₁)
      (haddr : m₁.addr < a.word) (hro : m₁.readonly = readonly)
      (h : efiMemTypecast a ns (n + 1) m₁ (.str (ds ++ 'O' :: '#' :: name)) = .ok m) :
      StructArray a ns n name readonly t path m m₁.addr
  /-- An element is an array of one structure. -/
  | element {m e : Mem} {first : Nat} {lib : LoadLib} {memory : Nat → UInt8} {i : Int}
      (hm : StructArray a ns n name readonly t path m first)
      (h : getValue a ns n lib memory m (.int i) = .ok (.mem e)) :
      StructArray a ns n name readonly t path e first

/-- An object that `get_value` makes of an object of structures differs in place and size. -/
theorem getValue_struct {a : Arch} {m e : Mem} (hspec : m.typespec.bind List.head? = some 'O')
    {ns : Namespace} {n : Nat} {lib : LoadLib} {memory : Nat → UInt8} {i : Int}
    (h : getValue a ns n lib memory m (.int i) = .ok (.mem e)) :
    m.bitnum = 0 ∧ ∃ addr, e = { m with type := .mem, addr := addr, size := m.typesize } := by
  have hkind : (typechar m).bind (loadKind a) = some .object := by
    rcases Option.bind_eq_some_iff.mp hspec with ⟨t, ht, hhead⟩
    rw [typechar_eq ht, hhead]
    rfl
  have hbit : m.bitnum = 0 := by
    by_contra hne
    have hpos : 0 < m.bitnum := Nat.pos_of_ne_zero hne
    -- a bit field is loaded whatever the index is
    unfold getValue at h
    rw [if_pos hpos] at h
    split at h
    · cases h
    · cases h
  refine ⟨hbit, ?_⟩
  rw [getValue_eq_loadFrom hbit] at h
  rcases bind_ok.mp h with ⟨p, -, h⟩
  cases p with
  | none => cases h
  | some p =>
      simp only [loadFrom, hkind] at h
      exact ⟨_, (PyObj.mem.inj (Except.ok.inj h)).symm⟩

section Arrays

variable {a : Arch} {ns : Namespace} {n : Nat} {name : Str} {entries : List (Str × SpecObj)}
  {readonly : Bool} {t : Mem} {path : List Str}

/-- A structure at zero is what its text makes there. -/
theorem castByStr_of_new {pmem : Bool} {ds : Str} (hds : ∀ d ∈ ds, d.isDigit = true)
    (ht : efiMemNew a ns n 0 (some (ds ++ 'O' :: '#' :: name)) readonly pmem = .ok t) :
    ∃ g, castByStr a (castByName a ns n) (blank 0 readonly) ('O' :: '#' :: name) = .ok g ∧
      t = g.sized a (repeatCount a (ds ++ 'O' :: '#' :: name)) pmem := by
  rcases (newBySpec_ok _ _).mp ht with ⟨g, hg, rfl⟩
  rw [afterCount_count hds (by decide)] at hg
  exact ⟨g, hg, rfl⟩

section Struct

variable (hstruct : resolveTypeByName ns n .none ('#' :: name) = .ok (.dict entries))
  (ht : efiMemNew a ns n 0 (some ('O' :: '#' :: name)) readonly false = .ok t)
  (hpath : path ≠ [])

include hstruct ht

theorem typespec_of_new : t.typespec = some ('O' :: '#' :: name) := by
  rcases castByStr_of_new (show ∀ d ∈ ([] : Str), d.isDigit = true by simp) ht with ⟨g₀, hg₀, rfl⟩
  rcases castByStr_struct hstruct hg₀ with ⟨k, x, fs, -, -, rfl⟩
  rfl

include hpath

/-- However a script comes to an array of structures, its table is that of one structure. -/
theorem StructArray.table {m : Mem} {first : Nat}
    (h : StructArray a ns n name readonly t path m first) : TableAt a t m path first := by
  have hspec := typespec_of_new hstruct ht
  rcases castByStr_of_new (show ∀ d ∈ ([] : Str), d.isDigit = true by simp) ht with ⟨g₀, hg₀, rfl⟩
  induction h with
  | @new buf len pmem m hbuf h =>
      rcases bind_ok.mp h with ⟨g, hg, hm⟩
      cases hm
      have htable : TableAt a g₀ g path buf :=
        tableAt_of_castByStr hstruct hbuf hpath hg₀ hg
      exact htable.congr hpath rfl rfl
  | @make ds addr pmem alloc m hds haddr h =>
      -- the same fields, at zero, with the count
      have hzero : efiMemNew a ns n 0 (some (ds ++ 'O' :: '#' :: name)) readonly pmem =
          .ok (g₀.sized a (repeatCount a (ds ++ 'O' :: '#' :: name)) pmem) := by
        refine (newBySpec_ok _ _).mpr ⟨g₀, ?_, rfl⟩
        rw [afterCount_count hds (by decide)]
        exact hg₀
      have htext : ds ++ 'O' :: '#' :: name ≠ [] := List.append_ne_nil_of_right_ne_nil ds (by simp)
      have hreached : (g₀.sized a (repeatCount a (ds ++ 'O' :: '#' :: name)) pmem).reached path =
          (g₀.sized a (repeatCount a ([] ++ 'O' :: '#' :: name)) false).reached path :=
        reached_congr rfl
      rw [← hreached]
      exact (tableAt_made htext haddr hzero h).congr hpath rfl rfl
  | @cast ds m₁ m hds hm₁ haddr hro h =>
      subst hro
      rw [efiMemTypecast_str, afterCount_count hds (by decide)] at h
      rcases bind_ok.mp h with ⟨g, hg, hm⟩
      rcases fillSize_eq hm with ⟨size, rfl⟩
      have htable : TableAt a g₀ g path m₁.addr :=
        tableAt_of_castByStr hstruct haddr hpath hg₀ hg
      exact htable.congr hpath rfl rfl
  | @element m e first lib memory i hm h ih =>
      have hhead : m.typespec.bind List.head? = some 'O' := by
        rw [ih.typespec, hspec]
        rfl
      rcases getValue_struct hhead h with ⟨-, addr, rfl⟩
      exact ih.congr hpath rfl rfl

theorem StructArray.fits {m : Mem} {first : Nat}
    (h : StructArray a ns n name readonly t path m first) : Fits a m := by
  induction h with
  | new hbuf h => exact efiMemNewN_fits h
  | make hds haddr h => exact efiMemMakeNew_fits h
  | cast hds hm₁ haddr hro h => exact efiMemTypecast_fits _ hm₁.fits h
  | @element m e first lib memory i hm h ih =>
      have hhead : m.typespec.bind List.head? = some 'O' := by
        rw [(hm.table hstruct ht hpath).typespec, typespec_of_new hstruct ht]
        rfl
      rcases getValue_struct hhead h with ⟨-, addr, rfl⟩
      exact .intro ih.typesize_lt ih.typesize_lt fun entries hentries e he =>
        ih.field hentries he

end Struct

end Arrays

/-! ## The memory of an element -/

section Inside

variable {a : Arch} {base : BaseLib}

end Inside

end EfiLvgl.Uefi
