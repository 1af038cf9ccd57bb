import EfiLvgl.Lib.Run
import EfiLvgl.Uefi.Typecast

/-!
# EfiLvgl.Uefi.Cast — what `CAST` leaves of the former type

`CAST` reads the new description into the object as it is: each letter sets the
attributes it is about and no others. `Writes` lists, for a text and the aliases it
goes through, which attributes it sets (`writesStr`).

Casting is compared with the construction of a new object by running both side by
side: `Tracks` says that an attribute is equal in both once it has been set, and
until then still the old one here and blank there. It is kept by every step of the
loop (`byStrLoop_sim`), by the layout of a structure (`castByDict_sim`) and, by
induction on the depth of aliases, by a whole cast (`efiMemTypecast_sim`).

So the type is replaced exactly when every attribute that the text does not set is
blank already (`Replaceable`, `cast_replaces_type`).
-/

namespace EfiLvgl.Uefi

/-! ## The attributes a text sets -/

/-- Which attributes have been set. `wide` records a `:` that is read while
`typesize` is still the one of the former type. -/
structure Writes where
  typesize : Bool
  bitoff : Bool
  bitnum : Bool
  type : Bool
  fields : Bool
  hasvarg : Bool
  wide : Bool
deriving DecidableEq, Repr

/-- Nothing has been set. -/
def Writes.none : Writes := ⟨false, false, false, false, false, false, false⟩

/-- The attributes set by the loop over a text; `derefW` are those set through
`#name`. -/
def writesLoop (derefW : Writes → Str → Writes) (w : Writes) (bitfield : Bool) : Str → Writes
  | [] => { w with bitnum := w.bitnum || bitfield }
  | c :: rest =>
      if c.isDigit then writesLoop derefW w bitfield rest
      else if c.isAlpha then
        let w := { w with typesize := true }
        if c = 'O' then
          let w := derefW w rest
          { w with bitnum := w.bitnum || bitfield }
        else if c = 'F' then
          let w := { w with type := true }
          if rest = [] then { w with bitnum := w.bitnum || bitfield }
          else
            let p := prototype [] false [] rest
            writesLoop derefW { w with fields := true, hasvarg := w.hasvarg || p.2.1 } bitfield
              p.2.2
        else if c = 'T' ∨ c = 'P' then { w with bitnum := w.bitnum || bitfield }
        else if c = 'G' then { w with type := true, bitnum := w.bitnum || bitfield }
        else writesLoop derefW w bitfield rest
      else if c = ':' then
        writesLoop derefW { w with bitoff := true, wide := w.wide || !w.typesize } true rest
      else w
termination_by text => text.length
decreasing_by
  all_goals simp
  have := prototype_length [] false [] rest
  omega

/-- The attributes set by a cast. -/
def writesDesc (ns : Namespace) : Nat → Writes → TypeDesc → Writes
  | 0, w, _ => w
  | n + 1, w, typedesc =>
      let derefW := fun w name =>
        match resolveTypeByName ns n .none name with
        | .ok desc => writesDesc ns n w desc
        | .error _ => w
      match typedesc with
      | .none => { w with typesize := true }
      | .dict _ => { w with typesize := true, fields := true }
      | .str typespec => writesLoop derefW w false (afterCount typespec)
      | .other => w

/-- The attributes set through `#name`. -/
def writesDeref (ns : Namespace) (n : Nat) (w : Writes) (name : Str) : Writes :=
  match resolveTypeByName ns n .none name with
  | .ok desc => writesDesc ns n w desc
  | .error _ => w

/-- The attributes set by casting to a text. -/
def writesStr (ns : Namespace) (n : Nat) (typespec : Str) : Writes :=
  writesLoop (writesDeref ns n) Writes.none false (afterCount typespec)

/-! ## Type parts -/

/-- Fields without their `page` flag, which, like that of the object itself, is not
about the type. -/
def typeFields (fields : Fields Mem) : Fields Mem :=
  fields.map fun f => { f with page := false }

/-- The attributes of an object that make up its type. -/
structure TypePart where
  type : ObjType
  fields : Fields Mem
  bitoff : Nat
  bitnum : Nat
  hasvarg : Bool
  typespec : Option Str
  typesize : Nat

/-- The type of an object. -/
def Mem.typePart (m : Mem) : TypePart where
  type := m.type
  fields := typeFields m.fields
  bitoff := m.bitoff
  bitnum := m.bitnum
  hasvarg := m.hasvarg
  typespec := m.typespec
  typesize := m.typesize

theorem typeFields_eq_null {fields : Fields Mem} :
    typeFields fields = .null ↔ fields = .null := by
  cases fields <;> simp [typeFields, Fields.map]

/-! ## Running a cast beside a construction -/

/-- An attribute is `x` in the object that is cast and `y` in the one that is built:
both the same once it has been set, before that the old one `x₀` and blank `y₀`. -/
def Kept {α : Type} (written : Bool) (x y x₀ y₀ : α) : Prop :=
  if written then x = y else x = x₀ ∧ y = y₀

/-- A written attribute is the same on both sides. -/
theorem Kept.written {α : Type} {x y x₀ y₀ : α} (h : x = y) : Kept true x y x₀ y₀ := h

/-- The object `m` being cast, `m₀` at the start, and the object `f` being built
agree on what has been set so far. -/
structure Tracks (m₀ : Mem) (w : Writes) (m f : Mem) : Prop where
  still : m.addr = m₀.addr ∧ m.readonly = m₀.readonly ∧ m.page = m₀.page
  addr : m.addr = f.addr
  readonly : m.readonly = f.readonly
  typespec : m.typespec = f.typespec
  typesize : Kept w.typesize m.typesize f.typesize m₀.typesize 0
  bitoff : Kept w.bitoff m.bitoff f.bitoff m₀.bitoff 0
  bitnum : Kept w.bitnum m.bitnum f.bitnum m₀.bitnum 0
  type : Kept w.type m.type f.type m₀.type .mem
  fields : Kept w.fields (typeFields m.fields) (typeFields f.fields) (typeFields m₀.fields) .null
  hasvarg : Kept w.hasvarg m.hasvarg f.hasvarg m₀.hasvarg false
  size : m₀.size ≠ 0 → m.size ≠ 0
  wide : w.wide = true → m₀.typesize ≤ 8

/-- Why a cast may stop although the construction goes on: a `:` meets the former
`typesize`, or the object has no size and none can be computed. -/
def Blocked (a : Arch) (m₀ : Mem) (w : Writes) (f : Mem) : Prop :=
  (w.wide = true ∧ 8 < m₀.typesize) ∨
    (m₀.size = 0 ∧ f.typesize * 8 % a.word = 0 ∧ (w.bitnum = true ∨ m₀.bitnum ≠ 0))

/-- The cast returns and still agrees, or it is blocked. -/
def Outcome (a : Arch) (m₀ : Mem) (w : Writes) (r : Res Mem) (f : Mem) : Prop :=
  (∃ m, r = .ok m ∧ Tracks m₀ w m f) ∨ ((∃ e, r = .error e) ∧ Blocked a m₀ w f)

/-- A construction starts from a blank object. -/
theorem Tracks.start (m : Mem) (typespec : Option Str) :
    Tracks m Writes.none { m with typespec := typespec }
      { blank m.addr m.readonly with typespec := typespec } where
  still := ⟨rfl, rfl, rfl⟩
  addr := rfl
  readonly := rfl
  typespec := rfl
  typesize := ⟨rfl, rfl⟩
  bitoff := ⟨rfl, rfl⟩
  bitnum := ⟨rfl, rfl⟩
  type := ⟨rfl, rfl⟩
  fields := ⟨rfl, rfl⟩
  hasvarg := ⟨rfl, rfl⟩
  size := id
  wide := by simp [Writes.none]

section Step

variable {a : Arch} {m₀ m f : Mem} {w : Writes}

theorem Tracks.setTypespec (h : Tracks m₀ w m f) (t : Option Str) :
    Tracks m₀ w { m with typespec := t } { f with typespec := t } :=
  { h with typespec := rfl }

theorem Tracks.setTypesize (h : Tracks m₀ w m f) (n : Nat) :
    Tracks m₀ { w with typesize := true } { m with typesize := n } { f with typesize := n } :=
  { h with typesize := Kept.written rfl }

theorem Tracks.setType (h : Tracks m₀ w m f) (t : ObjType) :
    Tracks m₀ { w with type := true } { m with type := t } { f with type := t } :=
  { h with type := Kept.written rfl }

theorem Tracks.setBitoff (h : Tracks m₀ w m f) (n : Nat)
    (hwide : w.typesize = false → m₀.typesize ≤ 8) :
    Tracks m₀ { w with bitoff := true, wide := w.wide || !w.typesize } { m with bitoff := n }
      { f with bitoff := n } :=
  { h with
    bitoff := Kept.written rfl
    wide := by
      intro hw
      simp only [Bool.or_eq_true, Bool.not_eq_true'] at hw
      rcases hw with hw | hw
      · exact h.wide hw
      · exact hwide hw }

theorem Tracks.setArgs (h : Tracks m₀ w m f) (items : List (Option Str)) (varg : Bool) :
    Tracks m₀ { w with fields := true, hasvarg := w.hasvarg || varg }
      { m with fields := .args items, hasvarg := m.hasvarg || varg }
      { f with fields := .args items, hasvarg := f.hasvarg || varg } :=
  { h with
    fields := Kept.written rfl
    hasvarg := by
      have hv := h.hasvarg
      cases varg
      · simpa using hv
      · simp [Kept] }

/-- Behind the loop `bitnum` is set on both sides or on none. -/
theorem Tracks.finish (h : Tracks m₀ w m f) (num : Nat) (bitfield : Bool) :
    Tracks m₀ { w with bitnum := w.bitnum || bitfield } (finish m num bitfield)
      (finish f num bitfield) := by
  cases bitfield
  · simpa [Uefi.finish] using h
  · exact { h with bitnum := by simp [Kept, Uefi.finish] }

/-- What blocks a cast does not go away behind the loop. -/
theorem Blocked.finish (h : Blocked a m₀ w f) (num : Nat) (bitfield : Bool) :
    Blocked a m₀ { w with bitnum := w.bitnum || bitfield } (finish f num bitfield) := by
  rcases h with hw | ⟨hs, ht, hb⟩
  · exact .inl hw
  · refine .inr ⟨hs, ?_, ?_⟩
    · cases bitfield <;> simpa [Uefi.finish] using ht
    · rcases hb with hb | hb
      · exact .inl (by simp [hb])
      · exact .inr hb

end Step

/-! ## The loop over a text -/

/-- `deref` sets what `derefW` says, and a `:` that was read stays recorded. -/
structure SimDeref (a : Arch) (deref : Mem → Str → Res Mem) (derefW : Writes → Str → Writes) :
    Prop where
  sim : ∀ {m₀ m f f' : Mem} {w : Writes} {name : Str}, Tracks m₀ w m f → deref f name = .ok f' →
    Outcome a m₀ (derefW w name) (deref m name) f'
  wide : ∀ {w : Writes} {name : Str}, w.wide = true → (derefW w name).wide = true

section Loop

variable {a : Arch} {deref : Mem → Str → Res Mem} {derefW : Writes → Str → Writes}

theorem writesLoop_wide (hd : ∀ {w : Writes} {name : Str}, w.wide = true →
    (derefW w name).wide = true) (w : Writes) (bitfield : Bool) (text : Str)
    (hw : w.wide = true) : (writesLoop derefW w bitfield text).wide = true := by
  fun_induction writesLoop derefW w bitfield text with
  | case1 => exact hw
  | case2 w bitfield c rest hc ih => exact ih hw
  | case3 => exact hd hw
  | case4 => exact hw
  | case5 w bitfield rest _ _ _ _ _ _ _ ih => exact ih hw
  | case6 => exact hw
  | case7 => exact hw
  | case8 w bitfield c rest _ _ _ _ _ _ _ ih => exact ih hw
  | case9 w bitfield rest _ _ ih => exact ih (by simp [hw])
  | case10 => exact hw

/-- One side of the loop does what the other does, attribute by attribute. -/
theorem byStrLoop_sim (hd : SimDeref a deref derefW) {m₀ m f f' : Mem} {w : Writes} {num : Nat}
    {bitfield : Bool} {text : Str} (ht : Tracks m₀ w m f)
    (hf : byStrLoop a deref f num bitfield text = .ok f') :
    Outcome a m₀ (writesLoop derefW w bitfield text) (byStrLoop a deref m num bitfield text) f' := by
  fun_induction writesLoop derefW w bitfield text generalizing m f num with
  | case1 w bitfield =>
      simp only [byStrLoop_nil, Except.ok.injEq] at hf ⊢
      subst hf
      exact .inl ⟨_, rfl, ht.finish num bitfield⟩
  | case2 w bitfield c rest hc ih =>
      rw [byStrLoop_digit _ _ _ _ hc] at hf ⊢
      exact ih ht hf
  | case3 w bitfield rest =>
      -- the alias is followed on both sides; the loop ends behind it
      by_cases hr : rest.head? = some '#'
      · rw [byStrLoop_object _ _ _ _ hr] at hf ⊢
        rcases bind_ok.mp hf with ⟨f₁, hf₁, hfin⟩
        simp only [Except.ok.injEq] at hfin
        subst hfin
        rcases hd.sim (ht.setTypesize 0) hf₁ with ⟨m₁, hm₁, ht₁⟩ | ⟨⟨e, he⟩, hb⟩
        · rw [hm₁]
          exact .inl ⟨_, rfl, ht₁.finish 0 bitfield⟩
        · rw [he]
          exact .inr ⟨⟨e, rfl⟩, hb.finish 0 bitfield⟩
      · rw [byStrLoop] at hf
        simp [hr] at hf
  | case4 w bitfield =>
      simp only [byStrLoop_function_nil, Except.ok.injEq] at hf ⊢
      subst hf
      exact .inl ⟨_, rfl, ((ht.setTypesize _).setType _).finish 0 bitfield⟩
  | case5 w bitfield rest _ _ hr =>
      rename_i ih
      rw [byStrLoop_function _ _ _ _ hr] at hf ⊢
      exact ih (((ht.setTypesize _).setType _).setArgs _ _) hf
  | case6 w bitfield c rest _ _ _ _ _ =>
      rename_i hc
      simp only [byStrLoop_pointer _ _ _ _ hc, Except.ok.injEq] at hf ⊢
      subst hf
      exact .inl ⟨_, rfl, (ht.setTypesize _).finish 0 bitfield⟩
  | case7 w bitfield rest =>
      simp only [byStrLoop_guid, Except.ok.injEq] at hf ⊢
      subst hf
      exact .inl ⟨_, rfl, ((ht.setTypesize _).setType _).finish 0 bitfield⟩
  | case8 w bitfield c rest hd' hα _ hO hF hP hG =>
      rename_i ih
      rw [byStrLoop_letter _ _ _ _ hd' hα hO hF hP hG] at hf ⊢
      exact ih (ht.setTypesize _) hf
  | case9 w bitfield rest _ _ ih =>
      have hsmall : f.typesize ≤ 8 := by
        by_contra hlt
        rw [byStrLoop_colon_wide _ _ _ _ (by omega)] at hf
        cases hf
      rw [byStrLoop_colon _ _ _ _ hsmall] at hf
      by_cases hm : m.typesize ≤ 8
      · rw [byStrLoop_colon _ _ _ _ hm]
        refine ih (ht.setBitoff _ fun hw => ?_) hf
        have hk := ht.typesize
        simp only [hw, Kept] at hk
        exact hk.1 ▸ hm
      · -- the former `typesize` is in the way: it has not been set yet
        rw [byStrLoop_colon_wide _ _ _ _ (by omega)]
        have hk := ht.typesize
        cases hw : w.typesize with
        | true =>
            simp only [hw, Kept, if_true] at hk
            omega
        | false =>
            simp only [hw, Kept] at hk
            refine .inr ⟨⟨_, rfl⟩, .inl ⟨writesLoop_wide hd.wide _ _ _ (by simp), ?_⟩⟩
            have := hk.1
            omega
  | case10 w bitfield c rest hd' hα hc =>
      rw [byStrLoop, if_neg hd', if_neg hα, if_neg hc] at hf
      cases hf

/-! ## Structures -/

/-- An object with another `page` flag. -/
def Mem.repage (q : Bool) (m : Mem) : Mem := { m with page := q }

/-- `page` is set last, and nothing reads it before. -/
theorem newBySpec_page {addr : Nat} {t : Str} {readonly p : Bool} {f : Mem} (q : Bool)
    (hf : newBySpec a deref addr t readonly p = .ok f) :
    newBySpec a deref addr t readonly q = .ok (f.repage q) := by
  rw [newBySpec_ok] at hf ⊢
  rcases hf with ⟨g, hg, rfl⟩
  exact ⟨g, hg, rfl⟩

theorem follow_repage (q : Bool) (last : Option Mem) (f : Mem) :
    follow (last.map (Mem.repage q)) (f.repage q) = (follow last f).repage q := by
  cases last with
  | none => rfl
  | some l =>
      by_cases hb : 0 < l.bitnum ∧ 0 < f.bitnum <;> simp [follow, Mem.repage, hb]

theorem efiMemGetSize_repage (q : Bool) (f : Mem) :
    efiMemGetSize a (f.repage q) = efiMemGetSize a f := rfl

/-- The layout does not depend on `page`: the same fields, up to their flag. -/
theorem byDictLoop_page {readonly p : Bool} (q : Bool) :
    ∀ (entries : List (Str × SpecObj)) {last : Option Mem} {addr x : Nat} {fs : List (Str × Mem)},
      byDictLoop a deref readonly p last addr entries = .ok (x, fs) →
      byDictLoop a deref readonly q (last.map (Mem.repage q)) addr entries =
        .ok (x, fs.map fun e => (e.1, e.2.repage q))
  | [], last, addr, x, fs, h => by
      simp only [byDictLoop, Except.ok.injEq, Prod.mk.injEq] at h ⊢
      rcases h with ⟨rfl, rfl⟩
      exact ⟨rfl, rfl⟩
  | (key, value) :: rest, last, addr, x, fs, h => by
      unfold byDictLoop at h ⊢
      rcases bind_ok.mp h with ⟨t, ht, h⟩
      rcases bind_ok.mp h with ⟨f, hf, h⟩
      rcases bind_ok.mp h with ⟨size, hs, h⟩
      rcases bind_ok.mp h with ⟨⟨x', fs₁⟩, hr, h⟩
      simp only [Except.ok.injEq, Prod.mk.injEq] at h
      rcases h with ⟨rfl, rfl⟩
      have hr' := byDictLoop_page q rest hr
      rw [Option.map_some] at hr'
      simp only [ht, newBySpec_page q hf, follow_repage, efiMemGetSize_repage, hs, hr', bind_ok_left,
        List.map_cons]

theorem castByDict_sim {m₀ m f f' : Mem} {w : Writes} {entries : List (Str × SpecObj)}
    (ht : Tracks m₀ w m f) (hf : castByDict a deref f entries = .ok f') :
    ∃ m', castByDict a deref m entries = .ok m' ∧
      Tracks m₀ { w with typesize := true, fields := true } m' f' := by
  unfold castByDict at hf ⊢
  rcases bind_ok.mp hf with ⟨⟨x, fs⟩, hfs, hok⟩
  simp only [Except.ok.injEq] at hok
  subst hok
  have hfs' := byDictLoop_page m.page entries hfs
  rw [Option.map_none] at hfs'
  rw [← ht.readonly, ← ht.addr] at hfs'
  rw [hfs']
  refine ⟨_, rfl, ?_⟩
  exact { ht with
    typesize := by simp only [Kept, if_true, ht.addr]
    fields := by
      simp only [Kept, if_true, typeFields, Fields.map, List.map_map, Fields.dict.injEq]
      rfl }

end Loop

/-! ## A whole cast -/

section Cast

variable {a : Arch} {ns : Namespace}

theorem writesDesc_wide : ∀ (n : Nat) {w : Writes} {d : TypeDesc}, w.wide = true →
    (writesDesc ns n w d).wide = true
  | 0, w, d, hw => hw
  | n + 1, w, d, hw => by
      cases d with
      | none => exact hw
      | dict _ => exact hw
      | other => exact hw
      | str t =>
          refine writesLoop_wide ?_ _ _ _ hw
          intro w name hw
          split
          · exact writesDesc_wide n hw
          · exact hw

/-- What holds of casts holds of `#name`, once it has been looked up. -/
theorem simDeref_of {n : Nat} (hcast : ∀ {m₀ m f f' : Mem} {w : Writes} {d : TypeDesc},
    Tracks m₀ w m f → efiMemTypecast a ns n f d = .ok f' →
    Outcome a m₀ (writesDesc ns n w d) (efiMemTypecast a ns n m d) f') :
    SimDeref a (castByName a ns n) (writesDeref ns n) where
  sim := by
    intro m₀ m f f' w name ht hf
    unfold castByName writesDeref at *
    rcases bind_ok.mp hf with ⟨desc, hdesc, hf⟩
    rw [hdesc]
    exact hcast ht hf
  wide := by
    intro w name hw
    unfold writesDeref
    split
    · exact writesDesc_wide n hw
    · exact hw

/-- Behind a text the size of an object without size is computed, or cannot be. -/
theorem fillSize_sim {m₀ m f : Mem} {w : Writes} (len : Nat) (ht : Tracks m₀ w m f) :
    Outcome a m₀ w (m.fillSize a len) f := by
  unfold Mem.fillSize
  split
  · have hm₀ : m₀.size = 0 := by
      by_contra hne
      exact ht.size hne ‹_›
    cases hs : efiMemGetSize a m with
    | ok size => exact .inl ⟨_, rfl, { ht with size := fun h => absurd hm₀ h }⟩
    | error e =>
        unfold efiMemGetSize at hs
        split at hs
        · cases hs
        · split at hs
          · rename_i hbit htype
            refine .inr ⟨⟨e, rfl⟩, .inr ⟨hm₀, ?_, ?_⟩⟩
            · -- an unset `typesize` is zero in the new object
              have hk := ht.typesize
              cases hw : w.typesize with
              | true =>
                  simp only [hw, Kept, if_true] at hk
                  rw [← hk]
                  exact htype
              | false =>
                  simp only [hw, Kept] at hk
                  simp [hk.2]
            · have hk := ht.bitnum
              cases hw : w.bitnum with
              | true => exact .inl rfl
              | false =>
                  simp only [hw, Kept] at hk
                  exact .inr (hk.1 ▸ hbit)
          · cases hs
  · exact .inl ⟨m, rfl, ht⟩

theorem fillSize_eq {f f' : Mem} {len : Nat} (h : f.fillSize a len = .ok f') :
    ∃ size, f' = { f with size := size } := by
  unfold Mem.fillSize at h
  split at h
  · rcases bind_ok.mp h with ⟨size, _, h⟩
    simp only [Except.ok.injEq] at h
    exact ⟨_, h.symm⟩
  · simp only [Except.ok.injEq] at h
    subst h
    exact ⟨f.size, by cases f; rfl⟩

/-- A cast sets the same attributes in both objects, to the same values. -/
theorem efiMemTypecast_sim : ∀ (n : Nat) {m₀ m f f' : Mem} {w : Writes} {d : TypeDesc},
    Tracks m₀ w m f → efiMemTypecast a ns n f d = .ok f' →
    Outcome a m₀ (writesDesc ns n w d) (efiMemTypecast a ns n m d) f'
  | 0, m₀, m, f, f', w, d, _, hf => by cases hf
  | n + 1, m₀, m, f, f', w, d, ht, hf => by
      have hderef : SimDeref a (castByName a ns n) (writesDeref ns n) :=
        simDeref_of fun ht hf => efiMemTypecast_sim n ht hf
      cases d with
      | none =>
          rw [efiMemTypecast_none] at hf ⊢
          simp only [Except.ok.injEq] at hf
          subst hf
          exact .inl ⟨_, rfl, (ht.setTypespec none).setTypesize 1⟩
      | dict entries =>
          rw [efiMemTypecast_dict] at hf ⊢
          rcases castByDict_sim ht hf with ⟨m', hm', ht'⟩
          exact .inl ⟨m', hm', ht'⟩
      | other => cases hf
      | str t =>
          rw [efiMemTypecast_str] at hf ⊢
          rcases bind_ok.mp hf with ⟨f₁, hf₁, hsize⟩
          rcases fillSize_eq hsize with ⟨size, rfl⟩
          rcases byStrLoop_sim hderef (ht.setTypespec (some (afterCount t))) hf₁ with
            ⟨m₁, hm₁, ht₁⟩ | ⟨⟨e, he⟩, hb⟩
          · unfold efiMemTypecastByStr castByStr
            rw [hm₁, bind_ok_left]
            exact fillSize_sim _ { ht₁ with }
          · unfold efiMemTypecastByStr castByStr
            rw [he]
            exact .inr ⟨⟨e, rfl⟩, hb⟩

/-- `#name` sets the same attributes on both sides. -/
theorem simDeref (n : Nat) : SimDeref a (castByName a ns n) (writesDeref ns n) :=
  simDeref_of fun ht hf => efiMemTypecast_sim n ht hf

end Cast

/-! ## When the type is replaced -/

/-- Every attribute that the text does not set is blank, and a `:` in front of every
letter does not meet a wide former type. -/
structure Replaceable (w : Writes) (m : Mem) : Prop where
  typesize : w.typesize = false → m.typesize = 0
  bitoff : w.bitoff = false → m.bitoff = 0
  bitnum : w.bitnum = false → m.bitnum = 0
  type : w.type = false → m.type = .mem
  fields : w.fields = false → m.fields = .null
  hasvarg : w.hasvarg = false → m.hasvarg = false
  wide : w.wide = true → m.typesize ≤ 8

/-- The object has a size, or one can be computed from the new type `f`. -/
def SizeKnown (a : Arch) (w : Writes) (m f : Mem) : Prop :=
  m.size ≠ 0 ∨ w.bitnum = false ∨ f.typesize * 8 % a.word ≠ 0

/-- The cast returns and leaves the type of the new object `f`. -/
def TypeReplaced (a : Arch) (ns : Namespace) (n : Nat) (m : Mem) (t : Str) (f : Mem) : Prop :=
  ∃ m', efiMemTypecast a ns (n + 1) m (.str t) = .ok m' ∧ m'.typePart = f.typePart

/-- The description can be cast onto the object as onto a new one. -/
def Castable (a : Arch) (ns : Namespace) (n : Nat) (m : Mem) (t : Str) : Prop :=
  ∃ f, efiMemNew a ns n m.addr (some t) m.readonly m.page = .ok f ∧
    Replaceable (writesStr ns n t) m ∧ SizeKnown a (writesStr ns n t) m f

section Main

variable {a : Arch} {ns : Namespace} {n : Nat} {m f : Mem} {t : Str}

theorem Kept.eq {α : Type} {w : Bool} {x y x₀ y₀ : α} (h : Kept w x y x₀ y₀)
    (hw : w = false → x₀ = y₀) : x = y := by
  cases w with
  | true => exact h
  | false => exact h.1.trans ((hw rfl).trans h.2.symm)

theorem Kept.blank {α : Type} {w : Bool} {x y x₀ y₀ : α} (h : Kept w x y x₀ y₀) (he : x = y)
    (hw : w = false) : x₀ = y₀ := by
  subst hw
  exact h.1.symm.trans (he.trans h.2)

/-- Objects that agree have the same type when the rest was blank. -/
theorem Tracks.typePart_eq {m₀ : Mem} {w : Writes} (h : Tracks m₀ w m f)
    (hr : Replaceable w m₀) : m.typePart = f.typePart := by
  simp only [Mem.typePart, TypePart.mk.injEq]
  refine ⟨h.type.eq hr.type, h.fields.eq fun hw => ?_, h.bitoff.eq hr.bitoff, h.bitnum.eq hr.bitnum,
    h.hasvarg.eq hr.hasvarg, h.typespec, h.typesize.eq hr.typesize⟩
  exact typeFields_eq_null.mpr (hr.fields hw)

/-- Objects that agree and have the same type: the rest was blank. -/
theorem Tracks.replaceable {m₀ : Mem} {w : Writes} (h : Tracks m₀ w m f)
    (he : m.typePart = f.typePart) : Replaceable w m₀ := by
  simp only [Mem.typePart, TypePart.mk.injEq] at he
  rcases he with ⟨htype, hfields, hbitoff, hbitnum, hvarg, -, hsize⟩
  exact {
    typesize := h.typesize.blank hsize
    bitoff := h.bitoff.blank hbitoff
    bitnum := h.bitnum.blank hbitnum
    type := h.type.blank htype
    fields := fun hw => typeFields_eq_null.mp (h.fields.blank hfields hw)
    hasvarg := h.hasvarg.blank hvarg
    wide := h.wide }

/-- A cast to a text ends beside the new object, or is blocked. -/
theorem cast_outcome (hf : efiMemNew a ns n m.addr (some t) m.readonly m.page = .ok f) :
    Outcome a m (writesStr ns n t) (efiMemTypecast a ns (n + 1) m (.str t)) f := by
  rcases (newBySpec_ok _ _).mp hf with ⟨g, hg, rfl⟩
  rw [efiMemTypecast_str]
  unfold efiMemTypecastByStr castByStr writesStr at *
  rcases byStrLoop_sim (simDeref n) (Tracks.start m (some (afterCount t))) hg with
    ⟨m₁, hm₁, ht₁⟩ | ⟨⟨e, he⟩, hb⟩
  · rw [hm₁, bind_ok_left]
    exact fillSize_sim _ { ht₁ with }
  · rw [he]
    exact .inr ⟨⟨e, rfl⟩, hb⟩

theorem typeReplaced_of_replaceable
    (hf : efiMemNew a ns n m.addr (some t) m.readonly m.page = .ok f)
    (hr : Replaceable (writesStr ns n t) m) (hs : SizeKnown a (writesStr ns n t) m f) :
    TypeReplaced a ns n m t f := by
  rcases cast_outcome hf with ⟨m', hm', ht⟩ | ⟨-, hb⟩
  · exact ⟨m', hm', ht.typePart_eq hr⟩
  · rcases hb with ⟨hw, hlt⟩ | ⟨hm, hts, hbit⟩
    · have := hr.wide hw
      omega
    · have hbitnum : (writesStr ns n t).bitnum = true := by
        rcases hbit with hbit | hbit
        · exact hbit
        · by_contra hw
          exact hbit (hr.bitnum (by simpa using hw))
      rcases hs with hs | hs | hs
      · exact absurd hm hs
      · simp [hbitnum] at hs
      · exact absurd hts hs

theorem replaceable_of_typeReplaced
    (hf : efiMemNew a ns n m.addr (some t) m.readonly m.page = .ok f)
    (h : TypeReplaced a ns n m t f) : Replaceable (writesStr ns n t) m := by
  rcases h with ⟨m', hm', he⟩
  rcases cast_outcome hf with ⟨m'', hm'', ht⟩ | ⟨⟨e, hm''⟩, -⟩
  · rw [hm', Except.ok.injEq] at hm''
    subst hm''
    exact ht.replaceable he
  · rw [hm'] at hm''
    cases hm''

end Main

/-! ## Runs of casts -/

open EfiLvgl.Run in
/-- One `CAST` to a text; the history records the texts. -/
def castStep (a : Arch) (ns : Namespace) (n : Nat) : Step Mem Str Str := fun m t =>
  match efiMemTypecast a ns (n + 1) m (.str t) with
  | .ok m' => some (m', [t])
  | .error _ => none

/-- The object has the type of a new one built from the last text. -/
def HasTypeOf (a : Arch) (ns : Namespace) (n : Nat) (m : Mem) (t : Str) : Prop :=
  ∃ f, efiMemNew a ns n m.addr (some t) m.readonly m.page = .ok f ∧ m.typePart = f.typePart

/-- A step that meets the condition leaves the type of the new text. -/
theorem castStep_hasTypeOf {a : Arch} {ns : Namespace} {n : Nat} {m m' : Mem} {t : Str}
    {evs : List Str} (hok : Castable a ns n m t) (hs : castStep a ns n m t = some (m', evs)) :
    evs = [t] ∧ HasTypeOf a ns n m' t := by
  rcases hok with ⟨f, hf, hr, hsize⟩
  unfold castStep at hs
  split at hs
  · rename_i m₁ hm₁
    simp only [Option.some.injEq, Prod.mk.injEq] at hs
    rcases hs with ⟨rfl, rfl⟩
    refine ⟨rfl, f, ?_, ?_⟩
    · -- a cast does not move the object
      rcases cast_outcome hf with ⟨m₂, hm₂, ht⟩ | ⟨⟨e, he⟩, -⟩
      · rw [hm₁, Except.ok.injEq] at hm₂
        subst hm₂
        rw [ht.still.1, ht.still.2.1, ht.still.2.2]
        exact hf
      · rw [hm₁] at he
        cases he
    · rcases typeReplaced_of_replaceable hf hr hsize with ⟨m₂, hm₂, he⟩
      rw [hm₁, Except.ok.injEq] at hm₂
      subst hm₂
      exact he
  · cases hs

open EfiLvgl.Run in
theorem run_hasTypeOf {a : Arch} {ns : Namespace} {n : Nat} {m₀ m : Mem} {h : List Str} {t : Str}
    (hr : Reach (castStep a ns n) (Castable a ns n) m₀ m (h ++ [t])) : HasTypeOf a ns n m t := by
  have hinv : ∀ h' t', h ++ [t] = h' ++ [t'] → HasTypeOf a ns n m t' := by
    refine Reach.invariant (fun m h => ∀ h' t', h = h' ++ [t'] → HasTypeOf a ns n m t') ?_ ?_ hr
    · intro h' t' he
      simp at he
    · intro s s' h evs l _ hok hs h' t' he
      rcases castStep_hasTypeOf hok hs with ⟨rfl, htype⟩
      have hlast := (List.append_inj' he rfl).2
      simp only [List.cons.injEq, and_true] at hlast
      exact hlast ▸ htype
  exact hinv h t rfl

open EfiLvgl.Run in
/-- `CAST` replaces the type of any object whenever the attributes that the text does
not set are blank, and then only; and in every run of casts that all meet this, each
object reached has the type of a new object built from the last text. -/
theorem cast_replaces_type (a : Arch) (ns : Namespace) (n : Nat) :
    (∀ (m f : Mem) (t : Str), efiMemNew a ns n m.addr (some t) m.readonly m.page = .ok f →
      (Replaceable (writesStr ns n t) m → SizeKnown a (writesStr ns n t) m f →
        TypeReplaced a ns n m t f) ∧
      (TypeReplaced a ns n m t f → Replaceable (writesStr ns n t) m)) ∧
    (∀ (m₀ m : Mem) (h : List Str) (t : Str),
      Reach (castStep a ns n) (Castable a ns n) m₀ m (h ++ [t]) → HasTypeOf a ns n m t) := by
  constructor
  · intro m f t hf
    constructor
    · intro hr hs
      exact typeReplaced_of_replaceable hf hr hs
    · intro h
      exact replaceable_of_typeReplaced hf h
  · intro m₀ m h t hr
    exact run_hasTypeOf hr

/-- A byte can be cast to a 16-bit word. -/
theorem byte_cast_to_word :
    ∃ m f, efiMemNew .x64 noNames 0 4096 (some ['B']) false false = .ok m ∧
      efiMemNew .x64 noNames 0 m.addr (some ['H']) m.readonly m.page = .ok f ∧
      TypeReplaced .x64 noNames 0 m ['H'] f := by
  refine ⟨_, _, efiMemNew_plain rfl rfl, efiMemNew_plain rfl rfl, ?_⟩
  refine ((cast_replaces_type .x64 noNames 0).1 _ _ _ (efiMemNew_plain rfl rfl)).1 ?_
    (.inl (by decide))
  have hw : writesStr noNames 0 ['H'] = { Writes.none with typesize := true } := by
    decide +kernel
  rw [hw]
  constructor <;> simp [Writes.none, blank, Mem.sized]

/-- A bit field that is cast to a word is still a bit field. -/
theorem cast_keeps_bitnum :
    ∃ m m' f, efiMemNew .x64 noNames 0 4096 (some ['B', ':', '3']) false false = .ok m ∧
      efiMemTypecast .x64 noNames 1 m (.str ['H']) = .ok m' ∧
      efiMemNew .x64 noNames 0 m.addr (some ['H']) m.readonly m.page = .ok f ∧
      m'.bitnum = 3 ∧ f.bitnum = 0 ∧ m'.typePart ≠ f.typePart := by
  have hB : castByStr .x64 (castByName .x64 noNames 0) (blank 4096 false) ['B', ':', '3'] = _ :=
    castByStr_bits _ _ (by decide) (by decide) (List.all_eq_true.mp (by decide)) _
  refine ⟨_, _, _, (newBySpec_ok _ _).mpr ⟨_, hB, rfl⟩, efiMemTypecast_plain rfl rfl (by decide),
    efiMemNew_plain rfl rfl, by decide, rfl, ?_⟩
  intro h
  have hbit := congrArg TypePart.bitnum h
  revert hbit
  decide

end EfiLvgl.Uefi
