import EfiLvgl.Py.Table

/-!
# EfiLvgl.Py.Lookup — what a lookup comes to

Each kind of lookup has one theorem, for hash tables and arrays alike: `mpMapLookup_lookup`,
`mpMapLookup_add` and `mpMapLookup_remove`. A hash table that is full is made anew
(`mpMapRehash_spec`), and has room for the key then.
-/

namespace EfiLvgl.Py

open EfiLvgl.Assoc EfiLvgl.Probe

universe u v

variable {K : Type u} {V : Type v}

namespace MpMap

variable {m : MpMap K V} {pos : Nat} {k : K} {v : Option V}

/-! ## What is returned -/

section Results

variable {O : Objects K} {index : K}

/-- The slot that is returned has the key. -/
structure Slot (O : Objects K) (m : MpMap K V) (index : K) (pos : Nat) (k : K) (v : Option V) :
    Prop where
  lt : pos < m.alloc
  elem : m.elem pos = ⟨.key k, v⟩
  equal : O.equal k index = true

/-- A key comes to the map: with the value `NULL`, unless an array has had another one there. -/
structure Adds (O : Objects K) (m m' : MpMap K V) (index : K) (pos : Nat) (v : Option V) :
    Prop where
  wf : Wf O m'
  lt : pos < m'.alloc
  elem : m'.elem pos = ⟨.key index, v⟩
  entries : (m'.before pos ++ m'.after pos).Perm m.entries
  ordered : m'.isOrdered = m.isOrdered
  notFixed : m'.isFixed = false
  inOrder : m.isOrdered = true → m'.before pos = m.entries ∧ m'.after pos = []
  clean : Clean m → v = none ∧ Clean m'

/-- A key is taken out, and its value left in the slot that is returned. -/
structure Removes (O : Objects K) (m m' : MpMap K V) (index : K) (slot : Nat) (k : K)
    (v : Option V) (a b : List (K × Option V)) : Prop where
  wf : Wf O m'
  equal : O.equal k index = true
  old : m.entries = a ++ (k, v) :: b
  new : m'.entries = a ++ b
  ordered : m'.isOrdered = m.isOrdered
  notFixed : m'.isFixed = false
  lt : slot < m'.alloc
  elem : ∃ c, m'.elem slot = ⟨c, v⟩ ∧ ∀ l, c ≠ .key l
  clean : Clean m → ∀ pos < m'.alloc, pos ≠ slot → (∀ l, m'.cell pos ≠ .key l) →
    (m'.elem pos).value = none

theorem Hash.adds {slot : Nat} {m₀ : MpMap K V} (h : Hash O m) (hfree : Free O m index slot)
    (habsent : Absent O.toKeyEq m.entries index) (h₀ : Hash O m₀)
    (hperm : m.entries.Perm m₀.entries) (hclean : Clean m₀ → Clean m) :
    Adds O m₀ (m.addAt O slot index) index slot none := by
  obtain ⟨hhash, -, hold⟩ := h.addAt hfree habsent
  constructor
  · exact .inl hhash
  · rw [alloc_addAt]
    exact hfree.lt
  · exact elem_addAt hfree.lt
  · rw [before_addAt, after_addAt, ← hold]
    exact hperm
  · exact h.notOrdered.trans h₀.notOrdered.symm
  · exact hhash.notFixed
  · intro hordered
    rw [h₀.notOrdered] at hordered
    cases hordered
  · intro hclean₀
    exact ⟨rfl, (hclean hclean₀).write⟩

/-- The array takes the key. -/
theorem Ordered.adds (h : Ordered O m) (hfixed : m.isFixed = false)
    (habsent : Absent O.toKeyEq m.entries index) :
    Adds O m (m.append O index) index m.used (m.elem m.used).value := by
  obtain ⟨hordered, hentries, helem⟩ := h.append habsent
  obtain ⟨rest, htable, hrest⟩ := h.append_table index
  have hlt : m.used < (m.append O index).alloc := by
    rw [alloc, htable, List.length_append, h.length_take, List.length_cons]
    omega
  have hbefore : (m.append O index).before m.used = m.entries := by
    rw [before, htable, List.take_append_of_le_length (Nat.le_of_eq h.length_take.symm),
      List.take_take, Nat.min_self, h.entries_take]
  -- the new pair is the last one, so nothing is behind it
  have hafter : (m.append O index).after m.used = [] := by
    have hsplit := entries_key hlt helem
    rw [hentries, hbefore] at hsplit
    have htail := List.append_cancel_left hsplit
    exact (List.cons.inj htail).2.symm
  constructor
  · exact .inr hordered
  · exact hlt
  · exact helem
  · rw [hbefore, hafter, List.append_nil]
  · rfl
  · exact hfixed
  · intro _
    exact ⟨hbefore, hafter⟩
  · intro hclean
    constructor
    · rcases Nat.lt_or_ge m.used m.alloc with hinside | hfull
      · have hmem : m.elem m.used ∈ m.table.drop m.used := by
          rw [← elem_eq hinside, List.mem_drop_iff_getElem]
          exact ⟨0, by rw [alloc] at hinside; omega, by congr 1⟩
        apply hclean _ (List.mem_of_mem_drop hmem)
        intro k
        rw [h.rest _ hmem]
        exact Cell.null_ne_key k
      · rw [elem, List.getD_eq_default _ _ hfull]
        rfl
    · intro e he hkey
      rw [htable, List.mem_append, List.mem_cons] at he
      rcases he with hold | rfl | hright
      · exact hclean e (List.mem_of_mem_take hold) hkey
      · exact absurd rfl (hkey index)
      · rcases hrest e hright with hold | rfl
        · exact hclean e (List.mem_of_mem_drop hold) hkey
        · rfl

/-- The assertion holds. -/
theorem not_asserted {kind : LookupKind} (hfixed : m.isFixed = false ∨ kind = .lookup) :
    ¬ (m.isFixed = true ∧ kind ≠ .lookup) := by
  rintro ⟨htrue, hkind⟩
  rcases hfixed with hfalse | hlookup
  · rw [hfalse] at htrue
    cases htrue
  · exact hkind hlookup

end Results

/-! ## One way around a hash table -/

section Search

variable (O : Objects K)

/-- What a search says of the map. -/
inductive Seen (m : MpMap K V) (index : K) : Outcome → Prop where
  | found {pos : Nat} {k : K} {v : Option V} : pos < m.alloc → m.elem pos = ⟨.key k, v⟩ →
      O.equal k index = true → Seen m index (.found pos)
  | empty {pos : Nat} {avail : Option Nat} : Absent O.toKeyEq m.entries index →
      Free O m index (avail.getD pos) → Seen m index (.empty pos avail)
  | avail {slot : Nat} : Absent O.toKeyEq m.entries index → Free O m index slot →
      Seen m index (.around (some slot))
  | full : Absent O.toKeyEq m.entries index → (∀ pos < m.alloc, ∃ k, m.cell pos = .key k) →
      Seen m index (.around none)

variable {O} {index : K} [DecidableEq K]

theorem Hash.search (h : Hash O m) (halloc : 0 < m.alloc) {ptrs : Bool}
    (hhit : ∀ entry ∈ m.entries, hit O ptrs index entry.1 = O.equal entry.1 index) :
    ∃ outcome, search m.alloc m.cell (hit O ptrs index) (O.hash index % m.alloc) m.alloc
        (O.hash index % m.alloc) none = some outcome ∧ Seen O m index outcome := by
  have hstart : home O.toHashed m.alloc index < m.alloc := home_lt halloc
  obtain ⟨outcome, hsearch, hlooked⟩ := search_spec hstart m.cell (hit O ptrs index)
  refine ⟨outcome, hsearch, ?_⟩
  have hcells : ∀ p < m.alloc, ∀ l, m.cell p = .key l → hit O ptrs index l = O.equal l index :=
    fun p hp l hl => hhit _ (mem_of_cell hp hl)
  have habsent : ∀ {d : Nat}, Passed m.alloc (home O.toHashed m.alloc index) m.cell
      (hit O ptrs index) d →
      (d = m.alloc ∨ m.cell (behind m.alloc (home O.toHashed m.alloc index) d) = .null) →
      Absent O.toKeyEq m.entries index := by
    intro d hpassed hend
    exact absent_iff.mpr fun p hp l hl => h.sound.absent_of_passed hcells hpassed hend hp hl
  -- a cell that was used before, and what has been passed before it
  have hfree : ∀ {d i : Nat}, Passed m.alloc (home O.toHashed m.alloc index) m.cell
      (hit O ptrs index) d → i < d → d ≤ m.alloc →
      m.cell (behind m.alloc (home O.toHashed m.alloc index) i) = .sentinel →
      Free O m index (behind m.alloc (home O.toHashed m.alloc index) i) := by
    intro d i hpassed hi hd hsentinel
    refine ⟨?_, i, Nat.lt_of_lt_of_le hi hd, rfl, fun j hj => (hpassed j (hj.trans hi)).1⟩
    rw [hsentinel]
    exact Cell.sentinel_ne_key
  cases hlooked with
  | @found d k hd hpassed hcell hhitk =>
      have hpos : behind m.alloc (home O.toHashed m.alloc index) d < m.alloc :=
        behind_lt halloc d
      have hentry := mem_of_cell hpos hcell
      refine .found (v := (m.elem (behind m.alloc (home O.toHashed m.alloc index) d)).value)
        hpos (k := k) ?_ ?_
      · rw [cell] at hcell
        rw [← hcell]
      · rw [← hhit _ hentry]
        exact hhitk
  | @empty d avail hd hpassed hnull havail =>
      refine .empty (habsent hpassed (.inr hnull)) ?_
      rcases havail with ⟨rfl, -⟩ | ⟨i, hi, rfl, hsentinel⟩
      · refine ⟨?_, d, hd, rfl, fun i hi => (hpassed i hi).1⟩
        rw [Option.getD_none, hnull]
        exact Cell.null_ne_key
      · exact hfree hpassed hi hd.le hsentinel
  | @around avail hpassed havail =>
      rcases havail with ⟨rfl, hnone⟩ | ⟨i, hi, rfl, hsentinel⟩
      · refine .full (habsent hpassed (.inl rfl)) ?_
        intro pos hpos
        obtain ⟨d, hd, rfl⟩ := exists_behind hstart hpos
        cases hcell : m.cell (behind m.alloc (home O.toHashed m.alloc index) d) with
        | null => exact absurd hcell (hpassed d hd).1
        | sentinel => exact absurd hcell (hnone d hd)
        | key k => exact ⟨k, rfl⟩
      · exact .avail (habsent hpassed (.inl rfl)) (hfree hpassed hi (Nat.le_refl _) hsentinel)

/-- The four ways in which a search may end. -/
theorem hashLookup_seen (rehash : MpMap K V → Option (MpMap K V)) (kind : LookupKind)
    {ptrs : Bool} (h : Hash O m) (halloc : 0 < m.alloc)
    (hhit : ∀ entry ∈ m.entries, hit O ptrs index entry.1 = O.equal entry.1 index) (rounds : Nat) :
    (∃ pos k v, pos < m.alloc ∧ m.elem pos = ⟨.key k, v⟩ ∧ O.equal k index = true ∧
        hashLookup O rehash index ptrs kind (rounds + 1) m =
          if kind = .removeIfFound then some (m.removeAt pos, some pos) else some (m, some pos)) ∨
      (Absent O.toKeyEq m.entries index ∧ kind ≠ .addIfNotFound ∧
        hashLookup O rehash index ptrs kind (rounds + 1) m = some (m, none)) ∨
      (kind = .addIfNotFound ∧ ∃ slot, Absent O.toKeyEq m.entries index ∧ Free O m index slot ∧
        hashLookup O rehash index ptrs kind (rounds + 1) m =
          some (m.addAt O slot index, some slot)) ∨
      (kind = .addIfNotFound ∧ Absent O.toKeyEq m.entries index ∧
        (∀ pos < m.alloc, ∃ k, m.cell pos = .key k) ∧
        hashLookup O rehash index ptrs kind (rounds + 1) m =
          (rehash m).bind (hashLookup O rehash index ptrs kind rounds)) := by
  obtain ⟨outcome, hsearch, hseen⟩ := h.search halloc hhit
  simp only [hashLookup, hsearch]
  -- where the search has ended decides; only one that fills the table goes on
  cases hseen with
  | @found pos k v hpos helem hequal => exact .inl ⟨pos, k, v, hpos, helem, hequal, rfl⟩
  | @empty pos avail habsent hfree =>
      by_cases hadd : kind = .addIfNotFound
      · exact .inr (.inr (.inl ⟨hadd, _, habsent, hfree, if_pos hadd⟩))
      · exact .inr (.inl ⟨habsent, hadd, if_neg hadd⟩)
  | @avail slot habsent hfree =>
      by_cases hadd : kind = .addIfNotFound
      · exact .inr (.inr (.inl ⟨hadd, slot, habsent, hfree, if_pos hadd⟩))
      · exact .inr (.inl ⟨habsent, hadd, if_neg hadd⟩)
  | full habsent hkeys =>
      by_cases hadd : kind = .addIfNotFound
      · exact .inr (.inr (.inr ⟨hadd, habsent, hkeys, if_pos hadd⟩))
      · exact .inr (.inl ⟨habsent, hadd, if_neg hadd⟩)

/-! ## A larger table -/

theorem le_getHashAllocGreaterOrEqualTo (x : Nat) : x ≤ getHashAllocGreaterOrEqualTo x := by
  rw [getHashAllocGreaterOrEqualTo]
  split
  · next size hfind =>
      have hle := List.find?_some hfind
      exact of_decide_eq_true hle
  · exact (Nat.le_add_right x (x / 2)).trans Nat.left_le_or

theorem mpMapLookup_hash {depth : Nat} {ptrs : Bool} {kind : LookupKind} (h : Hash O m)
    (halloc : 0 < m.alloc) (hptrs : m.compareOnlyPtrs O index kind = some ptrs) :
    mpMapLookup O (depth + 1) m index kind =
      hashLookup O (mpMapRehash fun m index => mpMapLookup O depth m index .addIfNotFound) index
        ptrs kind 2 m := by
  have hfixed : ¬ (m.isFixed = true ∧ kind ≠ .lookup) := by
    rw [h.notFixed]
    exact fun hboth => Bool.false_ne_true hboth.1
  have hordered : ¬ m.isOrdered = true := by
    rw [h.notOrdered]
    exact Bool.false_ne_true
  simp only [mpMapLookup, if_neg hfixed, hptrs, if_neg hordered, if_neg halloc.ne']

/-- A key that is not there comes to a table that is not full. -/
theorem hashLookup_fresh (rehash : MpMap K V → Option (MpMap K V)) {ptrs : Bool}
    (h : Hash O m) (hroom : m.entries.length < m.alloc)
    (hhit : ∀ entry ∈ m.entries, hit O ptrs index entry.1 = O.equal entry.1 index)
    (habsent : Absent O.toKeyEq m.entries index) (rounds : Nat) :
    ∃ slot, Free O m index slot ∧
      hashLookup O rehash index ptrs .addIfNotFound (rounds + 1) m =
        some (m.addAt O slot index, some slot) := by
  have hseen := hashLookup_seen rehash .addIfNotFound h (Nat.zero_lt_of_lt hroom) hhit rounds
  rcases hseen with ⟨pos, k, v, hpos, helem, hequal, -⟩ | ⟨-, hkind, -⟩ |
    ⟨-, slot, -, hfree, hlookup⟩ | ⟨-, -, hfull, -⟩
  · rw [habsent (k, v) (mem_entries.mpr ⟨pos, hpos, helem⟩)] at hequal
    cases hequal
  · exact absurd rfl hkind
  · exact ⟨slot, hfree, hlookup⟩
  · exact absurd (length_entries_of_full hfull) hroom.ne

/-- An element with a key goes to the new table. -/
theorem readd_key (depth : Nat) {e : Elem K V} (h : Hash O m) (hroom : m.entries.length < m.alloc)
    (hnew : Fresh m) (hkey : e.key = .key k) (habsent : Absent O.toKeyEq m.entries k) :
    ∃ m', readd (fun m index => mpMapLookup O (depth + 1) m index .addIfNotFound) m e = some m' ∧
      Hash O m' ∧ Fresh m' ∧ m'.alloc = m.alloc ∧
      m'.entries.Perm ((k, e.value) :: m.entries) := by
  obtain ⟨ptrs, hptrs⟩ := Option.ne_none_iff_exists'.mp
    (compareOnlyPtrs_add : m.compareOnlyPtrs O k .addIfNotFound ≠ none)
  obtain ⟨slot, hfree, hlookup⟩ := hashLookup_fresh
    (mpMapRehash fun m index => mpMapLookup O depth m index .addIfNotFound)
    h hroom (fun entry hentry => hit_eq h.qstrs hptrs hentry) habsent 1
  have hslot := hfree.lt
  have hslot' : slot < (m.addAt O slot k).alloc := by
    rw [alloc_addAt]
    exact hslot
  have helem : (m.addAt O slot k).elem slot = ⟨.key k, none⟩ := elem_addAt hslot
  -- the slot is the one that a search in the new table finds, and the pair goes there
  obtain ⟨hhash, -, hold⟩ := h.addAt hfree habsent
  have hlookup' : mpMapLookup O (depth + 1) m k .addIfNotFound =
      some (m.addAt O slot k, some slot) :=
    (mpMapLookup_hash h (Nat.zero_lt_of_lt hroom) hptrs).trans hlookup
  refine ⟨(m.addAt O slot k).setValue slot e.value, ?_, hhash.setValue hslot' helem e.value, ?_, ?_,
    ?_⟩
  · simp only [readd, hkey, hlookup']
  · constructor
    · intro pos
      rw [cell_setValue hslot' helem, cell_addAt hslot]
      -- nothing is deleted while a table is filled
      by_cases hsame : pos = slot
      · rw [hsame, Function.update_self]
        exact nofun
      · rw [Function.update_of_ne hsame]
        exact hnew.noSentinel pos
    · have hclean : Clean (m.addAt O slot k) := hnew.clean.write
      rw [setValue_eq helem]
      exact hclean.write
  · rw [setValue_eq helem, alloc_write, alloc_addAt]
  · rw [entries_setValue hslot' helem, before_addAt, after_addAt, hold]
    exact List.perm_middle

/-- All of the old table goes to the new one. -/
theorem foldlM_readd (depth : Nat) (table : List (Elem K V)) {m : MpMap K V} (h : Hash O m)
    (hroom : (entriesOf table).length + m.entries.length < m.alloc) (hnew : Fresh m)
    (hdistinct : Distinct O.toKeyEq (entriesOf table ++ m.entries)) :
    ∃ m', table.foldlM
        (readd fun m index => mpMapLookup O (depth + 1) m index .addIfNotFound) m = some m' ∧
      Hash O m' ∧ Fresh m' ∧ m'.alloc = m.alloc ∧
      m'.entries.Perm (entriesOf table ++ m.entries) := by
  induction table generalizing m with
  | nil => exact ⟨m, rfl, h, hnew, rfl, List.Perm.refl _⟩
  | cons e table ih =>
      rw [List.foldlM_cons]
      cases hkey : e.key with
      | key k =>
          have hentry : entriesOf (e :: table) = (k, e.value) :: entriesOf table := by
            rw [entriesOf, List.filterMap_cons_some]
            · rfl
            · rw [Elem.entry, hkey]
          rw [hentry] at hroom hdistinct ⊢
          rw [List.length_cons] at hroom
          -- the pair is compared with those behind it as well: none of them is in the new table
          have habsent : Absent O.toKeyEq m.entries k := by
            intro entry hmem
            rw [O.comm]
            exact (List.pairwise_cons.mp hdistinct).1 entry (List.mem_append_right _ hmem)
          obtain ⟨m₁, hreadd, hhash₁, hnew₁, halloc₁, hperm₁⟩ :=
            readd_key depth h (by omega) hnew hkey habsent
          have hmiddle : (entriesOf table ++ m₁.entries).Perm
              ((k, e.value) :: (entriesOf table ++ m.entries)) :=
            (hperm₁.append_left _).trans List.perm_middle
          obtain ⟨m', hfold, hhash', hnew', halloc', hperm'⟩ := ih hhash₁
            (by rw [hperm₁.length_eq, halloc₁, List.length_cons]; omega) hnew₁
            (hdistinct.of_perm hmiddle)
          refine ⟨m', ?_, hhash', hnew', halloc'.trans halloc₁, hperm'.trans hmiddle⟩
          rw [hreadd]
          exact hfold
      | null =>
          -- a free slot is passed over
          rw [entriesOf_cons_free (by rw [hkey]; exact Cell.null_ne_key)] at hroom hdistinct ⊢
          rw [readd, hkey]
          exact ih h hroom hnew hdistinct
      | sentinel =>
          rw [entriesOf_cons_free (by rw [hkey]; exact Cell.sentinel_ne_key)] at hroom hdistinct ⊢
          rw [readd, hkey]
          exact ih h hroom hnew hdistinct

/-- A larger table has the same entries, and room for more. -/
theorem mpMapRehash_spec (depth : Nat) (h : Hash O m) :
    ∃ m', mpMapRehash (fun m index => mpMapLookup O (depth + 1) m index .addIfNotFound) m =
        some m' ∧
      Hash O m' ∧ Clean m' ∧ m'.entries.length < m'.alloc ∧ m'.entries.Perm m.entries := by
  obtain ⟨fresh, hfresh⟩ : ∃ fresh : MpMap K V, fresh = { m with
      used := 0
      allKeysAreQstrs := true
      table := List.replicate (getHashAllocGreaterOrEqualTo (m.alloc + 1)) .zero } := ⟨_, rfl⟩
  have halloc : fresh.alloc = getHashAllocGreaterOrEqualTo (m.alloc + 1) := by
    rw [hfresh, alloc, List.length_replicate]
  have hlarge := le_getHashAllocGreaterOrEqualTo (m.alloc + 1)
  have hfew : m.entries.length ≤ m.alloc := List.length_filterMap_le _ _
  obtain ⟨hhash, hnew, hnone⟩ := Hash.of_replicate (O := O) (m := fresh)
    (n := getHashAllocGreaterOrEqualTo (m.alloc + 1)) (by rw [hfresh]; exact h.notOrdered)
    (by rw [hfresh]; exact h.notFixed) (by rw [hfresh]) (by rw [hfresh])
  obtain ⟨m', hfold, hhash', hnew', halloc', hperm⟩ := foldlM_readd depth m.table hhash
    (by rw [hnone, halloc]; exact Nat.lt_of_le_of_lt hfew hlarge) hnew
    (by rw [hnone, List.append_nil]; exact h.distinct)
  rw [hnone, List.append_nil] at hperm
  refine ⟨m', ?_, hhash', hnew'.clean, ?_, hperm⟩
  · rw [mpMapRehash, ← hfresh]
    exact hfold
  · rw [hperm.length_eq, halloc', halloc]
    exact Nat.lt_of_le_of_lt hfew hlarge

/-! ## The three lookups -/

section Prelude

variable {depth : Nat} {ptrs : Bool} {kind : LookupKind}
  (hfixed : m.isFixed = false ∨ kind = .lookup)

include hfixed

theorem mpMapLookup_none (hptrs : m.compareOnlyPtrs O index kind = none) :
    mpMapLookup O (depth + 1) m index kind = some (m, none) := by
  simp only [mpMapLookup, if_neg (not_asserted hfixed), hptrs]

theorem mpMapLookup_ordered (h : Ordered O m)
    (hptrs : m.compareOnlyPtrs O index kind = some ptrs) :
    mpMapLookup O (depth + 1) m index kind = some (m.orderedLookup O index ptrs kind) := by
  simp only [mpMapLookup, if_neg (not_asserted hfixed), hptrs, if_pos h.ordered]

end Prelude

/-- The element of an array that is hit, or none. -/
theorem Ordered.lookup (h : Ordered O m) {ptrs : Bool}
    (hhit : ∀ entry ∈ m.entries, hit O ptrs index entry.1 = O.equal entry.1 index)
    (kind : LookupKind) :
    (∃ pos k v, Slot O m index pos k v ∧
        m.orderedLookup O index ptrs kind =
          if kind = .removeIfFound then (m.moveDown pos, some (m.used - 1)) else (m, some pos)) ∨
      (Absent O.toKeyEq m.entries index ∧
        m.orderedLookup O index ptrs kind =
          if kind = .addIfNotFound then (m.append O index, some m.used) else (m, none)) := by
  rw [orderedLookup]
  cases hfind : (m.table.take m.used).findIdx? (elemHit O ptrs index) with
  | some pos =>
      left
      obtain ⟨hpos, hkey, -⟩ := List.findIdx?_eq_some_iff_getElem.mp hfind
      have hlt : pos < m.alloc := Nat.lt_of_lt_of_le (h.length_take ▸ hpos) h.le
      have hlength : pos < m.table.length := hlt
      have helem : m.table[pos] = m.elem pos := elem_eq hlt
      rw [List.getElem_take, helem, elemHit] at hkey
      cases hcell : (m.elem pos).key with
      | null => rw [hcell] at hkey; cases hkey
      | sentinel => rw [hcell] at hkey; cases hkey
      | key k =>
          rw [hcell] at hkey
          -- the first slot whose key is equal
          have hentry := mem_of_cell hlt hcell
          refine ⟨pos, k, (m.elem pos).value, ⟨hlt, by rw [← hcell], ?_⟩, rfl⟩
          rw [← hhit _ hentry]
          exact hkey
  | none =>
      right
      refine ⟨?_, rfl⟩
      intro entry hentry
      rw [← hhit entry hentry]
      obtain ⟨pos, hpos, helem⟩ := mem_entries.mp hentry
      -- every pair is in front of `used`, and has been compared
      have hused := h.lt_used hpos helem
      have hmem : m.elem pos ∈ m.table.take m.used := by
        rw [← elem_eq hpos, List.mem_take_iff_getElem]
        exact ⟨pos, by rw [alloc] at hpos; omega, rfl⟩
      have hmiss := List.findIdx?_eq_none_iff.mp hfind _ hmem
      rw [elemHit, helem] at hmiss
      exact hmiss

/-- What becomes of a lookup in a hash table. -/
theorem Hash.lookup {kind : LookupKind} {ptrs : Bool} (h : Hash O m) (depth : Nat)
    (hptrs : m.compareOnlyPtrs O index kind = some ptrs) :
    (∃ pos k v, Slot O m index pos k v ∧
        mpMapLookup O (depth + 2) m index kind =
          if kind = .removeIfFound then some (m.removeAt pos, some pos) else some (m, some pos)) ∨
      (Absent O.toKeyEq m.entries index ∧ kind ≠ .addIfNotFound ∧
        mpMapLookup O (depth + 2) m index kind = some (m, none)) ∨
      (kind = .addIfNotFound ∧ ∃ m' slot, Adds O m m' index slot none ∧
        Absent O.toKeyEq m.entries index ∧
        mpMapLookup O (depth + 2) m index kind = some (m', some slot)) := by
  have hhit : ∀ entry ∈ m.entries, hit O ptrs index entry.1 = O.equal entry.1 index :=
    fun entry hentry => hit_eq h.qstrs hptrs hentry
  -- a larger table has room
  have hlarger : ∀ rounds, Absent O.toKeyEq m.entries index →
      ∃ m' slot, Adds O m m' index slot none ∧
        ((mpMapRehash (fun m index => mpMapLookup O (depth + 1) m index .addIfNotFound) m).bind
          (hashLookup O
            (mpMapRehash fun m index => mpMapLookup O (depth + 1) m index .addIfNotFound)
            index ptrs .addIfNotFound (rounds + 1))) = some (m', some slot) := by
    intro rounds habsent
    obtain ⟨m₁, hrehash, hhash₁, hclean₁, hroom₁, hperm₁⟩ := mpMapRehash_spec depth h
    have habsent₁ := habsent.of_perm hperm₁
    obtain ⟨slot, hfree, hlookup⟩ := hashLookup_fresh
      (mpMapRehash fun m index => mpMapLookup O (depth + 1) m index .addIfNotFound)
      hhash₁ hroom₁ (fun entry hentry => hhit entry (hperm₁.mem_iff.mp hentry)) habsent₁ rounds
    refine ⟨m₁.addAt O slot index, slot,
      hhash₁.adds hfree habsent₁ h hperm₁ (fun _ => hclean₁), ?_⟩
    rw [hrehash]
    exact hlookup
  by_cases halloc : m.alloc = 0
  · have hnone : Absent O.toKeyEq m.entries index := by
      intro entry hentry
      obtain ⟨pos, hpos, -⟩ := mem_entries.mp hentry
      omega
    have hfixed : ¬ (m.isFixed = true ∧ kind ≠ .lookup) := not_asserted (.inl h.notFixed)
    have hordered : ¬ m.isOrdered = true := by
      rw [h.notOrdered]
      exact Bool.false_ne_true
    have hlookup : mpMapLookup O (depth + 2) m index kind =
        if kind = .addIfNotFound then
          (mpMapRehash (fun m index => mpMapLookup O (depth + 1) m index .addIfNotFound) m).bind
            (hashLookup O
              (mpMapRehash fun m index => mpMapLookup O (depth + 1) m index .addIfNotFound)
              index ptrs kind 2)
        else some (m, none) := by
      simp only [mpMapLookup, if_neg hfixed, hptrs, if_neg hordered, if_pos halloc]
      rfl
    rw [hlookup]
    by_cases hadd : kind = .addIfNotFound
    · subst hadd
      obtain ⟨m', slot, hadds, hresult⟩ := hlarger 1 hnone
      exact .inr (.inr ⟨rfl, m', slot, hadds, hnone, (if_pos rfl).trans hresult⟩)
    · exact .inr (.inl ⟨hnone, hadd, if_neg hadd⟩)
  · have hpos := Nat.pos_of_ne_zero halloc
    rw [mpMapLookup_hash h hpos hptrs]
    rcases hashLookup_seen
        (mpMapRehash fun m index => mpMapLookup O (depth + 1) m index .addIfNotFound)
        kind h hpos hhit 1 with
      ⟨pos, k, v, hlt, helem, hequal, hlookup⟩ | ⟨habsent, hkind, hlookup⟩ |
      ⟨hadd, slot, habsent, hfree, hlookup⟩ | ⟨hadd, habsent, -, hlookup⟩
    · exact .inl ⟨pos, k, v, ⟨hlt, helem, hequal⟩, hlookup⟩
    · exact .inr (.inl ⟨habsent, hkind, hlookup⟩)
    · exact .inr (.inr ⟨hadd, _, slot, h.adds hfree habsent h (List.Perm.refl _) id, habsent,
        hlookup⟩)
    · subst hadd
      obtain ⟨m', slot, hadds, hresult⟩ := hlarger 0 habsent
      exact .inr (.inr ⟨rfl, m', slot, hadds, habsent, hlookup.trans hresult⟩)

/-- A lookup returns the slot of the key, or none if it is not there. -/
theorem mpMapLookup_lookup (h : Wf O m) (depth : Nat) (index : K) :
    (∃ pos k v, Slot O m index pos k v ∧
        mpMapLookup O (depth + 2) m index .lookup = some (m, some pos)) ∨
      (Absent O.toKeyEq m.entries index ∧
        mpMapLookup O (depth + 2) m index .lookup = some (m, none)) := by
  cases hptrs : m.compareOnlyPtrs O index .lookup with
  | none =>
      exact .inr ⟨absent_of_compareOnlyPtrs h.qstrs hptrs, mpMapLookup_none (.inr rfl) hptrs⟩
  | some ptrs =>
      rcases h with hhash | hordered
      · rcases hhash.lookup depth hptrs with
          ⟨pos, k, v, hslot, hlookup⟩ | ⟨habsent, -, hlookup⟩ | ⟨hkind, -⟩
        · exact .inl ⟨pos, k, v, hslot, hlookup⟩
        · exact .inr ⟨habsent, hlookup⟩
        · cases hkind
      · rw [mpMapLookup_ordered (.inr rfl) hordered hptrs]
        rcases hordered.lookup (fun entry hentry => hit_eq hordered.qstrs hptrs hentry) .lookup
          with ⟨pos, k, v, hslot, hlookup⟩ | ⟨habsent, hlookup⟩
        · exact .inl ⟨pos, k, v, hslot, congrArg some hlookup⟩
        · exact .inr ⟨habsent, congrArg some hlookup⟩

/-- An adding lookup returns the slot of the key, or a slot that the key has come to. -/
theorem mpMapLookup_add (h : Wf O m) (hfixed : m.isFixed = false) (depth : Nat) (index : K) :
    (∃ pos k v, Slot O m index pos k v ∧
        mpMapLookup O (depth + 2) m index .addIfNotFound = some (m, some pos)) ∨
      (Absent O.toKeyEq m.entries index ∧ ∃ m' pos v, Adds O m m' index pos v ∧
        mpMapLookup O (depth + 2) m index .addIfNotFound = some (m', some pos)) := by
  obtain ⟨ptrs, hptrs⟩ := Option.ne_none_iff_exists'.mp
    (compareOnlyPtrs_add : m.compareOnlyPtrs O index .addIfNotFound ≠ none)
  rcases h with hhash | hordered
  · rcases hhash.lookup depth hptrs with
      ⟨pos, k, v, hslot, hlookup⟩ | ⟨-, hkind, -⟩ | ⟨-, m', slot, hadds, habsent, hlookup⟩
    · exact .inl ⟨pos, k, v, hslot, hlookup⟩
    · exact absurd rfl hkind
    · exact .inr ⟨habsent, m', slot, none, hadds, hlookup⟩
  · rw [mpMapLookup_ordered (.inl hfixed) hordered hptrs]
    rcases hordered.lookup (fun entry hentry => hit_eq hordered.qstrs hptrs hentry) .addIfNotFound
      with ⟨pos, k, v, hslot, hlookup⟩ | ⟨habsent, hlookup⟩
    · exact .inl ⟨pos, k, v, hslot, congrArg some hlookup⟩
    · exact .inr ⟨habsent, _, _, _, hordered.adds hfixed habsent, congrArg some hlookup⟩

/-- A removing lookup returns where the value of the key is left, or none. -/
theorem mpMapLookup_remove (h : Wf O m) (hfixed : m.isFixed = false) (depth : Nat) (index : K) :
    (∃ m' slot k v a b, Removes O m m' index slot k v a b ∧
        mpMapLookup O (depth + 2) m index .removeIfFound = some (m', some slot)) ∨
      (Absent O.toKeyEq m.entries index ∧
        mpMapLookup O (depth + 2) m index .removeIfFound = some (m, none)) := by
  cases hptrs : m.compareOnlyPtrs O index .removeIfFound with
  | none =>
      exact .inr ⟨absent_of_compareOnlyPtrs h.qstrs hptrs, mpMapLookup_none (.inl hfixed) hptrs⟩
  | some ptrs =>
      rcases h with hhash | hordered
      · rcases hhash.lookup depth hptrs with
          ⟨pos, k, v, hslot, hlookup⟩ | ⟨habsent, -, hlookup⟩ | ⟨hkind, -⟩
        · obtain ⟨c, hc, helem, hhash', hnew, hold⟩ := hhash.removeAt hslot.lt hslot.elem
          refine .inl ⟨m.removeAt pos, pos, k, v, m.before pos, m.after pos, ?_, hlookup⟩
          have halloc : (m.removeAt pos).alloc = m.alloc := alloc_write
          refine ⟨.inl hhash', hslot.equal, hold, hnew, rfl, hhash'.notFixed, ?_,
            ⟨c, helem, hc⟩, ?_⟩
          · rw [halloc]
            exact hslot.lt
          · intro hclean q hq hne hkey
            rw [halloc] at hq
            have hsame : (m.removeAt pos).elem q = m.elem q := elem_write_ne (Ne.symm hne)
            rw [cell, hsame] at hkey
            rw [hsame]
            apply hclean _ _ hkey
            rw [← elem_eq hq]
            exact List.getElem_mem hq
        · exact .inr ⟨habsent, hlookup⟩
        · cases hkind
      · rw [mpMapLookup_ordered (.inl hfixed) hordered hptrs]
        rcases hordered.lookup (fun entry hentry => hit_eq hordered.qstrs hptrs hentry)
          .removeIfFound with ⟨pos, k, v, hslot, hlookup⟩ | ⟨habsent, hlookup⟩
        · obtain ⟨hordered', hnew, hlt, helem, hsame⟩ :=
            hordered.moveDown (hordered.lt_used hslot.lt hslot.elem) hslot.elem
          refine .inl ⟨m.moveDown pos, m.used - 1, k, v, m.before pos, m.after pos, ?_,
            congrArg some hlookup⟩
          refine ⟨.inr hordered', hslot.equal, entries_key hslot.lt hslot.elem, hnew, rfl, hfixed,
            hlt, ⟨.null, helem, Cell.null_ne_key⟩, ?_⟩
          intro hclean q hq hne hkey
          rcases Nat.lt_or_ge q (m.used - 1) with hbefore | hbehind
          · -- only keys are before the end
            have hmem : (m.moveDown pos).elem q ∈
                (m.moveDown pos).table.take (m.moveDown pos).used := by
              rw [← elem_eq hq, List.mem_take_iff_getElem]
              exact ⟨q, Nat.lt_min.mpr ⟨hbefore, hq⟩, rfl⟩
            obtain ⟨l, hl⟩ := hordered'.filled _ hmem
            exact absurd hl (hkey l)
          · have hused : m.used ≤ q := by omega
            rw [cell, hsame q hused] at hkey
            rw [hsame q hused]
            rcases Nat.lt_or_ge q m.alloc with hinside | houtside
            · apply hclean _ _ hkey
              rw [← elem_eq hinside]
              exact List.getElem_mem hinside
            · rw [elem, List.getD_eq_default _ _ houtside]
              rfl
        · exact .inr ⟨habsent, congrArg some hlookup⟩

end Search

end MpMap

end EfiLvgl.Py
