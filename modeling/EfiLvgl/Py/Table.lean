import EfiLvgl.Py.Map
import Mathlib.Data.List.GetD

/-!
# EfiLvgl.Py.Table — entries and invariants

The entries of a map are the elements that have a key, in the order of the table. A map keeps one of
two invariants, that of a hash table (`Hash`) or that of an array (`Ordered`); what is done to an
element keeps them.
-/

namespace EfiLvgl.Py

open EfiLvgl.Assoc EfiLvgl.Probe

universe u v

variable {K : Type u} {V : Type v}

/-! ## Entries -/

/-- What an element with a key stands for. -/
def Elem.entry (e : Elem K V) : Option (K × Option V) :=
  match e.key with
  | .key k => some (k, e.value)
  | _ => none

def entriesOf (table : List (Elem K V)) : List (K × Option V) := table.filterMap Elem.entry

namespace MpMap

def entries (m : MpMap K V) : List (K × Option V) := entriesOf m.table

/-- The entries before a slot, and those after it. -/
def before (m : MpMap K V) (pos : Nat) : List (K × Option V) := entriesOf (m.table.take pos)
def after (m : MpMap K V) (pos : Nat) : List (K × Option V) := entriesOf (m.table.drop (pos + 1))

variable {m : MpMap K V} {pos : Nat} {e : Elem K V} {k : K} {v : Option V}

theorem entry_key : (Elem.mk (.key k) v).entry = some (k, v) := rfl

theorem entry_eq_some : e.entry = some (k, v) ↔ e = ⟨.key k, v⟩ := by
  rcases e with ⟨key, value⟩
  cases key with
  | null => exact ⟨nofun, nofun⟩
  | sentinel => exact ⟨nofun, nofun⟩
  | key l =>
      rw [entry_key, Option.some.injEq, Prod.mk.injEq, Elem.mk.injEq, Cell.key.injEq]

theorem entry_eq_none (h : ∀ k, e.key ≠ .key k) : e.entry = none := by
  rcases e with ⟨key, value⟩
  cases key with
  | null => rfl
  | sentinel => rfl
  | key l => exact absurd rfl (h l)

theorem entriesOf_cons_free {table : List (Elem K V)} (h : ∀ k, e.key ≠ .key k) :
    entriesOf (e :: table) = entriesOf table := List.filterMap_cons_none (entry_eq_none h)

theorem elem_eq (hpos : pos < m.table.length) : m.table[pos] = m.elem pos := by
  rw [elem, List.getD_eq_getElem _ _ hpos]

theorem entries_eq (hpos : pos < m.alloc) :
    m.entries = m.before pos ++ (m.elem pos).entry.toList ++ m.after pos := by
  have hsplit : m.table = m.table.take pos ++ m.elem pos :: m.table.drop (pos + 1) := by
    rw [← elem_eq hpos, ← List.drop_eq_getElem_cons hpos, List.take_append_drop]
  have hentries := congrArg entriesOf hsplit
  rw [entriesOf, entriesOf, List.filterMap_append, List.filterMap_cons] at hentries
  rw [entries, entriesOf, hentries, before, after, entriesOf, entriesOf, List.append_assoc]
  cases (m.elem pos).entry with
  | none => rfl
  | some entry => rfl

theorem entries_key (hpos : pos < m.alloc) (helem : m.elem pos = ⟨.key k, v⟩) :
    m.entries = m.before pos ++ (k, v) :: m.after pos := by
  rw [entries_eq hpos, helem, entry_key, List.append_assoc]
  rfl

theorem entries_free (hpos : pos < m.alloc) (hfree : ∀ k, m.cell pos ≠ .key k) :
    m.entries = m.before pos ++ m.after pos := by
  rw [entries_eq hpos, entry_eq_none hfree, Option.toList_none, List.append_nil]

@[simp] theorem alloc_write : (m.write pos e).alloc = m.alloc := List.length_set

@[simp] theorem before_write : (m.write pos e).before pos = m.before pos := by
  rw [before, before, write, List.take_set_of_le (Nat.le_refl pos)]

@[simp] theorem after_write : (m.write pos e).after pos = m.after pos := by
  rw [after, after, write, List.drop_set_of_lt (Nat.lt_succ_self pos)]

theorem elem_write (hpos : pos < m.alloc) : (m.write pos e).elem pos = e := by
  rw [elem, write, List.getD_eq_getElem _ _ (by rw [List.length_set]; exact hpos),
    List.getElem_set_self]

theorem elem_write_ne {q : Nat} (hne : pos ≠ q) : (m.write pos e).elem q = m.elem q := by
  rw [elem, elem, write, List.getD_eq_getElem?_getD, List.getD_eq_getElem?_getD,
    List.getElem?_set_ne hne]

theorem cell_write (hpos : pos < m.alloc) :
    (m.write pos e).cell = Function.update m.cell pos e.key := by
  funext q
  by_cases hq : q = pos
  · rw [hq, Function.update_self, cell, elem_write hpos]
  · rw [Function.update_of_ne hq, cell, elem_write_ne (Ne.symm hq), cell]

theorem mem_entries {entry : K × Option V} :
    entry ∈ m.entries ↔ ∃ pos < m.alloc, m.elem pos = ⟨.key entry.1, entry.2⟩ := by
  rw [entries, entriesOf, List.mem_filterMap]
  constructor
  · rintro ⟨e, he, hentry⟩
    obtain ⟨pos, hpos, rfl⟩ := List.getElem_of_mem he
    refine ⟨pos, hpos, ?_⟩
    rw [← elem_eq hpos]
    exact entry_eq_some.mp hentry
  · rintro ⟨pos, hpos, helem⟩
    refine ⟨m.elem pos, ?_, by rw [helem, entry_key]⟩
    rw [← elem_eq hpos]
    exact List.getElem_mem hpos

/-- The key of a cell is one of an entry. -/
theorem mem_of_cell (hpos : pos < m.alloc) (hcell : m.cell pos = .key k) :
    (k, (m.elem pos).value) ∈ m.entries := by
  refine mem_entries.mpr ⟨pos, hpos, ?_⟩
  rw [cell] at hcell
  rw [← hcell]

/-! ## Comparisons -/

section Objects

variable (O : Objects K)

/-- The flag is what it says. -/
def QstrsOnly (m : MpMap K V) : Prop :=
  m.allKeysAreQstrs = true → ∀ entry ∈ m.entries, O.isQstr entry.1 = true

variable {O} {index : K} {kind : LookupKind}

/-- A key that is no string is not in a map of interned strings. -/
theorem absent_of_compareOnlyPtrs (hqstrs : m.QstrsOnly O)
    (h : m.compareOnlyPtrs O index kind = none) : Absent O.toKeyEq m.entries index := by
  rw [compareOnlyPtrs] at h
  split at h
  · next hflag =>
      split at h
      · cases h
      · next hindex =>
          split at h
          · cases h
          · next hstr =>
              intro entry hentry
              exact O.other_ne (hqstrs hflag entry hentry) ((Bool.not_eq_true _).mp hindex)
                ((Bool.not_eq_true _).mp hstr)
  · cases h

theorem compareOnlyPtrs_add : m.compareOnlyPtrs O index .addIfNotFound ≠ none := by
  rw [compareOnlyPtrs]
  split
  · split
    · exact nofun
    · split
      · exact nofun
      · rw [if_neg (by exact fun h => h rfl)]
        exact nofun
  · exact nofun

variable [DecidableEq K]

/-- Comparing pointers is comparing keys. -/
theorem hit_eq {ptrs : Bool} (hqstrs : m.QstrsOnly O)
    (h : m.compareOnlyPtrs O index kind = some ptrs) {entry : K × Option V}
    (hentry : entry ∈ m.entries) : hit O ptrs index entry.1 = O.equal entry.1 index := by
  have hrefl : ∀ key, key = index → O.equal key index = true := by
    rintro key rfl
    exact O.refl key
  rw [Bool.eq_iff_iff, hit, Bool.or_eq_true, decide_eq_true_iff, Bool.and_eq_true]
  constructor
  · rintro (hsame | ⟨-, hequal⟩)
    · exact hrefl _ hsame
    · exact hequal
  · intro hequal
    cases ptrs with
    | false => exact .inr ⟨rfl, hequal⟩
    | true =>
        -- all keys are interned, so the key that is looked for is, too
        left
        rw [compareOnlyPtrs] at h
        split at h
        · next hflag =>
            have hkey := hqstrs hflag entry hentry
            split at h
            · next hindex => exact O.qstr_eq hkey hindex hequal
            · next hindex =>
                split at h
                · cases h
                · next hstr =>
                    rw [O.other_ne hkey ((Bool.not_eq_true _).mp hindex)
                      ((Bool.not_eq_true _).mp hstr)] at hequal
                    cases hequal
        · cases h

end Objects

/-! ## Hash tables -/

section Hash

variable (O : Objects K)

/-- The invariant of a hash table. -/
structure Hash (m : MpMap K V) : Prop where
  notOrdered : m.isOrdered = false
  notFixed : m.isFixed = false
  sound : Sound O.toHashed m.alloc m.cell
  used : m.used = m.entries.length
  qstrs : m.QstrsOnly O

/-- A slot in which a key may be put. -/
def Free (m : MpMap K V) (index : K) (slot : Nat) : Prop :=
  (∀ k, m.cell slot ≠ .key k) ∧
    ∃ d < m.alloc, slot = behind m.alloc (home O.toHashed m.alloc index) d ∧
      ∀ i < d, m.cell (behind m.alloc (home O.toHashed m.alloc index) i) ≠ .null

variable {O} {index : K}

theorem Free.lt {slot : Nat} (h : Free O m index slot) : slot < m.alloc := by
  obtain ⟨-, d, hd, rfl, -⟩ := h
  exact behind_lt (Nat.zero_lt_of_lt hd) d

/-- No two keys of a hash table are equal. -/
theorem Hash.distinct (h : Hash O m) : Distinct O.toKeyEq m.entries := by
  rw [Distinct, entries, entriesOf, List.pairwise_filterMap, List.pairwise_iff_getElem]
  intro i j hi hj hlt entry hentry entry' hentry'
  rw [elem_eq hi] at hentry
  rw [elem_eq hj] at hentry'
  have helem := entry_eq_some.mp hentry
  have helem' := entry_eq_some.mp hentry'
  by_contra hequal
  rw [Bool.not_eq_false] at hequal
  have hsame := h.sound.unique i hi j hj entry.1 entry'.1 (congrArg Elem.key helem)
    (congrArg Elem.key helem') hequal
  exact absurd hsame (Nat.ne_of_lt hlt)

theorem absent_iff : Absent O.toKeyEq m.entries index ↔
    ∀ pos < m.alloc, ∀ k, m.cell pos = .key k → O.equal k index = false := by
  constructor
  · intro habsent pos hpos k hk
    exact habsent _ (mem_of_cell hpos hk)
  · intro hcells entry hentry
    obtain ⟨pos, hpos, helem⟩ := mem_entries.mp hentry
    exact hcells pos hpos entry.1 (congrArg Elem.key helem)

theorem alloc_addAt : (m.addAt O pos index).alloc = m.alloc := alloc_write

theorem before_addAt : (m.addAt O pos index).before pos = m.before pos := before_write

theorem after_addAt : (m.addAt O pos index).after pos = m.after pos := after_write

theorem elem_addAt (hpos : pos < m.alloc) :
    (m.addAt O pos index).elem pos = ⟨.key index, none⟩ := elem_write hpos

theorem cell_addAt (hpos : pos < m.alloc) :
    (m.addAt O pos index).cell = Function.update m.cell pos (.key index) := cell_write hpos

/-- A key that is not there comes to a free slot. -/
theorem Hash.addAt {slot : Nat} (h : Hash O m) (hfree : Free O m index slot)
    (habsent : Absent O.toKeyEq m.entries index) :
    Hash O (m.addAt O slot index) ∧
      (m.addAt O slot index).entries = m.before slot ++ (index, none) :: m.after slot ∧
      m.entries = m.before slot ++ m.after slot := by
  have hpos := hfree.lt
  have hold := entries_free hpos hfree.1
  have hnew : (m.addAt O slot index).entries = m.before slot ++ (index, none) :: m.after slot := by
    have hwritten := entries_key (m := m.write slot ⟨.key index, none⟩)
      (by rw [alloc_write]; exact hpos) (elem_write hpos)
    rw [before_write, after_write] at hwritten
    exact hwritten
  refine ⟨?_, hnew, hold⟩
  constructor
  · exact h.notOrdered
  · exact h.notFixed
  · obtain ⟨-, d, hd, hslot, hused⟩ := hfree
    -- the slot is on the way of a search for the key
    have hsound := h.sound.insert hd hused (absent_iff.mp habsent)
    rw [← hslot, ← cell_write (e := ⟨.key index, none⟩) hpos] at hsound
    have halloc : (m.write slot ⟨.key index, none⟩).alloc = m.alloc := alloc_write
    rw [← halloc] at hsound
    exact hsound
  · have hused := h.used
    rw [hold, List.length_append] at hused
    rw [hnew, List.length_append, List.length_cons]
    exact congrArg (· + 1) hused
  · intro hflag entry hentry
    obtain ⟨hqstrs, hindex⟩ := (Bool.and_eq_true _ _).mp hflag
    rw [hnew, List.mem_append, List.mem_cons] at hentry
    -- the flag is only kept if the new key is interned
    have hkeep : ∀ entry ∈ m.before slot ++ m.after slot, O.isQstr entry.1 = true := by
      rw [← hold]
      exact h.qstrs hqstrs
    rcases hentry with hbefore | rfl | hafter
    · exact hkeep entry (List.mem_append_left _ hbefore)
    · exact hindex
    · exact hkeep entry (List.mem_append_right _ hafter)

/-- A key is taken out, and its value stays in the slot. -/
theorem Hash.remove {c : Cell K} (h : Hash O m) (hpos : pos < m.alloc)
    (helem : m.elem pos = ⟨.key k, v⟩) (hc : ∀ l, c ≠ .key l)
    (hnext : c = .null → m.cell ((pos + 1) % m.alloc) = .null) (value : Option V) :
    Hash O { m.write pos ⟨c, value⟩ with used := m.used - 1 } ∧
      (m.write pos ⟨c, value⟩).entries = m.before pos ++ m.after pos ∧
      m.entries = m.before pos ++ (k, v) :: m.after pos := by
  have hold := entries_key hpos helem
  have hnew : (m.write pos ⟨c, value⟩).entries = m.before pos ++ m.after pos := by
    have hwritten : (m.write pos ⟨c, value⟩).entries =
        (m.write pos ⟨c, value⟩).before pos ++ (m.write pos ⟨c, value⟩).after pos :=
      entries_free (by rw [alloc_write]; exact hpos) (by rw [cell, elem_write hpos]; exact hc)
    rwa [before_write, after_write] at hwritten
  refine ⟨?_, hnew, hold⟩
  constructor
  · exact h.notOrdered
  · exact h.notFixed
  · have hsound := h.sound.remove hc hnext
    rw [← cell_write (e := ⟨c, value⟩) hpos] at hsound
    have halloc : (m.write pos ⟨c, value⟩).alloc = m.alloc := alloc_write
    rw [← halloc] at hsound
    exact hsound
  · have hused := h.used
    rw [hold, List.length_append, List.length_cons] at hused
    have hlength : (m.write pos ⟨c, value⟩).entries.length = m.used - 1 := by
      rw [hnew, List.length_append, hused]
      rfl
    exact hlength.symm
  · intro hflag entry hentry
    have hmem : entry ∈ m.before pos ++ m.after pos := by
      rw [← hnew]
      exact hentry
    apply h.qstrs hflag
    rw [hold]
    rcases List.mem_append.mp hmem with hbefore | hafter
    · exact List.mem_append_left _ hbefore
    · exact List.mem_append_right _ (List.mem_cons_of_mem _ hafter)

theorem Hash.removeAt (h : Hash O m) (hpos : pos < m.alloc) (helem : m.elem pos = ⟨.key k, v⟩) :
    ∃ c : Cell K, (∀ l, c ≠ .key l) ∧ (m.removeAt pos).elem pos = ⟨c, v⟩ ∧
      Hash O (m.removeAt pos) ∧ (m.removeAt pos).entries = m.before pos ++ m.after pos ∧
      m.entries = m.before pos ++ (k, v) :: m.after pos := by
  rw [MpMap.removeAt, helem]
  cases hcell : m.cell ((pos + 1) % m.alloc) with
  | null =>
      have hremove := h.remove hpos helem (c := .null) nofun (fun _ => hcell) v
      exact ⟨.null, nofun, elem_write hpos, hremove⟩
  | sentinel =>
      have hremove := h.remove hpos helem (c := .sentinel) nofun nofun v
      exact ⟨.sentinel, nofun, elem_write hpos, hremove⟩
  | key l =>
      have hremove := h.remove hpos helem (c := .sentinel) nofun nofun v
      exact ⟨.sentinel, nofun, elem_write hpos, hremove⟩

end Hash

/-! ## Arrays -/

section Ordered

variable (O : Objects K)

/-- The invariant of an array: as many elements as are used, and nothing behind them. -/
structure Ordered (m : MpMap K V) : Prop where
  ordered : m.isOrdered = true
  le : m.used ≤ m.alloc
  filled : ∀ e ∈ m.table.take m.used, ∃ k, e.key = .key k
  rest : ∀ e ∈ m.table.drop m.used, e.key = .null
  distinct : Distinct O.toKeyEq m.entries
  qstrs : m.QstrsOnly O

variable {O} {index : K}

theorem entriesOf_append (table table' : List (Elem K V)) :
    entriesOf (table ++ table') = entriesOf table ++ entriesOf table' := List.filterMap_append

theorem entriesOf_null {table : List (Elem K V)} (h : ∀ e ∈ table, e.key = .null) :
    entriesOf table = [] := by
  rw [entriesOf, List.filterMap_eq_nil_iff]
  intro e he
  apply entry_eq_none
  intro k
  rw [h e he]
  exact nofun

theorem length_entriesOf {table : List (Elem K V)} (h : ∀ e ∈ table, ∃ k, e.key = .key k) :
    (entriesOf table).length = table.length := by
  rw [entriesOf, List.filterMap_length_eq_length]
  intro e he
  obtain ⟨k, hk⟩ := h e he
  rw [Elem.entry, hk]
  rfl

theorem Ordered.entries_take (h : Ordered O m) : m.entries = entriesOf (m.table.take m.used) := by
  have hsplit := entriesOf_append (m.table.take m.used) (m.table.drop m.used)
  rw [List.take_append_drop, entriesOf_null h.rest, List.append_nil] at hsplit
  exact hsplit

theorem Ordered.length_take (h : Ordered O m) : (m.table.take m.used).length = m.used :=
  List.length_take_of_le h.le

theorem Ordered.used (h : Ordered O m) : m.used = m.entries.length := by
  rw [h.entries_take, length_entriesOf h.filled, h.length_take]

/-- A table that is made of the elements that are used and nothing behind them. -/
theorem Ordered.of_append {a b : List (Elem K V)} (hordered : m.isOrdered = true)
    (htable : m.table = a ++ b) (hused : m.used = a.length)
    (hfilled : ∀ e ∈ a, ∃ k, e.key = .key k) (hrest : ∀ e ∈ b, e.key = .null)
    (hdistinct : Distinct O.toKeyEq (entriesOf a))
    (hqstrs : m.allKeysAreQstrs = true → ∀ entry ∈ entriesOf a, O.isQstr entry.1 = true) :
    Ordered O m ∧ m.entries = entriesOf a := by
  have hentries : m.entries = entriesOf a := by
    rw [entries, htable, entriesOf_append, entriesOf_null hrest, List.append_nil]
  refine ⟨?_, hentries⟩
  constructor
  · exact hordered
  · rw [alloc, htable, hused, List.length_append]
    exact Nat.le_add_right _ _
  · rw [htable, hused, List.take_left]
    exact hfilled
  · rw [htable, hused, List.drop_left]
    exact hrest
  · rw [hentries]
    exact hdistinct
  · intro hflag
    rw [hentries]
    exact hqstrs hflag

/-- The table with a key behind the others; what its element held before is not cleared. -/
theorem Ordered.append_table (h : Ordered O m) (index : K) :
    ∃ rest, (m.append O index).table =
        m.table.take m.used ++ ⟨.key index, (m.elem m.used).value⟩ :: rest ∧
      ∀ e ∈ rest, e ∈ m.table.drop m.used ∨ e = .zero := by
  by_cases hfull : m.used = m.alloc
  · have hlength : m.used = m.table.length := hfull
    have hvalue : m.elem m.used = .zero := by
      rw [elem, List.getD_eq_default _ _ (Nat.le_of_eq hlength.symm)]
    have htake : m.table.take m.used = m.table := List.take_of_length_le (Nat.le_of_eq hlength.symm)
    refine ⟨List.replicate 3 .zero, ?_, fun e he => .inr (List.eq_of_mem_replicate he)⟩
    simp only [MpMap.append, if_pos hfull]
    rw [hvalue, htake, List.getD_append_right _ _ _ _ (Nat.le_of_eq hlength.symm),
      List.set_append_right _ _ (Nat.le_of_eq hlength.symm), hlength, Nat.sub_self]
    rfl
  · have hlt : m.used < m.table.length := Nat.lt_of_le_of_ne h.le hfull
    refine ⟨m.table.drop (m.used + 1), ?_, ?_⟩
    · simp only [MpMap.append, if_neg hfull]
      exact List.set_eq_take_append_cons_drop.trans (if_pos hlt)
    · intro e he
      left
      rw [List.drop_eq_getElem_cons hlt]
      exact List.mem_cons_of_mem _ he

/-- A key comes behind the others. -/
theorem Ordered.append (h : Ordered O m) (habsent : Absent O.toKeyEq m.entries index) :
    Ordered O (m.append O index) ∧
      (m.append O index).entries = m.entries ++ [(index, (m.elem m.used).value)] ∧
      (m.append O index).elem m.used = ⟨.key index, (m.elem m.used).value⟩ := by
  obtain ⟨rest, htable, hrest⟩ := h.append_table index
  have hone : entriesOf [(⟨.key index, (m.elem m.used).value⟩ : Elem K V)] =
      [(index, (m.elem m.used).value)] := rfl
  have hentries : entriesOf (m.table.take m.used ++ [⟨.key index, (m.elem m.used).value⟩]) =
      m.entries ++ [(index, (m.elem m.used).value)] := by
    rw [entriesOf_append, hone, h.entries_take]
  have hordered := Ordered.of_append (O := O) (m := m.append O index)
    (a := m.table.take m.used ++ [⟨.key index, (m.elem m.used).value⟩]) (b := rest)
    h.ordered (by rw [htable, List.append_assoc]; rfl)
    (by rw [List.length_append, h.length_take]; rfl) ?_ ?_ ?_ ?_
  · refine ⟨hordered.1, hordered.2.trans hentries, ?_⟩
    rw [elem, htable, List.getD_append_right _ _ _ _ (Nat.le_of_eq h.length_take), h.length_take,
      Nat.sub_self]
    rfl
  · intro e he
    rcases List.mem_append.mp he with hold | hnew
    · exact h.filled e hold
    · rw [List.mem_singleton.mp hnew]
      exact ⟨index, rfl⟩
  · intro e he
    rcases hrest e he with hold | rfl
    · exact h.rest e hold
    · rfl
  · -- a key that was absent is new at the end
    rw [hentries]
    have hinsert := Distinct.insert (a := m.entries) (b := [])
      (by rw [List.append_nil]; exact h.distinct) (by rw [List.append_nil]; exact habsent)
      (m.elem m.used).value
    exact hinsert
  · intro hflag entry hentry
    obtain ⟨hqstrs, hindex⟩ := (Bool.and_eq_true _ _).mp hflag
    rw [hentries, List.mem_append] at hentry
    rcases hentry with hold | hnew
    · exact h.qstrs hqstrs entry hold
    · rw [List.mem_singleton.mp hnew]
      exact hindex

/-- A key is taken out: those behind it move down, and what it was for is behind the last one. -/
theorem Ordered.moveDown (h : Ordered O m) (hpos : pos < m.used)
    (helem : m.elem pos = ⟨.key k, v⟩) :
    Ordered O (m.moveDown pos) ∧ (m.moveDown pos).entries = m.before pos ++ m.after pos ∧
      m.used - 1 < (m.moveDown pos).alloc ∧
      (m.moveDown pos).elem (m.used - 1) = ⟨.null, v⟩ ∧
      ∀ q, m.used ≤ q → (m.moveDown pos).elem q = m.elem q := by
  have hlt : pos < m.alloc := Nat.lt_of_lt_of_le hpos h.le
  have hvalue : (m.elem pos).value = v := by rw [helem]
  have htable : (m.moveDown pos).table =
      (m.table.take m.used).eraseIdx pos ++ ⟨.null, v⟩ :: m.table.drop m.used := by
    rw [MpMap.moveDown, hvalue]
  have hlength : ((m.table.take m.used).eraseIdx pos).length = m.used - 1 := by
    rw [List.length_eraseIdx_of_lt (by rw [h.length_take]; exact hpos), h.length_take]
  have hentries : entriesOf ((m.table.take m.used).eraseIdx pos) = m.before pos ++ m.after pos := by
    -- the slots behind `used` hold no pairs, so that only those before move
    have hafter : m.after pos = entriesOf ((m.table.take m.used).drop (pos + 1)) := by
      have hsplit : m.table.drop (pos + 1) =
          (m.table.take m.used).drop (pos + 1) ++ m.table.drop m.used := by
        conv_lhs => rw [← List.take_append_drop m.used m.table]
        rw [List.drop_append_of_le_length (by rw [h.length_take]; exact hpos)]
      rw [after, hsplit, entriesOf_append, entriesOf_null h.rest, List.append_nil]
    rw [List.eraseIdx_eq_take_drop_succ, entriesOf_append, List.take_take,
      Nat.min_eq_left hpos.le, hafter, before]
  have hold := entries_key hlt helem
  have hmem : ∀ e ∈ (m.table.take m.used).eraseIdx pos, e ∈ m.table.take m.used :=
    fun e he => List.mem_of_mem_eraseIdx he
  have hordered := Ordered.of_append (O := O) (m := m.moveDown pos) h.ordered htable hlength.symm
    (fun e he => h.filled e (hmem e he)) ?_ ?_ ?_
  · refine ⟨hordered.1, hordered.2.trans hentries, ?_, ?_, ?_⟩
    · rw [alloc, htable, List.length_append, hlength, List.length_cons]
      omega
    · rw [elem, htable, List.getD_append_right _ _ _ _ (Nat.le_of_eq hlength), hlength,
        Nat.sub_self]
      rfl
    · intro q hq
      have hbehind : q - (m.used - 1) = q - m.used + 1 := by omega
      rw [elem, elem, htable, List.getD_append_right _ _ _ _ (by omega), hlength, hbehind,
        List.getD_cons_succ, List.getD_eq_getElem?_getD, List.getD_eq_getElem?_getD,
        List.getElem?_drop, Nat.add_sub_cancel' hq]
  · intro e he
    rcases List.mem_cons.mp he with rfl | hrest
    · rfl
    · exact h.rest e hrest
  · have hdistinct := h.distinct
    rw [hold] at hdistinct
    rw [hentries]
    exact hdistinct.remove
  · intro hflag entry hentry
    rw [hentries] at hentry
    apply h.qstrs hflag
    rw [hold]
    rcases List.mem_append.mp hentry with hbefore | hafter
    · exact List.mem_append_left _ hbefore
    · exact List.mem_append_right _ (List.mem_cons_of_mem _ hafter)

end Ordered

/-- The keys of a full table are as many as it has slots. -/
theorem length_entries_of_full (h : ∀ pos < m.alloc, ∃ k, m.cell pos = .key k) :
    m.entries.length = m.alloc := by
  apply length_entriesOf
  intro e he
  obtain ⟨pos, hpos, rfl⟩ := List.getElem_of_mem he
  obtain ⟨k, hk⟩ := h pos hpos
  exact ⟨k, by rw [elem_eq hpos]; exact hk⟩

/-! ## Both kinds of map -/

section Wf

variable (O : Objects K)

/-- The map is a hash table or an array. -/
def Wf (m : MpMap K V) : Prop := Hash O m ∨ Ordered O m

/-- Behind a key that has been taken out, no value is left. -/
def Clean (m : MpMap K V) : Prop := ∀ e ∈ m.table, (∀ k, e.key ≠ .key k) → e.value = none

variable {O}

theorem Wf.distinct (h : Wf O m) : Distinct O.toKeyEq m.entries :=
  h.elim Hash.distinct Ordered.distinct

theorem Wf.used (h : Wf O m) : m.used = m.entries.length := h.elim Hash.used Ordered.used

theorem Wf.qstrs (h : Wf O m) : m.QstrsOnly O := h.elim Hash.qstrs Ordered.qstrs

/-- An array has its keys before the end. -/
theorem Ordered.lt_used (h : Ordered O m) (hpos : pos < m.alloc)
    (helem : m.elem pos = ⟨.key k, v⟩) : pos < m.used := by
  by_contra hbehind
  have hmem : m.elem pos ∈ m.table.drop m.used := by
    rw [← elem_eq hpos]
    exact List.mem_drop_iff_getElem.mpr
      ⟨pos - m.used, by rw [alloc] at hpos; omega, by congr 1; omega⟩
  have hnull := h.rest _ hmem
  rw [helem] at hnull
  cases hnull

/-- No slot is marked as used before, and none holds a value alone. -/
structure Fresh (m : MpMap K V) : Prop where
  noSentinel : ∀ pos, m.cell pos ≠ .sentinel
  clean : Clean m

/-- An element with a key is written. -/
theorem Clean.write (h : Clean m) : Clean (m.write pos ⟨.key k, v⟩) := by
  intro e he hkey
  rcases List.mem_or_eq_of_mem_set he with hold | rfl
  · exact h e hold hkey
  · exact absurd rfl (hkey k)

/-- A table that `m_new0` has made. -/
theorem Hash.of_replicate {n : Nat} (hordered : m.isOrdered = false) (hfixed : m.isFixed = false)
    (hused : m.used = 0) (htable : m.table = List.replicate n .zero) :
    Hash O m ∧ Fresh m ∧ m.entries = [] := by
  -- inside the table and behind it
  have hcell : ∀ pos, m.cell pos = .null := by
    intro pos
    rw [cell, elem, htable]
    rcases Nat.lt_or_ge pos n with hlt | hge
    · rw [List.getD_replicate _ hlt]
      rfl
    · rw [List.getD_eq_default _ _ (by rw [List.length_replicate]; exact hge)]
      rfl
  have hentries : m.entries = [] := by
    apply entriesOf_null
    intro e he
    rw [htable] at he
    rw [List.eq_of_mem_replicate he]
    rfl
  refine ⟨⟨hordered, hfixed, ?_, ?_, ?_⟩, ?_, hentries⟩
  · apply Sound.fresh
    intro p _ k
    rw [hcell]
    exact nofun
  · rw [hused, hentries, List.length_nil]
  · intro _ entry hentry
    rw [hentries] at hentry
    cases hentry
  · constructor
    · intro pos
      rw [hcell]
      exact nofun
    · intro e he _
      rw [htable] at he
      rw [List.eq_of_mem_replicate he]
      rfl

/-- What is written where no key is leaves the keys as they are. -/
theorem Wf.setValue_free (h : Wf O m) (hpos : pos < m.alloc) (hfree : ∀ k, m.cell pos ≠ .key k)
    (value : Option V) :
    Wf O (m.setValue pos value) ∧ (m.setValue pos value).entries = m.entries := by
  have hentries : (m.setValue pos value).entries = m.entries := by
    have hwritten : (m.setValue pos value).entries =
        (m.setValue pos value).before pos ++ (m.setValue pos value).after pos :=
      entries_free (by rw [setValue, alloc_write]; exact hpos)
        (by rw [setValue, cell, elem_write hpos]; exact hfree)
    rw [setValue, before_write, after_write] at hwritten
    rw [entries_free hpos hfree, setValue, hwritten]
  have hcell : (m.setValue pos value).cell = m.cell := by
    rw [setValue, cell_write hpos]
    exact Function.update_eq_self pos m.cell
  have halloc : (m.setValue pos value).alloc = m.alloc := alloc_write
  have hqstrs : (m.setValue pos value).QstrsOnly O := by
    intro hflag
    rw [hentries]
    exact h.qstrs hflag
  refine ⟨?_, hentries⟩
  rcases h with hhash | hordered
  · left
    refine ⟨hhash.notOrdered, hhash.notFixed, ?_, ?_, hqstrs⟩
    · rw [hcell, halloc]
      exact hhash.sound
    · rw [hentries]
      exact hhash.used
  · right
    -- a slot without a key is not among those in use
    have hbehind : m.used ≤ pos := by
      by_contra hbefore
      have hmem : m.elem pos ∈ m.table.take m.used := by
        rw [← elem_eq hpos, List.mem_take_iff_getElem]
        exact ⟨pos, by rw [alloc] at hpos; omega, rfl⟩
      obtain ⟨k, hk⟩ := hordered.filled _ hmem
      exact hfree k hk
    refine ⟨hordered.ordered, ?_, ?_, ?_, ?_, hqstrs⟩
    · rw [halloc]
      exact hordered.le
    · have htake : (m.setValue pos value).table.take m.used = m.table.take m.used :=
        List.take_set_of_le hbehind
      intro e he
      exact hordered.filled e (htake ▸ he)
    · intro e he
      have hset : (m.setValue pos value).table.drop m.used =
          (m.table.drop m.used).set (pos - m.used) { m.elem pos with value } := by
        rw [setValue, write, List.drop_set, if_neg (Nat.not_lt.mpr hbehind)]
      have hmem : e ∈ (m.table.drop m.used).set (pos - m.used) { m.elem pos with value } :=
        hset ▸ he
      -- the slot with the new value still has no key
      rcases List.mem_or_eq_of_mem_set hmem with hold | rfl
      · exact hordered.rest e hold
      · have helem : m.elem pos ∈ m.table.drop m.used := by
          rw [← elem_eq hpos]
          exact List.mem_drop_iff_getElem.mpr
            ⟨pos - m.used, by rw [alloc] at hpos; omega, by congr 1; omega⟩
        have hnull := hordered.rest _ helem
        exact hnull
    · rw [hentries]
      exact hordered.distinct

section SetValue

variable (hpos : pos < m.alloc) (helem : m.elem pos = ⟨.key k, v⟩) (v' : Option V)

include helem in
theorem setValue_eq : m.setValue pos v' = m.write pos ⟨.key k, v'⟩ := by
  rw [setValue, helem]

include hpos helem

theorem entries_setValue :
    (m.setValue pos v').entries = m.before pos ++ (k, v') :: m.after pos := by
  have hwritten := entries_key (m := m.write pos ⟨.key k, v'⟩)
    (by rw [alloc_write]; exact hpos) (elem_write hpos)
  rw [before_write, after_write] at hwritten
  rw [setValue_eq helem, hwritten]

theorem cell_setValue : (m.setValue pos v').cell = m.cell := by
  have hcell : m.cell pos = .key k := by rw [cell, helem]
  rw [setValue_eq helem, cell_write hpos, ← hcell, Function.update_eq_self]

/-- The keys of the entries stay. -/
theorem qstrs_setValue (h : m.QstrsOnly O) : (m.setValue pos v').QstrsOnly O := by
  intro hflag entry hentry
  rw [entries_setValue hpos helem, List.mem_append, List.mem_cons] at hentry
  have hold := h hflag
  rw [entries_key hpos helem] at hold
  rcases hentry with hbefore | rfl | hafter
  · exact hold entry (List.mem_append_left _ hbefore)
  · exact hold (k, v) (List.mem_append_right _ List.mem_cons_self)
  · exact hold entry (List.mem_append_right _ (List.mem_cons_of_mem _ hafter))

theorem Hash.setValue (h : Hash O m) : Hash O (m.setValue pos v') where
  notOrdered := h.notOrdered
  notFixed := h.notFixed
  sound := by
    rw [cell_setValue hpos helem, setValue_eq helem, alloc_write]
    exact h.sound
  used := by
    have hused := h.used
    rw [entries_key hpos helem, List.length_append, List.length_cons] at hused
    rw [entries_setValue hpos helem, List.length_append, List.length_cons]
    exact hused
  qstrs := qstrs_setValue hpos helem v' h.qstrs

theorem Ordered.setValue (h : Ordered O m) : Ordered O (m.setValue pos v') where
  ordered := h.ordered
  le := by
    rw [setValue_eq helem, alloc_write]
    exact h.le
  filled := by
    intro e he
    rw [setValue_eq helem, write, List.take_set] at he
    rcases List.mem_or_eq_of_mem_set he with hold | rfl
    · exact h.filled e hold
    · exact ⟨k, rfl⟩
  rest := by
    rw [setValue_eq helem, write, List.drop_set_of_lt (h.lt_used hpos helem)]
    exact h.rest
  distinct := by
    have hdistinct := h.distinct
    rw [entries_key hpos helem] at hdistinct
    rw [entries_setValue hpos helem]
    exact hdistinct.replace v'
  qstrs := qstrs_setValue hpos helem v' h.qstrs

theorem Wf.setValue (h : Wf O m) : Wf O (m.setValue pos v') :=
  h.imp (Hash.setValue hpos helem v') (Ordered.setValue hpos helem v')

end SetValue

end Wf

end MpMap

end EfiLvgl.Py
