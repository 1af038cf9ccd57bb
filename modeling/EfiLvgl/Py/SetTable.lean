import EfiLvgl.Py.Lookup
import EfiLvgl.Lib.Run
import Mathlib.Data.Set.Basic

/-!
# EfiLvgl.Py.SetTable — the sets of the runtime

`mp_set_t` of `map.c`: a hash table of keys with linear probing. `members` is the set that a table
stands for, up to equality of keys. `mpSetLookup_spec` is what a lookup does to it, whatever the
table looks like, and `set_run` is about all calls of a script.

`mpSetLookup` and `mpSetRehash` call one another; the depth says how often. `none` stands for a
loop that does not end. That memory may run out is left out.
-/

namespace EfiLvgl.Py

open EfiLvgl.Assoc EfiLvgl.Probe EfiLvgl.Run

universe u

/-- `mp_map_lookup_kind_t`, for sets. -/
inductive SetLookupKind where
  | lookup
  | addIfNotFound
  | removeIfFound
  | addIfNotFoundOrRemoveIfFound
deriving DecidableEq, Repr

/-- `lookup_kind & MP_MAP_LOOKUP_ADD_IF_NOT_FOUND` -/
def SetLookupKind.adds (kind : SetLookupKind) : Bool :=
  kind = .addIfNotFound ∨ kind = .addIfNotFoundOrRemoveIfFound

/-- `lookup_kind & MP_MAP_LOOKUP_REMOVE_IF_FOUND` -/
def SetLookupKind.removes (kind : SetLookupKind) : Bool :=
  kind = .removeIfFound ∨ kind = .addIfNotFoundOrRemoveIfFound

/-- `mp_set_t` -/
structure MpSet (K : Type u) where
  used : Nat
  table : List (Cell K)
deriving DecidableEq, Repr

variable {K : Type u}

/-- `mp_set_init` -/
def mpSetInit (n : Nat) : MpSet K := ⟨0, List.replicate n .null⟩

namespace MpSet

def alloc (s : MpSet K) : Nat := s.table.length

/-- `set->table[pos]` -/
def cell (s : MpSet K) (pos : Nat) : Cell K := s.table.getD pos .null

/-- `set->table[pos] = c` -/
def write (s : MpSet K) (pos : Nat) (c : Cell K) : MpSet K := { s with table := s.table.set pos c }

/-- A key comes to a slot. -/
def addAt (s : MpSet K) (pos : Nat) (index : K) : MpSet K :=
  { s.write pos (.key index) with used := s.used + 1 }

/-- What an element that is deleted is replaced by. -/
def freed (s : MpSet K) (pos : Nat) : Cell K :=
  match s.cell ((pos + 1) % s.alloc) with
  | .null => .null
  | _ => .sentinel

/-- An element is deleted. -/
def removeAt (s : MpSet K) (pos : Nat) : MpSet K :=
  { s.write pos (s.freed pos) with used := s.used - 1 }

variable (H : Hashed K)

/-- The search of `mp_set_lookup`, for so many times around. -/
def searchTable (rehash : MpSet K → Option (MpSet K)) (index : K) (kind : SetLookupKind) :
    Nat → MpSet K → Option (MpSet K × Option K)
  | 0, _ => none
  | rounds + 1, s =>
      let start := H.hash index % s.alloc
      match search s.alloc s.cell (H.equal · index) start s.alloc start none with
      | none => none
      | some (.found pos) =>
          match s.cell pos with
          | .key elem => some (if kind.removes then s.removeAt pos else s, some elem)
          | _ => none
      | some (.empty pos avail) =>
          if kind.adds then some (s.addAt (avail.getD pos) index, some index) else some (s, none)
      | some (.around avail) =>
          if kind.adds then
            match avail with
            | some slot => some (s.addAt slot index, some index)
            | none => (rehash s).bind (searchTable rehash index kind rounds)
          else some (s, none)

/-- One element of the old table goes to the new one. -/
def readd (lookup : MpSet K → K → Option (MpSet K × Option K)) (s : MpSet K) :
    Cell K → Option (MpSet K)
  | .key k => (lookup s k).map Prod.fst
  | _ => some s

/-- `mp_set_rehash`, with the lookup that adds a key. -/
def mpSetRehash (lookup : MpSet K → K → Option (MpSet K × Option K)) (s : MpSet K) :
    Option (MpSet K) :=
  s.table.foldlM (readd lookup) (mpSetInit (getHashAllocGreaterOrEqualTo (s.alloc + 1)))

/-- `mp_set_lookup`: the set afterwards, and the element that is returned. -/
def mpSetLookup : Nat → MpSet K → K → SetLookupKind → Option (MpSet K × Option K)
  | 0, _, _, _ => none
  | depth + 1, s, index, kind =>
      let rehash := mpSetRehash fun s index => mpSetLookup depth s index .addIfNotFound
      if s.alloc = 0 then
        if kind.adds then (rehash s).bind (searchTable H rehash index kind 2) else some (s, none)
      else searchTable H rehash index kind 2 s

/-- The loop of `mp_set_remove_first`, for so many slots. -/
def removeFirstFrom (s : MpSet K) : Nat → Nat → MpSet K × Option K
  | 0, _ => (s, none)
  | slots + 1, pos =>
      match s.cell pos with
      | .key elem => (s.removeAt pos, some elem)
      | _ => removeFirstFrom s slots (pos + 1)

/-- `mp_set_remove_first` -/
def mpSetRemoveFirst (s : MpSet K) : MpSet K × Option K := s.removeFirstFrom s.alloc 0

/-- `mp_set_clear` -/
def mpSetClear (_ : MpSet K) : MpSet K := ⟨0, []⟩

/-! ## The set of a table -/

/-- The keys that are equal to one. -/
def classOf (k : K) : Set K := {x | H.equal k x = true}

/-- The set that a table stands for. -/
def members (s : MpSet K) : Set K :=
  {x | ∃ pos < s.alloc, ∃ l, s.cell pos = .key l ∧ H.equal l x = true}

/-- Whether a slot is filled, `MP_SET_SLOT_IS_FILLED`. -/
def isFilled : Cell K → Bool
  | .key _ => true
  | _ => false

def filled (s : MpSet K) : Nat := s.table.countP isFilled

/-- The invariant of a set: each key is found from its hash, no two are equal, and `used` counts
them. -/
structure Wf (s : MpSet K) : Prop where
  sound : Sound H s.alloc s.cell
  used : s.used = s.filled

variable {H} {s : MpSet K} {pos : Nat} {c : Cell K} {k index : K}

theorem alloc_write : (s.write pos c).alloc = s.alloc := List.length_set

theorem cell_eq (hpos : pos < s.table.length) : s.table[pos] = s.cell pos := by
  rw [cell, List.getD_eq_getElem _ _ hpos]

theorem cell_write (hpos : pos < s.alloc) :
    (s.write pos c).cell = Function.update s.cell pos c := by
  funext q
  rw [cell, write, List.getD_eq_getElem?_getD]
  by_cases hq : q = pos
  · rw [hq, Function.update_self, List.getElem?_set_self hpos]
    rfl
  · rw [Function.update_of_ne hq, List.getElem?_set_ne (Ne.symm hq), cell,
      List.getD_eq_getElem?_getD]

theorem filled_write (hpos : pos < s.alloc) : (s.write pos c).filled =
    s.filled - (if isFilled (s.cell pos) then 1 else 0) + (if isFilled c then 1 else 0) := by
  rw [filled, write, List.countP_set hpos, cell_eq hpos]
  rfl

theorem isFilled_free (hc : ∀ l, c ≠ .key l) : isFilled c = false := by
  cases c with
  | null => rfl
  | sentinel => rfl
  | key l => exact absurd rfl (hc l)

theorem freed_ne_key (s : MpSet K) (pos : Nat) (l : K) : s.freed pos ≠ .key l := by
  rw [freed]
  split
  · exact Cell.null_ne_key l
  · exact Cell.sentinel_ne_key l

theorem freed_null (h : s.freed pos = .null) : s.cell ((pos + 1) % s.alloc) = .null := by
  rw [freed] at h
  split at h
  · next hnext => exact hnext
  · cases h

/-- A key that is not there comes to a slot on the way of its search. -/
theorem Wf.addAt (h : Wf H s) {d : Nat} (hd : d < s.alloc)
    (hpos : pos = behind s.alloc (home H s.alloc index) d) (hfree : ∀ l, s.cell pos ≠ .key l)
    (hused : ∀ i < d, s.cell (behind s.alloc (home H s.alloc index) i) ≠ .null)
    (habsent : ∀ p < s.alloc, ∀ l, s.cell p = .key l → H.equal l index = false) :
    Wf H (s.addAt pos index) ∧ (s.addAt pos index).members H = s.members H ∪ classOf H index := by
  have hlt : pos < s.alloc := by
    rw [hpos]
    exact behind_lt (Nat.zero_lt_of_lt hd) d
  have hcell : (s.addAt pos index).cell = Function.update s.cell pos (.key index) := cell_write hlt
  have halloc : (s.addAt pos index).alloc = s.alloc := alloc_write
  constructor
  · constructor
    · rw [halloc, hcell, hpos]
      exact h.sound.insert hd hused habsent
    · have hcount : (s.addAt pos index).filled = _ := filled_write (c := .key index) hlt
      rw [isFilled_free hfree] at hcount
      rw [hcount]
      exact congrArg (· + 1) h.used
  · ext x
    rw [members, members, halloc, hcell]
    constructor
    · -- what is in the set stands in this slot, or in one that is as before
      rintro ⟨p, hp, l, hl, hequal⟩
      by_cases hsame : p = pos
      · rw [hsame, Function.update_self] at hl
        cases hl
        exact .inr hequal
      · rw [Function.update_of_ne hsame] at hl
        exact .inl ⟨p, hp, l, hl, hequal⟩
    · rintro (⟨p, hp, l, hl, hequal⟩ | hequal)
      · have hne : p ≠ pos := by
          rintro rfl
          exact hfree l hl
        refine ⟨p, hp, l, ?_, hequal⟩
        rw [Function.update_of_ne hne]
        exact hl
      · refine ⟨pos, hlt, index, ?_, hequal⟩
        rw [Function.update_self]

/-- An element is taken out, and what is equal to it with it. -/
theorem Wf.removeAt (h : Wf H s) (hpos : pos < s.alloc) (hkey : s.cell pos = .key k) :
    Wf H (s.removeAt pos) ∧ (s.removeAt pos).members H = s.members H \ classOf H k := by
  have hcell : (s.removeAt pos).cell = Function.update s.cell pos (s.freed pos) := cell_write hpos
  have halloc : (s.removeAt pos).alloc = s.alloc := alloc_write
  constructor
  · constructor
    · rw [halloc, hcell]
      exact h.sound.remove (freed_ne_key s pos) freed_null
    · have hcount : (s.removeAt pos).filled = _ := filled_write (c := s.freed pos) hpos
      rw [hkey, isFilled_free (freed_ne_key s pos)] at hcount
      rw [hcount]
      exact congrArg (· - 1) h.used
  · ext x
    rw [members, members, halloc, hcell]
    constructor
    · rintro ⟨p, hp, l, hl, hequal⟩
      by_cases hsame : p = pos
      · rw [hsame, Function.update_self] at hl
        exact absurd hl (freed_ne_key s pos l)
      · rw [Function.update_of_ne hsame] at hl
        refine ⟨⟨p, hp, l, hl, hequal⟩, ?_⟩
        intro hclass
        -- two slots would hold equal keys
        have hboth : H.equal k l = true := H.trans hclass (H.symm hequal)
        exact hsame (h.sound.unique pos hpos p hp k l hkey hl hboth).symm
    · rintro ⟨⟨p, hp, l, hl, hequal⟩, hnot⟩
      have hne : p ≠ pos := by
        rintro rfl
        rw [hkey] at hl
        cases hl
        exact hnot hequal
      refine ⟨p, hp, l, ?_, hequal⟩
      rw [Function.update_of_ne hne]
      exact hl

theorem not_mem_members : index ∉ s.members H ↔
    ∀ p < s.alloc, ∀ l, s.cell p = .key l → H.equal l index = false := by
  constructor
  · intro hnot p hp l hl
    by_contra hequal
    rw [Bool.not_eq_false] at hequal
    exact hnot ⟨p, hp, l, hl, hequal⟩
  · rintro habsent ⟨p, hp, l, hl, hequal⟩
    rw [habsent p hp l hl] at hequal
    cases hequal

/-! ## Lookups -/

/-- What a lookup does: an element that is equal is returned, and deleted if it is to be; otherwise
the key is added, if it is to be, and returned. -/
inductive Does (H : Hashed K) (index : K) (kind : SetLookupKind) (S : Set K) :
    Set K → Option K → Prop where
  | found {l : K} : l ∈ S → H.equal l index = true →
      Does H index kind S (if kind.removes then S \ classOf H index else S) (some l)
  | added : index ∉ S → kind.adds = true → Does H index kind S (S ∪ classOf H index) (some index)
  | absent : index ∉ S → kind.adds = false → Does H index kind S S none

theorem classOf_eq {l : K} (h : H.equal l index = true) : classOf H l = classOf H index := by
  ext x
  constructor
  · intro hx
    exact H.trans (H.symm h) hx
  · intro hx
    exact H.trans h hx

/-- The set is as it was but for the key, in a table of the same size. -/
def Looks (H : Hashed K) (index : K) (kind : SetLookupKind) (s : MpSet K)
    (r : MpSet K × Option K) : Prop :=
  Wf H r.1 ∧ r.1.alloc = s.alloc ∧ r.1.filled ≤ s.filled + 1 ∧
    Does H index kind (s.members H) (r.1.members H) r.2

/-- The key is put in a slot that a search for it has passed on its way. -/
theorem Wf.looks_added (h : Wf H s) {kind : SetLookupKind} {d slot : Nat} (hd : d < s.alloc)
    (hslot : slot = behind s.alloc (home H s.alloc index) d) (hfree : ∀ l, s.cell slot ≠ .key l)
    (hused : ∀ i < d, s.cell (behind s.alloc (home H s.alloc index) i) ≠ .null)
    (hnone : ∀ p < s.alloc, ∀ l, s.cell p = .key l → H.equal l index = false)
    (hadds : kind.adds = true) : Looks H index kind s (s.addAt slot index, some index) := by
  obtain ⟨hwf, hmembers⟩ := h.addAt hd hslot hfree hused hnone
  have hcount : (s.addAt slot index).filled = s.filled + 1 := by
    rw [← hwf.used, ← h.used]
    rfl
  refine ⟨hwf, alloc_write, Nat.le_of_eq hcount, ?_⟩
  rw [hmembers]
  exact .added (not_mem_members.mpr hnone) hadds

/-- The key is not there, and is not to be added. -/
theorem Wf.looks_absent (h : Wf H s) {kind : SetLookupKind}
    (hnone : ∀ p < s.alloc, ∀ l, s.cell p = .key l → H.equal l index = false)
    (hadds : ¬ kind.adds = true) : Looks H index kind s (s, none) :=
  ⟨h, rfl, Nat.le_succ _, .absent (not_mem_members.mpr hnone) ((Bool.not_eq_true _).mp hadds)⟩

/-- An equal element is there, and is taken out if it is to be. -/
theorem Wf.looks_found (h : Wf H s) {kind : SetLookupKind} (hpos : pos < s.alloc)
    (hcell : s.cell pos = .key k) (hequal : H.equal k index = true) :
    Looks H index kind s (if kind.removes then s.removeAt pos else s, some k) := by
  have hmem : k ∈ s.members H := ⟨_, hpos, k, hcell, H.refl k⟩
  have hdoes : Does H index kind (s.members H) _ (some k) := .found hmem hequal
  by_cases hremoves : kind.removes = true
  · obtain ⟨hwf, hmembers⟩ := h.removeAt hpos hcell
    rw [if_pos hremoves] at hdoes
    rw [if_pos hremoves]
    refine ⟨hwf, alloc_write, ?_, ?_⟩
    · rw [← hwf.used, ← h.used]
      exact (Nat.sub_le _ _).trans (Nat.le_succ _)
    · rw [hmembers, classOf_eq hequal]
      exact hdoes
  · rw [if_neg hremoves] at hdoes
    rw [if_neg hremoves]
    exact ⟨h, rfl, Nat.le_succ _, hdoes⟩

/-- A search that comes around and has seen no deleted slot has passed keys only. -/
theorem filled_eq_alloc {start : Nat} {hit : K → Bool} (hstart : start < s.alloc)
    (hpassed : Passed s.alloc start s.cell hit s.alloc)
    (hfull : ∀ i < s.alloc, s.cell (behind s.alloc start i) ≠ .sentinel) :
    s.filled = s.alloc := by
  rw [filled, List.countP_eq_length.mpr]
  · rfl
  · intro c hc
    obtain ⟨p, hp, rfl⟩ := List.getElem_of_mem hc
    obtain ⟨d, hd, hpd⟩ := exists_behind hstart hp
    rw [cell_eq hp, hpd]
    cases hcell : s.cell (behind s.alloc start d) with
    | null => exact absurd hcell (hpassed d hd).1
    | sentinel => exact absurd hcell (hfull d hd)
    | key l => rfl

/-- A search ends with what it was for, unless the table is full and the key is to be added. -/
theorem searchTable_cases (rehash : MpSet K → Option (MpSet K)) (index : K)
    (kind : SetLookupKind) (rounds : Nat) (h : Wf H s) (halloc : 0 < s.alloc) :
    (∃ r, searchTable H rehash index kind (rounds + 1) s = some r ∧ Looks H index kind s r) ∨
      (kind.adds = true ∧ s.filled = s.alloc ∧
        searchTable H rehash index kind (rounds + 1) s =
          (rehash s).bind (searchTable H rehash index kind rounds)) := by
  have hstart : home H s.alloc index < s.alloc := home_lt halloc
  obtain ⟨outcome, hsearch, hlooked⟩ := search_spec hstart s.cell (H.equal · index)
  rw [home] at hsearch
  simp only [searchTable, hsearch]
  have habsent : ∀ {d : Nat}, Passed s.alloc (home H s.alloc index) s.cell (H.equal · index) d →
      (d = s.alloc ∨ s.cell (behind s.alloc (home H s.alloc index) d) = .null) →
      ∀ p < s.alloc, ∀ l, s.cell p = .key l → H.equal l index = false := by
    intro d hpassed hend p hp l hl
    exact h.sound.absent_of_passed (fun _ _ _ _ => rfl) hpassed hend hp hl
  cases hlooked with
  | @found d l hd hpassed hcell hequal =>
      left
      simp only [hcell]
      exact ⟨_, rfl, h.looks_found (behind_lt halloc d) hcell hequal⟩
  | @empty d avail hd hpassed hnull havail =>
      left
      have hnone := habsent hpassed (.inr hnull)
      by_cases hadds : kind.adds = true
      · simp only [if_pos hadds]
        refine ⟨_, rfl, ?_⟩
        rcases havail with ⟨rfl, -⟩ | ⟨i, hi, rfl, hsentinel⟩
        · -- the slot that the search ended at
          apply h.looks_added hd rfl _ (fun i hi => (hpassed i hi).1) hnone hadds
          intro l
          rw [hnull]
          exact Cell.null_ne_key l
        · -- the first deleted slot on the way
          apply h.looks_added (hi.trans hd) rfl _ (fun j hj => (hpassed j (hj.trans hi)).1) hnone
            hadds
          intro l
          rw [hsentinel]
          exact Cell.sentinel_ne_key l
      · simp only [if_neg hadds]
        exact ⟨_, rfl, h.looks_absent hnone hadds⟩
  | @around avail hpassed havail =>
      have hnone := habsent hpassed (.inl rfl)
      by_cases hadds : kind.adds = true
      · simp only [if_pos hadds]
        rcases havail with ⟨rfl, hfull⟩ | ⟨i, hi, rfl, hsentinel⟩
        · exact .inr ⟨hadds, filled_eq_alloc hstart hpassed hfull, rfl⟩
        · left
          refine ⟨_, rfl, ?_⟩
          apply h.looks_added hi rfl _ (fun j hj => (hpassed j (hj.trans hi)).1) hnone hadds
          intro l
          rw [hsentinel]
          exact Cell.sentinel_ne_key l
      · simp only [if_neg hadds]
        exact .inl ⟨_, rfl, h.looks_absent hnone hadds⟩

/-! ## A larger table -/

theorem init_spec (H : Hashed K) (n : Nat) : Wf H (mpSetInit n) ∧ (mpSetInit n).members H = ∅ ∧
    (mpSetInit n : MpSet K).filled = 0 ∧ (mpSetInit n : MpSet K).alloc = n := by
  have hcell : ∀ p, (mpSetInit n : MpSet K).cell p = .null := by
    intro p
    rw [cell, mpSetInit, List.getD_eq_getElem?_getD, List.getElem?_replicate]
    split
    · rfl
    · rfl
  have hcount : (mpSetInit n : MpSet K).filled = 0 := by
    rw [filled, mpSetInit, List.countP_replicate]
    rfl
  refine ⟨⟨?_, hcount.symm⟩, ?_, hcount, List.length_replicate⟩
  · apply Sound.fresh
    intro p _ k
    rw [hcell]
    exact Cell.null_ne_key k
  · ext x
    constructor
    · rintro ⟨p, -, l, hl, -⟩
      rw [hcell] at hl
      exact absurd hl (Cell.null_ne_key l)
    · intro hx
      exact hx.elim

/-- A key that is added is there afterwards, whether it was there before or not. -/
theorem Does.addIfNotFound {S' : Set K} {r : Option K}
    (h : Does H index .addIfNotFound (s.members H) S' r) :
    S' = s.members H ∪ classOf H index := by
  cases h with
  | @found l hmem hequal =>
      symm
      apply Set.union_eq_self_of_subset_right
      intro x hx
      obtain ⟨p, hp, l', hl', hequal'⟩ := hmem
      exact ⟨p, hp, l', hl', H.trans (H.trans hequal' hequal) hx⟩
  | added _ _ => rfl
  | absent _ hadds => cases hadds

theorem mpSetLookup_table {depth : Nat} {kind : SetLookupKind} (halloc : 0 < s.alloc) :
    mpSetLookup H (depth + 1) s index kind =
      searchTable H (mpSetRehash fun s index => mpSetLookup H depth s index .addIfNotFound) index
        kind 2 s := by
  rw [mpSetLookup, if_neg halloc.ne']

/-- All of the old table goes to the new one. -/
theorem foldlM_readd (depth : Nat) (table : List (Cell K)) {s : MpSet K} (h : Wf H s)
    (hroom : table.countP isFilled + s.filled < s.alloc) :
    ∃ s', table.foldlM (readd fun s index => mpSetLookup H (depth + 1) s index .addIfNotFound) s =
        some s' ∧ Wf H s' ∧ s'.alloc = s.alloc ∧
      s'.filled ≤ table.countP isFilled + s.filled ∧
      s'.members H = s.members H ∪ {x | ∃ l, Cell.key l ∈ table ∧ H.equal l x = true} := by
  induction table generalizing s with
  | nil =>
      refine ⟨s, rfl, h, rfl, Nat.le_add_left _ _, ?_⟩
      have hnone : {x | ∃ l, Cell.key l ∈ ([] : List (Cell K)) ∧ H.equal l x = true} = ∅ := by
        ext x
        constructor
        · rintro ⟨l, hl, -⟩
          exact (List.not_mem_nil hl).elim
        · intro hx
          exact hx.elim
      rw [hnone, Set.union_empty]
  | cons c table ih =>
      rw [List.foldlM_cons]
      cases c with
      | key k =>
          rw [List.countP_cons_of_pos rfl] at hroom ⊢
          have halloc : 0 < s.alloc := by omega
          -- there is room for the key, so that the new table is not made larger in turn
          have hcases := searchTable_cases
            (mpSetRehash fun s index => mpSetLookup H depth s index .addIfNotFound) k
            .addIfNotFound 1 h halloc
          rcases hcases with ⟨r, hsearch, hwf, hsame, hcount, hdoes⟩ | ⟨-, hfull, -⟩
          · have hstep : readd (fun s index => mpSetLookup H (depth + 1) s index .addIfNotFound) s
                (.key k) = some r.1 := by
              rw [readd, mpSetLookup_table halloc, hsearch]
              rfl
            have hroom' : table.countP isFilled + r.1.filled < r.1.alloc := by omega
            obtain ⟨s', hfold, hwf', hsame', hcount', hmembers'⟩ := ih hwf hroom'
            refine ⟨s', ?_, hwf', hsame'.trans hsame, by omega, ?_⟩
            · rw [hstep]
              exact hfold
            · rw [hmembers', hdoes.addIfNotFound]
              ext x
              constructor
              · rintro ((hold | hclass) | ⟨l, hl, hequal⟩)
                · exact .inl hold
                · exact .inr ⟨k, List.mem_cons_self, hclass⟩
                · exact .inr ⟨l, List.mem_cons_of_mem _ hl, hequal⟩
              · rintro (hold | ⟨l, hl, hequal⟩)
                · exact .inl (.inl hold)
                · rcases List.mem_cons.mp hl with heq | hlater
                  · cases heq
                    exact .inl (.inr hequal)
                  · exact .inr ⟨l, hlater, hequal⟩
          · omega
      | _ =>
          -- a slot that is not filled is passed over
          rw [List.countP_cons_of_neg (by exact Bool.false_ne_true)] at hroom ⊢
          obtain ⟨s', hfold, hwf', hsame', hcount', hmembers'⟩ := ih h hroom
          refine ⟨s', hfold, hwf', hsame', hcount', ?_⟩
          rw [hmembers']
          ext x
          simp only [List.mem_cons, reduceCtorEq, false_or]

theorem members_eq (s : MpSet K) :
    s.members H = {x | ∃ l, Cell.key l ∈ s.table ∧ H.equal l x = true} := by
  ext x
  constructor
  · rintro ⟨p, hp, l, hl, hequal⟩
    refine ⟨l, ?_, hequal⟩
    rw [← hl, ← cell_eq hp]
    exact List.getElem_mem hp
  · rintro ⟨l, hl, hequal⟩
    obtain ⟨p, hp, hpl⟩ := List.getElem_of_mem hl
    rw [cell_eq hp] at hpl
    exact ⟨p, hp, l, hpl, hequal⟩

/-- A larger table stands for the same set, and has room for more. -/
theorem mpSetRehash_spec (depth : Nat) (s : MpSet K) :
    ∃ s', mpSetRehash (fun s index => mpSetLookup H (depth + 1) s index .addIfNotFound) s =
        some s' ∧ Wf H s' ∧ s'.filled < s'.alloc ∧ s'.members H = s.members H := by
  obtain ⟨hwf, hnone, hcount, halloc⟩ :=
    init_spec H (getHashAllocGreaterOrEqualTo (s.alloc + 1))
  have hlarge := MpMap.le_getHashAllocGreaterOrEqualTo (s.alloc + 1)
  have hfew : s.table.countP isFilled ≤ s.alloc := List.countP_le_length
  have hroom : s.table.countP isFilled +
      (mpSetInit (getHashAllocGreaterOrEqualTo (s.alloc + 1)) : MpSet K).filled <
        (mpSetInit (getHashAllocGreaterOrEqualTo (s.alloc + 1)) : MpSet K).alloc := by
    rw [hcount, halloc]
    omega
  obtain ⟨s', hfold, hwf', hsame, hle, hmembers⟩ := foldlM_readd depth s.table hwf hroom
  refine ⟨s', hfold, hwf', by omega, ?_⟩
  rw [hmembers, hnone, Set.empty_union, members_eq]

/-- A lookup ends, and does to the set what it is for. -/
theorem mpSetLookup_spec (depth : Nat) (h : Wf H s) (index : K) (kind : SetLookupKind) :
    ∃ r, mpSetLookup H (depth + 2) s index kind = some r ∧ Wf H r.1 ∧
      Does H index kind (s.members H) (r.1.members H) r.2 := by
  -- the search in a larger table finds a place
  have hlarger : ∀ rounds, ∃ r,
      (mpSetRehash (fun s index => mpSetLookup H (depth + 1) s index .addIfNotFound) s).bind
          (searchTable H (mpSetRehash fun s index =>
            mpSetLookup H (depth + 1) s index .addIfNotFound) index kind (rounds + 1)) = some r ∧
        Wf H r.1 ∧ Does H index kind (s.members H) (r.1.members H) r.2 := by
    intro rounds
    obtain ⟨s₁, hrehash, hwf₁, hroom, hmembers₁⟩ := mpSetRehash_spec (H := H) depth s
    rw [hrehash, Option.bind_some]
    rcases searchTable_cases
      (mpSetRehash fun s index => mpSetLookup H (depth + 1) s index .addIfNotFound) index kind
      rounds hwf₁ (Nat.zero_lt_of_lt hroom) with ⟨r, hsearch, hwf, -, -, hdoes⟩ | ⟨-, hfull, -⟩
    · rw [hmembers₁] at hdoes
      exact ⟨r, hsearch, hwf, hdoes⟩
    · omega
  rw [mpSetLookup]
  by_cases hempty : s.alloc = 0
  · rw [if_pos hempty]
    by_cases hadds : kind.adds = true
    · rw [if_pos hadds]
      exact hlarger 1
    · rw [if_neg hadds]
      refine ⟨_, rfl, h, .absent ?_ ((Bool.not_eq_true _).mp hadds)⟩
      rintro ⟨p, hp, -⟩
      omega
  · rw [if_neg hempty]
    rcases searchTable_cases
      (mpSetRehash fun s index => mpSetLookup H (depth + 1) s index .addIfNotFound) index kind 1
      h (Nat.pos_of_ne_zero hempty) with ⟨r, hsearch, hwf, -, -, hdoes⟩ | ⟨-, -, hsearch⟩
    · exact ⟨r, hsearch, hwf, hdoes⟩
    · rw [hsearch]
      exact hlarger 0

/-! ## Other calls -/

/-- The first element is taken out. -/
theorem removeFirstFrom_spec (h : Wf H s) (slots : Nat) {pos : Nat} (hslots : pos + slots = s.alloc)
    (hbefore : ∀ p < pos, ∀ l, s.cell p ≠ .key l) :
    (∃ l ∈ s.members H, (s.removeFirstFrom slots pos).2 = some l ∧
        Wf H (s.removeFirstFrom slots pos).1 ∧
        (s.removeFirstFrom slots pos).1.members H = s.members H \ classOf H l) ∨
      s.members H = ∅ ∧ s.removeFirstFrom slots pos = (s, none) := by
  induction slots generalizing pos with
  | zero =>
      right
      refine ⟨?_, rfl⟩
      ext x
      constructor
      · rintro ⟨p, hp, l, hl, -⟩
        exact absurd hl (hbefore p (by omega) l)
      · intro hx
        exact hx.elim
  | succ slots ih =>
      have hlt : pos < s.alloc := by omega
      have hrange : pos + 1 + slots = s.alloc := by omega
      -- a slot that is not filled is passed over
      have hnext : (∀ l, s.cell pos ≠ .key l) → ∀ p < pos + 1, ∀ l, s.cell p ≠ .key l := by
        intro hfree p hp l
        rcases Nat.lt_succ_iff_lt_or_eq.mp hp with hless | rfl
        · exact hbefore p hless l
        · exact hfree l
      rw [removeFirstFrom]
      cases hcell : s.cell pos with
      | key l =>
          left
          obtain ⟨hwf, hmembers⟩ := h.removeAt hlt hcell
          exact ⟨l, ⟨pos, hlt, l, hcell, H.refl l⟩, rfl, hwf, hmembers⟩
      | null =>
          apply ih hrange
          apply hnext
          rw [hcell]
          exact Cell.null_ne_key
      | sentinel =>
          apply ih hrange
          apply hnext
          rw [hcell]
          exact Cell.sentinel_ne_key

/-- What is asked of a set. -/
inductive SetOp (K : Type u) where
  | lookup (kind : SetLookupKind) (index : K)
  | removeFirst
  | clear

variable (H) in
/-- One call, with the element that is returned; `none` is `MP_OBJ_NULL`. -/
def step : Step (MpSet K) (SetOp K) (Option K)
  | s, .lookup kind index => (mpSetLookup H 2 s index kind).map fun r => (r.1, [r.2])
  | s, .removeFirst => some (s.mpSetRemoveFirst.1, [s.mpSetRemoveFirst.2])
  | s, .clear => some (s.mpSetClear, [])

/-- A step of the set; any element may be the first. -/
inductive SetNext (H : Hashed K) (S : Set K) : SetOp K → List (Option K) → Set K → Prop where
  | lookup {kind : SetLookupKind} {index : K} {S' : Set K} {r : Option K} :
      Does H index kind S S' r → SetNext H S (.lookup kind index) [r] S'
  | first {l : K} : l ∈ S → SetNext H S .removeFirst [some l] (S \ classOf H l)
  | empty : S = ∅ → SetNext H S .removeFirst [none] S
  | clear : SetNext H S .clear [] ∅

theorem step_next (h : Wf H s) (op : SetOp K) :
    ∃ s' answers, step H s op = some (s', answers) ∧ Wf H s' ∧
      SetNext H (s.members H) op answers (s'.members H) := by
  cases op with
  | lookup kind index =>
      obtain ⟨r, hlookup, hwf, hdoes⟩ := mpSetLookup_spec 0 h index kind
      rw [step, hlookup]
      exact ⟨r.1, [r.2], rfl, hwf, .lookup hdoes⟩
  | removeFirst =>
      -- the search for the first element begins with no slot passed
      have hbefore : ∀ p < 0, ∀ l, s.cell p ≠ .key l := by
        intro p hp
        omega
      rcases removeFirstFrom_spec h s.alloc (Nat.zero_add _) hbefore with
        ⟨l, hl, hanswer, hwf, hmembers⟩ | ⟨hempty, hsame⟩
      · refine ⟨_, _, rfl, hwf, ?_⟩
        rw [mpSetRemoveFirst, hanswer, hmembers]
        exact .first hl
      · refine ⟨_, _, rfl, ?_, ?_⟩
        · rw [mpSetRemoveFirst, hsame]
          exact h
        · rw [mpSetRemoveFirst, hsame]
          exact .empty hempty
  | clear =>
      obtain ⟨hwf, hnone, -, -⟩ := init_spec H 0
      refine ⟨_, _, rfl, hwf, ?_⟩
      have hclear : (s.mpSetClear).members H = ∅ := hnone
      rw [hclear]
      exact .clear

theorem run_next (ops : List (SetOp K)) (h : Wf H s) :
    ∃ s' answers, run (step H) s ops = some (s', answers) ∧ Wf H s' ∧
      Trace (SetNext H) (s.members H) ops answers (s'.members H) := by
  induction ops generalizing s with
  | nil => exact ⟨s, [], rfl, h, .nil _⟩
  | cons op ops ih =>
      obtain ⟨s₁, answers₁, hstep, hwf₁, hnext⟩ := step_next h op
      obtain ⟨s', answers, hrun, hwf, htrace⟩ := ih hwf₁
      refine ⟨s', answers₁ ++ answers, ?_, hwf, .cons hnext htrace⟩
      simp only [run, hstep, hrun]

/-- Whatever is asked of a new set, in whatever order, no search goes on for ever; the answers are
those of a mathematical set, for which the table stands, and `used` is the number of slots that are
filled, each with another element. -/
theorem set_run (H : Hashed K) (n : Nat) (ops : List (SetOp K)) :
    ∃ s answers, run (step H) (mpSetInit n) ops = some (s, answers) ∧
      Trace (SetNext H) ∅ ops answers (s.members H) ∧ s.used = s.filled ∧
      ∀ p < s.alloc, ∀ q < s.alloc, ∀ k l, s.cell p = .key k → s.cell q = .key l →
        H.equal k l = true → p = q := by
  obtain ⟨hwf, hnone, -, -⟩ := init_spec H n
  obtain ⟨s, answers, hrun, hwf', htrace⟩ := run_next ops hwf
  rw [hnone] at htrace
  exact ⟨s, answers, hrun, htrace, hwf'.used, hwf'.sound.unique⟩

end MpSet

end EfiLvgl.Py
