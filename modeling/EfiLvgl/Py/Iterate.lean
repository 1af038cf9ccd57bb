import EfiLvgl.Py.Dict

/-!
# EfiLvgl.Py.Iterate — what iteration sees of a dictionary

`dict_binary_op` compares two dictionaries by going through one of them with `dict_iter_next`.
`dictEqual_dict`: of two that are a `dict`, it says whether they have the same keys with equal
values, whatever their tables look like. `popitem_loses`: `dict_popitem` marks an element of an
`OrderedDict` as it does in a hash table, and the last pair is lost.
-/

namespace EfiLvgl.Py

open EfiLvgl.Assoc EfiLvgl.Probe

universe u

/-- The types that compare as dictionaries. -/
inductive DictType where
  | dict
  | orderedDict
deriving DecidableEq, Repr

namespace MpMap

variable {K V : Type u} [DecidableEq K] (O : Objects K) (valueEqual : V → V → Bool)

/-! ## Comparisons -/

/-- `mp_obj_equal` of two values that are there. -/
def valuesEqual : Option V → Option V → Bool
  | some v, some w => valueEqual v w
  | _, _ => false

/-- Each element is looked up in the other dictionary. -/
def lookupLoop (lhs rhs : MpMap K V) : Nat → Nat → Option Bool
  | 0, _ => none
  | fuel + 1, cur =>
      match lhs.dictIterNext cur with
      | none => some true
      | some (pos, next) =>
          match next.key with
          | .key k =>
              match mpMapLookup O 2 rhs k .lookup with
              | none => none
              | some (_, none) => some false
              | some (_, some slot) =>
                  if valuesEqual valueEqual next.value (rhs.elem slot).value then
                    lookupLoop lhs rhs fuel (pos + 1)
                  else some false
          | _ => none

/-- Both dictionaries are gone through at once. -/
def pairLoop (lhs rhs : MpMap K V) : Nat → Nat → Nat → Option Bool
  | 0, _, _ => none
  | fuel + 1, c₁, c₂ =>
      match lhs.dictIterNext c₁, rhs.dictIterNext c₂ with
      | some (pos₁, e₁), some (pos₂, e₂) =>
          match e₁.key, e₂.key with
          | .key k₁, .key k₂ =>
              if O.equal k₁ k₂ && valuesEqual valueEqual e₁.value e₂.value then
                pairLoop lhs rhs fuel (pos₁ + 1) (pos₂ + 1)
              else some false
          | _, _ => none
      | none, none => some true
      | _, _ => some false

/-- `dict_binary_op` with `MP_BINARY_OP_EQUAL`. -/
def dictEqual (lhs rhs : MpMap K V) (lhsType rhsType : DictType) : Option Bool :=
  if lhsType = .orderedDict ∧ rhsType = .orderedDict then
    pairLoop O valueEqual lhs rhs (lhs.alloc + 1) 0 0
  else if rhsType = .dict then
    if lhs.used ≠ rhs.used then some false
    else lookupLoop O valueEqual lhs rhs (lhs.alloc + 1) 0
  else some false

variable {O} {lhs rhs m : MpMap K V} {l l' : List (K × V)}

/-! ## The pairs of a map -/

omit [DecidableEq K] in
/-- The pairs that a map holds, in the order of its table. -/
theorem Holds.exists_pairs (h : Holds O m l) :
    ∃ pairs : List (K × V), m.entries = pairs.map entryOf ∧ pairs.Perm l := by
  have hback : ∀ l : List (K × V),
      (l.map entryOf).filterMap (fun e => e.2.map fun v => (e.1, v)) = l := by
    intro l
    rw [List.filterMap_map]
    exact List.filterMap_some
  have hforth : ∀ entries : List (K × Option V), (∀ e ∈ entries, ∃ v, e.2 = some v) →
      (entries.filterMap fun e => e.2.map fun v => (e.1, v)).map entryOf = entries := by
    intro entries hsome
    induction entries with
    | nil => rfl
    | cons e entries ih =>
        obtain ⟨v, hv⟩ := hsome e List.mem_cons_self
        have hrest := ih fun f hf => hsome f (List.mem_cons_of_mem e hf)
        rw [List.filterMap_cons_some (b := (e.1, v)) (by rw [hv]; rfl), List.map_cons, hrest,
          entryOf, ← hv]
  refine ⟨m.entries.filterMap fun e => e.2.map fun v => (e.1, v), ?_, ?_⟩
  · refine (hforth m.entries ?_).symm
    intro e he
    obtain ⟨f, -, rfl⟩ := List.mem_map.mp (h.perm.mem_iff.mp he)
    exact ⟨f.2, rfl⟩
  · have hperm := h.perm.filterMap fun e => e.2.map fun v => (e.1, v)
    rwa [hback] at hperm

omit [DecidableEq K] in
theorem Holds.distinct_list (h : Holds O m l) : Distinct O.toKeyEq l := by
  have hdistinct := h.wf.distinct.of_perm h.perm.symm
  exact (List.pairwise_map.mp hdistinct :)

/-! ## Two of the type `dict` -/

variable {valueEqual}

/-- What the loop asks of a pair. -/
def foundEqual (E : KeyEq K) (valueEqual : V → V → Bool) (l' : List (K × V)) (e : K × V) : Bool :=
  match find E l' e.1 with
  | some e' => valueEqual e.2 e'.2
  | none => false

theorem lookupLoop_eq (h' : Holds O rhs l') (fuel : Nat) {cur : Nat} (hcur : cur ≤ lhs.alloc)
    (hfuel : lhs.alloc < cur + fuel) {rest : List (K × V)}
    (hrest : entriesOf (lhs.table.drop cur) = rest.map entryOf) :
    lookupLoop O valueEqual lhs rhs fuel cur =
      some (rest.all (foundEqual O.toKeyEq valueEqual l')) := by
  induction fuel generalizing cur rest with
  | zero => omega
  | succ fuel ih =>
      rcases dictIterNext_cases hcur with ⟨pos, k, v, hle, hpos, helem, hnext, hdrop⟩ |
        ⟨hnext, hdrop⟩
      · rw [hdrop] at hrest
        obtain ⟨e, rest, rfl, hentry, hafter⟩ := List.map_eq_cons_iff.mp hrest.symm
        obtain ⟨rfl, rfl⟩ := Prod.mk.injEq .. |>.mp hentry
        simp only [lookupLoop, hnext, helem, List.all_cons]
        -- the next pair is looked up in the other dict: it has the key, or the loop ends here
        rcases lookup_cases e.1 h' with ⟨slot, k', v', w, -, hvalue, hfind, hlookup⟩ |
          ⟨hfind, hlookup⟩
        · have hfound : foundEqual O.toKeyEq valueEqual l' e = valueEqual e.2 w := by
            rw [foundEqual, hfind]
          simp only [hlookup, hvalue, hfound, valuesEqual]
          cases valueEqual e.2 w with
          | false => rfl
          | true =>
              rw [if_pos rfl, Bool.true_and]
              exact ih hpos (by omega) hafter.symm
        · have hfound : foundEqual O.toKeyEq valueEqual l' e = false := by
            rw [foundEqual, hfind]
          simp only [hlookup, hfound, Bool.false_and]
      · rw [hdrop] at hrest
        -- all pairs have been found equal
        obtain rfl := List.map_eq_nil_iff.mp hrest.symm
        simp only [lookupLoop, hnext, List.all_nil]

/-- The dictionaries have the same keys, with equal values. -/
def Same (E : KeyEq K) (valueEqual : V → V → Bool) (l l' : List (K × V)) : Prop :=
  ∀ k, Option.Rel (fun e e' => valueEqual e.2 e'.2 = true) (find E l k) (find E l' k)

omit [DecidableEq K] in
theorem same_iff {E : KeyEq K} (hdistinct : Distinct E l) (hdistinct' : Distinct E l') :
    Same E valueEqual l l' ↔
      l.length = l'.length ∧ ∀ e ∈ l, foundEqual E valueEqual l' e = true := by
  constructor
  · intro hsame
    have hfound : ∀ e ∈ l, foundEqual E valueEqual l' e = true := by
      intro e he
      have hrel := hsame e.1
      rw [hdistinct.find_mem he] at hrel
      rw [foundEqual]
      cases hfind : find E l' e.1 with
      | none => rw [hfind] at hrel; cases hrel
      | some e' =>
          rw [hfind] at hrel
          cases hrel with
          | some hvalue => exact hvalue
    -- each has the keys of the other, so neither is longer
    have hle : l.length ≤ l'.length := by
      apply hdistinct.length_le
      intro e he hnone
      have hrel := hsame e.1
      rw [hdistinct.find_mem he, hnone] at hrel
      cases hrel
    have hge : l'.length ≤ l.length := by
      apply hdistinct'.length_le
      intro e he hnone
      have hrel := hsame e.1
      rw [hdistinct'.find_mem he, hnone] at hrel
      cases hrel
    exact ⟨Nat.le_antisymm hle hge, hfound⟩
  · rintro ⟨hlength, hfound⟩ k
    have hkeys : ∀ e ∈ l, find E l' e.1 ≠ none := by
      intro e he hnone
      have hequal := hfound e he
      rw [foundEqual, hnone] at hequal
      cases hequal
    cases hfind : find E l k with
    | some e =>
        obtain ⟨a, b, rfl, hkey⟩ := exists_split_of_find hfind
        have hequal := hfound e (List.mem_append_right a List.mem_cons_self)
        rw [foundEqual] at hequal
        rw [← find_congr hkey l']
        cases hfind' : find E l' e.1 with
        | none => rw [hfind'] at hequal; cases hequal
        | some e' =>
            rw [hfind'] at hequal
            exact .some hequal
    | none =>
        cases hfind' : find E l' k with
        | none => exact .none
        | some e' =>
            obtain ⟨a, b, rfl, hkey⟩ := exists_split_of_find hfind'
            -- a key of the second alone would make it longer
            have hcovered := hdistinct.covers hkeys hlength.ge e'
              (List.mem_append_right a List.mem_cons_self)
            rw [find_congr hkey l] at hcovered
            exact absurd hfind hcovered

/-- Two dictionaries of the type `dict` are compared as what they hold, whatever their tables are
like. -/
theorem dictEqual_dict (h : Holds O lhs l) (h' : Holds O rhs l') (lhsType : DictType) :
    ∃ b, dictEqual O valueEqual lhs rhs lhsType .dict = some b ∧
      (b = true ↔ Same O.toKeyEq valueEqual l l') := by
  have hnot : ¬ (lhsType = .orderedDict ∧ DictType.dict = .orderedDict) := nofun
  rw [dictEqual, if_neg hnot, if_pos rfl, same_iff h.distinct_list h'.distinct_list, h.length,
    h'.length]
  by_cases hlength : l.length = l'.length
  · obtain ⟨pairs, hentries, hperm⟩ := h.exists_pairs
    refine ⟨pairs.all (foundEqual O.toKeyEq valueEqual l'), ?_, ?_⟩
    · rw [if_neg (not_not.mpr hlength)]
      exact lookupLoop_eq h' (lhs.alloc + 1) (Nat.zero_le _) (by omega) hentries
    · rw [List.all_eq_true]
      constructor
      · intro hall
        exact ⟨hlength, fun e he => hall e (hperm.mem_iff.mpr he)⟩
      · rintro ⟨-, hall⟩ e he
        exact hall e (hperm.mem_iff.mp he)
  · refine ⟨false, if_pos hlength, ?_⟩
    constructor
    · intro hfalse
      cases hfalse
    · rintro ⟨hsame, -⟩
      exact absurd hsame hlength

/-! ## Two of the type `OrderedDict` -/

/-- The same keys with equal values, in the same order. -/
def SameOrder (E : KeyEq K) (valueEqual : V → V → Bool) (l l' : List (K × V)) : Prop :=
  List.Forall₂ (fun e e' => E.equal e.1 e'.1 = true ∧ valueEqual e.2 e'.2 = true) l l'

omit [DecidableEq K] in
theorem pairLoop_eq (fuel : Nat) {c₁ c₂ : Nat} (h₁ : c₁ ≤ lhs.alloc) (h₂ : c₂ ≤ rhs.alloc)
    (hfuel : lhs.alloc < c₁ + fuel) {l l' : List (K × V)}
    (hl : entriesOf (lhs.table.drop c₁) = l.map entryOf)
    (hl' : entriesOf (rhs.table.drop c₂) = l'.map entryOf) :
    ∃ b, pairLoop O valueEqual lhs rhs fuel c₁ c₂ = some b ∧
      (b = true ↔ SameOrder O.toKeyEq valueEqual l l') := by
  induction fuel generalizing c₁ c₂ l l' with
  | zero => omega
  | succ fuel ih =>
      rcases dictIterNext_cases h₁ with ⟨pos, k, v, hle, hpos, helem, hnext, hdrop⟩ |
        ⟨hnext, hdrop⟩
      · rw [hdrop] at hl
        obtain ⟨e, l, rfl, hentry, hafter⟩ := List.map_eq_cons_iff.mp hl.symm
        obtain ⟨rfl, rfl⟩ := Prod.mk.injEq .. |>.mp hentry
        rcases dictIterNext_cases h₂ with ⟨pos', k', v', -, hpos', helem', hnext', hdrop'⟩ |
          ⟨hnext', hdrop'⟩
        · rw [hdrop'] at hl'
          obtain ⟨e', l', rfl, hentry', hafter'⟩ := List.map_eq_cons_iff.mp hl'.symm
          obtain ⟨rfl, rfl⟩ := Prod.mk.injEq .. |>.mp hentry'
          simp only [pairLoop, hnext, hnext', helem, helem', valuesEqual]
          rw [SameOrder, List.forall₂_cons]
          -- both have a next pair
          by_cases hboth : (O.equal e.1 e'.1 && valueEqual e.2 e'.2) = true
          · obtain ⟨b, hloop, hsame⟩ := ih hpos hpos' (by omega) hafter.symm hafter'.symm
            refine ⟨b, (if_pos hboth).trans hloop, ?_⟩
            rw [hsame, SameOrder]
            exact (and_iff_right ((Bool.and_eq_true _ _).mp hboth)).symm
          · refine ⟨false, if_neg hboth, ?_⟩
            constructor
            · intro hfalse
              cases hfalse
            · rintro ⟨hequal, -⟩
              exact absurd ((Bool.and_eq_true _ _).mpr hequal) hboth
        · rw [hdrop'] at hl'
          -- the second one has ended before the first
          obtain rfl := List.map_eq_nil_iff.mp hl'.symm
          refine ⟨false, ?_, ?_⟩
          · simp only [pairLoop, hnext, hnext']
          · constructor
            · intro hfalse
              cases hfalse
            · intro hsame
              cases hsame
      · rw [hdrop] at hl
        -- the first one has ended: so has the second, or they differ
        obtain rfl := List.map_eq_nil_iff.mp hl.symm
        rcases dictIterNext_cases h₂ with ⟨pos', k', v', -, -, -, hnext', hdrop'⟩ |
          ⟨hnext', hdrop'⟩
        · rw [hdrop'] at hl'
          obtain ⟨e', l', rfl, -, -⟩ := List.map_eq_cons_iff.mp hl'.symm
          refine ⟨false, ?_, ?_⟩
          · simp only [pairLoop, hnext, hnext']
          · constructor
            · intro hfalse
              cases hfalse
            · intro hsame
              cases hsame
        · rw [hdrop'] at hl'
          obtain rfl := List.map_eq_nil_iff.mp hl'.symm
          refine ⟨true, ?_, ?_⟩
          · simp only [pairLoop, hnext, hnext']
          · exact ⟨fun _ => .nil, fun _ => rfl⟩

/-- Two of the type `OrderedDict` are compared in order. -/
theorem dictEqual_orderedDict (h : Holds O lhs l) (h' : Holds O rhs l')
    (hordered : lhs.isOrdered = true) (hordered' : rhs.isOrdered = true) :
    ∃ b, dictEqual O valueEqual lhs rhs .orderedDict .orderedDict = some b ∧
      (b = true ↔ SameOrder O.toKeyEq valueEqual l l') := by
  rw [dictEqual, if_pos ⟨rfl, rfl⟩]
  exact pairLoop_eq (lhs.alloc + 1) (Nat.zero_le _) (Nat.zero_le _) (by omega)
    (h.inOrder hordered) (h'.inOrder hordered')

/-- Whatever has been asked of two dictionaries, they are equal exactly if the same keys are in
both, with equal values. -/
theorem dict_runs_equal (O : Objects K) (valueEqual : V → V → Bool) (pyNone : V)
    (nArgs nArgs' : Nat) (ops ops' : List (Op K V)) :
    ∃ m answers l m' answers' l',
      Run.run (step O pyNone) (mpObjNewDict nArgs) ops = some (m, answers) ∧
      Run.Trace (Dict.Next O.toKeyEq pyNone) [] ops answers l ∧
      Run.run (step O pyNone) (mpObjNewDict nArgs') ops' = some (m', answers') ∧
      Run.Trace (Dict.Next O.toKeyEq pyNone) [] ops' answers' l' ∧
      ∃ b, dictEqual O valueEqual m m' .dict .dict = some b ∧
        (b = true ↔ Same O.toKeyEq valueEqual l l') := by
  have hnew : ∀ n, Holds O (mpObjNewDict n : MpMap K V) [] := fun n => holds_nil rfl rfl rfl nofun
  obtain ⟨m, answers, l, hrun, htrace, hholds, -⟩ := run_refines_dict pyNone ops (hnew nArgs) nofun
  obtain ⟨m', answers', l', hrun', htrace', hholds', -⟩ :=
    run_refines_dict pyNone ops' (hnew nArgs') nofun
  exact ⟨m, answers, l, m', answers', l', hrun, htrace, hrun', htrace',
    dictEqual_dict hholds hholds' .dict⟩

/-- Two of the type `OrderedDict` are equal exactly if they have the same keys with equal values in
the same order. -/
theorem orderedDict_runs_equal (O : Objects K) (valueEqual : V → V → Bool) (pyNone : V)
    {ops ops' : List (Op K V)} (hops : Op.popitem ∉ ops) (hops' : Op.popitem ∉ ops') :
    ∃ m answers l m' answers' l',
      Run.run (step O pyNone) newOrderedDict ops = some (m, answers) ∧
      Run.Trace (Dict.Next O.toKeyEq pyNone) [] ops answers l ∧
      Run.run (step O pyNone) newOrderedDict ops' = some (m', answers') ∧
      Run.Trace (Dict.Next O.toKeyEq pyNone) [] ops' answers' l' ∧
      ∃ b, dictEqual O valueEqual m m' .orderedDict .orderedDict = some b ∧
        (b = true ↔ SameOrder O.toKeyEq valueEqual l l') := by
  have hnew : Holds O (newOrderedDict : MpMap K V) [] := holds_nil rfl rfl rfl fun _ => rfl
  obtain ⟨m, answers, l, hrun, htrace, hholds, hordered⟩ :=
    run_refines_dict pyNone ops hnew fun _ => hops
  obtain ⟨m', answers', l', hrun', htrace', hholds', hordered'⟩ :=
    run_refines_dict pyNone ops' hnew fun _ => hops'
  exact ⟨m, answers, l, m', answers', l', hrun, htrace, hrun', htrace',
    dictEqual_orderedDict hholds hholds' hordered hordered'⟩

/-! ## `popitem` of an `OrderedDict` -/

/-- The element of a pair. -/
def elemOf (e : K × V) : Elem K V := ⟨.key e.1, some e.2⟩

omit [DecidableEq K] in
theorem entriesOf_map (l : List (K × V)) : entriesOf (l.map elemOf) = l.map entryOf := by
  have hentry : Elem.entry ∘ elemOf = some ∘ (entryOf : K × V → K × Option V) := rfl
  rw [entriesOf, List.filterMap_map, hentry, List.filterMap_eq_map]

omit [DecidableEq K] in
/-- An array is its pairs and what is behind them. -/
theorem Holds.array (h : Holds O m l) (hordered : m.isOrdered = true) :
    ∃ rest, m.table = l.map elemOf ++ rest ∧ ∀ e ∈ rest, e.key = .null := by
  have harray : Ordered O m := by
    refine h.wf.resolve_left ?_
    intro hhash
    rw [hhash.notOrdered] at hordered
    cases hordered
  -- slots that all have keys are their pairs
  have hfilled : ∀ (filled : List (Elem K V)) (l : List (K × V)),
      (∀ e ∈ filled, ∃ k, e.key = .key k) → entriesOf filled = l.map entryOf →
      filled = l.map elemOf := by
    intro filled
    induction filled with
    | nil =>
        intro l _ hl
        obtain rfl := List.map_eq_nil_iff.mp hl.symm
        rfl
    | cons f filled ih =>
        intro l hkeys hl
        obtain ⟨k, hk⟩ := hkeys f List.mem_cons_self
        have hentry : f.entry = some (k, f.value) := by rw [Elem.entry, hk]
        rw [entriesOf, List.filterMap_cons_some hentry] at hl
        obtain ⟨e, l, rfl, he, hrest⟩ := List.map_eq_cons_iff.mp hl.symm
        obtain ⟨hkey, hvalue⟩ := Prod.mk.injEq .. |>.mp he
        have htail := ih l (fun g hg => hkeys g (List.mem_cons_of_mem f hg)) hrest.symm
        rw [List.map_cons, htail, elemOf, hkey, hvalue, ← hk]
  refine ⟨m.table.drop m.used, ?_, harray.rest⟩
  have hentries := h.inOrder hordered
  rw [harray.entries_take] at hentries
  rw [← hfilled _ l harray.filled hentries, List.take_append_drop]

/-- No element before the end has the key. -/
theorem orderedLookup_miss {index : K} {ptrs : Bool} {kind : LookupKind}
    (hmiss : ∀ e ∈ m.table.take m.used, ∀ k, e.key = .key k → hit O ptrs index k = false) :
    m.orderedLookup O index ptrs kind =
      if kind = .addIfNotFound then (m.append O index, some m.used) else (m, none) := by
  have hfind : (m.table.take m.used).findIdx? (elemHit O ptrs index) = none := by
    rw [List.findIdx?_eq_none_iff]
    intro e he
    rw [elemHit]
    cases hkey : e.key with
    | null => rfl
    | sentinel => rfl
    | key k => exact hmiss e he k hkey
  rw [orderedLookup, hfind]

/-- The array after `popitem`: one pair less is counted, but what has been taken out is the first
one. -/
structure Popped (m : MpMap K V) (c : List (K × V)) (last : K × V) (rest : List (Elem K V)) :
    Prop where
  notFixed : m.isFixed = false
  ordered : m.isOrdered = true
  used : m.used = c.length + 1
  table : m.table = ⟨.sentinel, none⟩ :: (c.map elemOf ++ elemOf last :: rest)
  null : ∀ e ∈ rest, e.key = .null

omit [DecidableEq K] in
theorem dictPopitem_popped {e last : K × V} {c : List (K × V)}
    (h : Holds O m (e :: (c ++ [last]))) (hordered : m.isOrdered = true) :
    ∃ m' rest, m.dictPopitem = some (m', .pair e.1 e.2) ∧
      m'.allKeysAreQstrs = m.allKeysAreQstrs ∧ Popped m' c last rest := by
  obtain ⟨rest, htable, hrest⟩ := h.array hordered
  have hused := h.length
  rw [List.length_cons, List.length_append, List.length_singleton] at hused
  have hfixed : ¬ m.isFixed = true := by
    rw [h.notFixed]
    exact Bool.false_ne_true
  have hfirst : m.elem 0 = elemOf e := by
    rw [elem, htable]
    rfl
  have hnext : m.dictIterNext 0 = some (0, elemOf e) := by
    have halloc : m.alloc - 0 = (c ++ [last]).length + rest.length + 1 := by
      rw [alloc, htable, List.length_append, List.length_map, List.length_cons]
      omega
    rw [dictIterNext, halloc, firstFilled, cell, hfirst]
    rfl
  -- the first slot becomes a sentinel, and nothing is moved
  have hset : m.table.set 0 ⟨.sentinel, none⟩ =
      ⟨.sentinel, none⟩ :: (c.map elemOf ++ elemOf last :: rest) := by
    rw [htable, List.map_cons, List.cons_append, List.set_cons_zero, List.map_append,
      List.append_assoc]
    rfl
  refine ⟨{ m.write 0 ⟨.sentinel, none⟩ with used := m.used - 1 }, rest, ?_, rfl,
    h.notFixed, hordered, ?_, hset, hrest⟩
  · simp only [dictPopitem, if_neg hfixed, hnext, elemOf]
  · rw [hused]
    rfl

namespace Popped

variable {c : List (K × V)} {last : K × V} {rest : List (Elem K V)}

omit [DecidableEq K] in
theorem take_used (hp : Popped m c last rest) :
    m.table.take m.used = ⟨.sentinel, none⟩ :: c.map elemOf := by
  rw [hp.table, hp.used, List.take_succ_cons, List.take_left' (List.length_map ..)]

omit [DecidableEq K] in
/-- All pairs but the first are iterated over. -/
theorem entries_eq (hp : Popped m c last rest) : m.entries = (c ++ [last]).map entryOf := by
  have htail : c.map elemOf ++ elemOf last :: rest = (c ++ [last]).map elemOf ++ rest := by
    rw [List.map_append, List.append_assoc]
    rfl
  rw [entries, hp.table, entriesOf, List.filterMap_cons_none rfl, htail]
  change entriesOf ((c ++ [last]).map elemOf ++ rest) = _
  rw [entriesOf_append, entriesOf_null hp.null, List.append_nil, entriesOf_map]

/-- A key that none of the pairs in the middle has is not found. Only pointers are compared, also
with what is no key. -/
theorem lookup_absent (hp : Popped m c last rest) (hqstrs : m.allKeysAreQstrs = true) {k : K}
    (kind : LookupKind) (hk : O.isQstr k = true) (habsent : Absent O.toKeyEq c k) :
    mpMapLookup O 2 m k kind =
      some (if kind = .addIfNotFound then (m.append O k, some m.used) else (m, none)) := by
  have hptrs : m.compareOnlyPtrs O k kind = some true := by
    rw [compareOnlyPtrs, if_pos hqstrs, if_pos hk]
  have hmiss : ∀ f ∈ m.table.take m.used, ∀ l, f.key = .key l → hit O true k l = false := by
    intro f hf l hl
    rw [hp.take_used, List.mem_cons] at hf
    rcases hf with rfl | hmem
    · cases hl
    · obtain ⟨g, hg, rfl⟩ := List.mem_map.mp hmem
      cases hl
      have hne : g.1 ≠ k := by
        rintro rfl
        have hself := habsent g hg
        rw [O.refl] at hself
        cases hself
      rw [hit, decide_eq_false hne]
      rfl
  have hnot : ¬ (m.isFixed = true ∧ kind ≠ .lookup) := not_asserted (.inl hp.notFixed)
  simp only [mpMapLookup, if_neg hnot, hptrs, if_pos hp.ordered, orderedLookup_miss hmiss]

omit [DecidableEq K] in
/-- The slot that is taken is that of the last pair, whose value is still there. -/
theorem append_table (hp : Popped m c last rest) (k : K) :
    (m.append O k).table = ⟨.sentinel, none⟩ :: (c.map elemOf ++ ⟨.key k, some last.2⟩ :: rest) := by
  have hne : ¬ m.used = m.alloc := by
    rw [hp.used, alloc, hp.table, List.length_cons, List.length_append, List.length_map,
      List.length_cons]
    omega
  simp only [append, if_neg hne]
  rw [hp.used, hp.table, List.getD_cons_succ, List.set_cons_succ,
    List.getD_append_right _ _ _ _ (Nat.le_of_eq (List.length_map ..)),
    List.set_append_right _ _ (Nat.le_of_eq (List.length_map ..)), List.length_map, Nat.sub_self]
  rfl

omit [DecidableEq K] in
theorem entries_append (hp : Popped m c last rest) (k : K) (v : V) :
    ((m.append O k).setValue m.used (some v)).entries = (c ++ [(k, v)]).map entryOf := by
  have htable := hp.append_table (O := O) k
  -- the slot at `used` is that of the last pair
  have helem : (m.append O k).elem m.used = ⟨.key k, some last.2⟩ := by
    rw [elem, htable, hp.used, List.getD_cons_succ,
      List.getD_append_right _ _ _ _ (Nat.le_of_eq (List.length_map ..)), List.length_map,
      Nat.sub_self]
    rfl
  have hlt : m.used < (m.append O k).alloc := by
    rw [alloc, htable, hp.used, List.length_cons, List.length_append, List.length_map,
      List.length_cons]
    omega
  have hbefore : (m.append O k).before m.used = c.map entryOf := by
    rw [before, htable, hp.used, List.take_succ_cons, List.take_left' (List.length_map ..),
      entriesOf, List.filterMap_cons_none rfl]
    exact entriesOf_map c
  have hafter : (m.append O k).after m.used = [] := by
    have hdrop : (c.map elemOf ++ ⟨.key k, some last.2⟩ :: rest).drop (c.length + 1) = rest := by
      rw [List.drop_append, List.length_map, Nat.add_sub_cancel_left,
        List.drop_of_length_le (by rw [List.length_map]; omega)]
      rfl
    rw [after, htable, hp.used, List.drop_succ_cons, hdrop]
    exact entriesOf_null hp.null
  rw [entries_setValue hlt helem, hbefore, hafter, List.map_append]
  rfl

end Popped

/-- After `popitem` of an `OrderedDict` with interned keys, the last pair is still iterated over and
counted, but its key is not in the dictionary; and the next key that is new takes its place. -/
theorem popitem_loses {e last : K × V} {c : List (K × V)} (h : Holds O m (e :: (c ++ [last])))
    (hordered : m.isOrdered = true) (hqstrs : m.allKeysAreQstrs = true) :
    ∃ m', m.dictPopitem = some (m', .pair e.1 e.2) ∧
      m'.entries = (c ++ [last]).map entryOf ∧ m'.dictLen = (c ++ [last]).length ∧
      m'.dictContains O last.1 = some false ∧
      ∀ k v, O.isQstr k = true → Absent O.toKeyEq c k →
        ∃ m'', m'.storeAt O k v = some m'' ∧ m''.entries = (c ++ [(k, v)]).map entryOf := by
  obtain ⟨m', rest, hpop, hflag, hp⟩ := dictPopitem_popped h hordered
  rw [hqstrs] at hflag
  have hlast : Absent O.toKeyEq c last.1 := by
    have hsplit := (List.pairwise_cons.mp h.distinct_list).2
    exact Distinct.absent_left (b := []) hsplit (O.refl last.1)
  have hlastQstr : O.isQstr last.1 = true := by
    apply h.wf.qstrs hqstrs (entryOf last)
    rw [h.inOrder hordered]
    exact List.mem_map_of_mem (List.mem_cons_of_mem e (List.mem_append_right c List.mem_cons_self))
  refine ⟨m', hpop, hp.entries_eq, ?_, ?_, ?_⟩
  · rw [dictLen, hp.used, List.length_append]
    rfl
  · rw [dictContains, hp.lookup_absent hflag .lookup hlastQstr hlast]
    rfl
  · intro k v hk habsent
    refine ⟨(m'.append O k).setValue m'.used (some v), ?_, hp.entries_append k v⟩
    rw [storeAt, hp.lookup_absent hflag .addIfNotFound hk habsent, if_pos rfl]

/-- An array of interned keys. -/
def arrayOf (l : List (K × V)) : MpMap K V :=
  { allKeysAreQstrs := true
    isFixed := false
    isOrdered := true
    used := l.length
    table := l.map elemOf }

omit [DecidableEq K] in
theorem holds_arrayOf (hdistinct : Distinct O.toKeyEq l) (hqstrs : ∀ e ∈ l, O.isQstr e.1 = true) :
    Holds O (arrayOf l) l := by
  have hkeys : ∀ f ∈ l.map elemOf, ∃ k, f.key = .key k := by
    intro f hf
    obtain ⟨e, -, rfl⟩ := List.mem_map.mp hf
    exact ⟨e.1, rfl⟩
  obtain ⟨harray, hentries⟩ := Ordered.of_append (O := O) (m := arrayOf l)
    (a := l.map elemOf) (b := []) rfl (List.append_nil _).symm (List.length_map ..).symm hkeys nofun
    (by rw [entriesOf_map]; exact List.pairwise_map.mpr hdistinct)
    (by
      rw [entriesOf_map]
      intro _ entry hentry
      obtain ⟨e, he, rfl⟩ := List.mem_map.mp hentry
      exact hqstrs e he)
  rw [entriesOf_map] at hentries
  refine ⟨.inr harray, rfl, ?_, by rw [hentries], fun _ => hentries⟩
  intro f hf hfree
  obtain ⟨k, hk⟩ := hkeys f hf
  exact absurd hk (hfree k)

end MpMap

/-- The same pairs in another order. -/
theorem orderedDict_runs_equal_swapped :
    ∃ m answers l m' answers' l',
      Run.run (MpMap.step numbers 0) MpMap.newOrderedDict [.store 4 10, .store 7 11] =
        some (m, answers) ∧
      Run.Trace (Dict.Next numbers.toKeyEq 0) [] [.store 4 10, .store 7 11] answers l ∧
      Run.run (MpMap.step numbers 0) MpMap.newOrderedDict [.store 7 11, .store 4 10] =
        some (m', answers') ∧
      Run.Trace (Dict.Next numbers.toKeyEq 0) [] [.store 7 11, .store 4 10] answers' l' ∧
      ∃ b, MpMap.dictEqual numbers (fun v w => decide (v = w)) m m' .orderedDict .orderedDict =
          some b ∧
        (b = true ↔ MpMap.SameOrder numbers.toKeyEq (fun v w => decide (v = w)) l l') :=
  MpMap.orderedDict_runs_equal numbers (fun v w => decide (v = w)) 0 (by decide) (by decide)

/-- Of three keys, the first is taken out and the last is lost. -/
theorem popitem_loses_three :
    ∃ m', (MpMap.arrayOf [(2, 10), (4, 11), (8, 12)]).dictPopitem = some (m', .pair 2 10) ∧
      m'.entries = [(4, some 11), (8, some 12)] ∧ m'.dictLen = 2 ∧
      m'.dictContains numbers 8 = some false ∧
      ∀ k v, numbers.isQstr k = true → Absent numbers.toKeyEq [(4, 11)] k →
        ∃ m'', m'.storeAt numbers k v = some m'' ∧ m''.entries = [(4, some 11), (k, some v)] := by
  have hholds : MpMap.Holds numbers (MpMap.arrayOf [(2, 10), (4, 11), (8, 12)])
      [(2, 10), (4, 11), (8, 12)] :=
    MpMap.holds_arrayOf (by rw [Distinct]; decide) (by decide)
  exact MpMap.popitem_loses (c := [(4, 11)]) hholds rfl rfl

end EfiLvgl.Py
