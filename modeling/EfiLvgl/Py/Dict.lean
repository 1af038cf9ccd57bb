import EfiLvgl.Lib.Run
import EfiLvgl.Py.Lookup

/-!
# EfiLvgl.Py.Dict — dictionaries

The functions of `objdict.c` on a map. The order of the calls is free; each answers what Python
sees, an exception included.

The list of pairs is what a dictionary is for: `step_refines` says that a call does to the map what
it does to the list, in the order of the list for an `OrderedDict` and in any other order for a
`dict`. `dict_run` and `orderedDict_run` carry that over to runs.
-/

namespace EfiLvgl.Py

open EfiLvgl.Assoc EfiLvgl.Probe EfiLvgl.Run

universe u v

/-- What a call answers; `returned` is for `mp_const_none` where nothing else is returned. -/
inductive Answer (K : Type u) (V : Type v) where
  | returned
  | value (v : V)
  | pair (k : K) (v : V)
  | bool (b : Bool)
  | size (n : Nat)
  | keyError (k : K)
  | dictIsEmpty
  | typeError
deriving DecidableEq, Repr

/-- What is asked of a dictionary. -/
inductive Op (K : Type u) (V : Type v) where
  | load (k : K)
  | store (k : K) (v : V)
  | delete (k : K)
  | get (k : K) (default : Option V)
  | pop (k : K) (default : Option V)
  | setdefault (k : K) (default : Option V)
  | popitem
  | clear
  | len
  | contains (k : K)
  | update (pairs : List (K × V))
deriving DecidableEq, Repr

namespace MpMap

variable {K V : Type u} (O : Objects K) (pyNone : V) [DecidableEq K]

/-! ## `objdict.c` -/

/-- `dict_get_helper`, with the default that is given. -/
def dictGetHelper (m : MpMap K V) (key : K) (default : Option V) (kind : LookupKind) :
    Option (MpMap K V × Answer K V) :=
  if kind ≠ .lookup ∧ m.isFixed then some (m, .typeError)
  else
    match mpMapLookup O 2 m key kind with
    | none => none
    | some (m, slot) =>
        match slot.bind fun pos => (m.elem pos).value with
        | none =>
            match default, kind, slot with
            | none, .removeIfFound, _ => some (m, .keyError key)
            | _, .addIfNotFound, some pos =>
                some (m.setValue pos (some (default.getD pyNone)), .value (default.getD pyNone))
            | _, .addIfNotFound, none => none
            | _, _, _ => some (m, .value (default.getD pyNone))
        | some value =>
            match kind, slot with
            | .removeIfFound, some pos => some (m.setValue pos none, .value value)
            | _, _ => some (m, .value value)

/-- `mp_obj_new_dict`, and `dict_make_new` of an `OrderedDict`. -/
def mpObjNewDict (nArgs : Nat) : MpMap K V := mpMapInit nArgs

def newOrderedDict : MpMap K V := { mpObjNewDict 0 with isOrdered := true }

/-- `mp_obj_dict_get`. -/
def mpObjDictGet (m : MpMap K V) (index : K) : Option (MpMap K V × Answer K V) :=
  match mpMapLookup O 2 m index .lookup with
  | none => none
  | some (_, none) => some (m, .keyError index)
  | some (_, some pos) => (m.elem pos).value.map fun value => (m, .value value)

/-- `mp_map_lookup(map, key, MP_MAP_LOOKUP_ADD_IF_NOT_FOUND)->value = value`. -/
def storeAt (m : MpMap K V) (key : K) (value : V) : Option (MpMap K V) :=
  match mpMapLookup O 2 m key .addIfNotFound with
  | some (m, some pos) => some (m.setValue pos (some value))
  | _ => none

/-- `mp_obj_dict_store`. -/
def mpObjDictStore (m : MpMap K V) (key : K) (value : V) : Option (MpMap K V × Answer K V) :=
  if m.isFixed then some (m, .typeError)
  else (m.storeAt O key value).map fun m => (m, .returned)

/-- `mp_obj_dict_delete`. -/
def mpObjDictDelete (m : MpMap K V) (key : K) : Option (MpMap K V × Answer K V) :=
  match m.dictGetHelper O pyNone key none .removeIfFound with
  | some (m, .value _) => some (m, .returned)
  | r => r

/-- The loop of `dict_iter_next`, for so many slots. -/
def firstFilled (m : MpMap K V) : Nat → Nat → Option (Nat × Elem K V)
  | 0, _ => none
  | slots + 1, i =>
      match m.cell i with
      | .key _ => some (i, m.elem i)
      | _ => firstFilled m slots (i + 1)

/-- `dict_iter_next`: the slot at which the next element is, and the element. -/
def dictIterNext (m : MpMap K V) (cur : Nat) : Option (Nat × Elem K V) :=
  m.firstFilled (m.alloc - cur) cur

/-- `dict_popitem`. -/
def dictPopitem (m : MpMap K V) : Option (MpMap K V × Answer K V) :=
  if m.isFixed then some (m, .typeError)
  else
    match m.dictIterNext 0 with
    | none => some (m, .dictIsEmpty)
    | some (pos, next) =>
        match next.key, next.value with
        | .key k, some value =>
            some ({ m.write pos ⟨.sentinel, none⟩ with used := m.used - 1 }, .pair k value)
        | _, _ => none

/-- `dict_clear`. -/
def dictClear (m : MpMap K V) : MpMap K V × Answer K V :=
  if m.isFixed then (m, .typeError) else (m.mpMapClear, .returned)

/-- `dict_update`, from the pairs that are iterated over. -/
def dictUpdate (m : MpMap K V) (pairs : List (K × V)) : Option (MpMap K V × Answer K V) :=
  if m.isFixed then some (m, .typeError)
  else (pairs.foldlM (fun (m : MpMap K V) e => m.storeAt O e.1 e.2) m).map fun m => (m, .returned)

/-- `dict_unary_op` and `dict_binary_op`. -/
def dictLen (m : MpMap K V) : Nat := m.used

def dictContains (m : MpMap K V) (key : K) : Option Bool :=
  (mpMapLookup O 2 m key .lookup).map fun r => r.2.isSome

/-- One call. -/
def step : Step (MpMap K V) (Op K V) (Answer K V)
  | m, .load k => (m.mpObjDictGet O k).map fun r => (r.1, [r.2])
  | m, .store k v => (m.mpObjDictStore O k v).map fun r => (r.1, [r.2])
  | m, .delete k => (m.mpObjDictDelete O pyNone k).map fun r => (r.1, [r.2])
  | m, .get k default => (m.dictGetHelper O pyNone k default .lookup).map fun r => (r.1, [r.2])
  | m, .pop k default =>
      (m.dictGetHelper O pyNone k default .removeIfFound).map fun r => (r.1, [r.2])
  | m, .setdefault k default =>
      (m.dictGetHelper O pyNone k default .addIfNotFound).map fun r => (r.1, [r.2])
  | m, .popitem => m.dictPopitem.map fun r => (r.1, [r.2])
  | m, .clear => some (m.dictClear.1, [m.dictClear.2])
  | m, .len => some (m, [.size m.dictLen])
  | m, .contains k => (m.dictContains O k).map fun b => (m, [.bool b])
  | m, .update pairs => (m.dictUpdate O pairs).map fun r => (r.1, [r.2])

end MpMap

/-! ## What a dictionary is for -/

namespace Dict

variable {K V : Type u} (E : KeyEq K) (pyNone : V)

/-- A call on the list of pairs, with what it answers. -/
def call (l : List (K × V)) : Op K V → List (K × V) × Answer K V
  | .load k => (l, (find E l k).elim (.keyError k) fun e => .value e.2)
  | .store k v => (put E l k v, .returned)
  | .delete k => (del E l k, (find E l k).elim (.keyError k) fun _ => .returned)
  | .get k default => (l, .value ((find E l k).elim (default.getD pyNone) Prod.snd))
  | .pop k default =>
      (del E l k, (find E l k).elim (default.elim (.keyError k) .value) fun e => .value e.2)
  | .setdefault k default =>
      (find E l k).elim (put E l k (default.getD pyNone), .value (default.getD pyNone))
        fun e => (l, .value e.2)
  | .popitem => (l, .dictIsEmpty)
  | .clear => ([], .returned)
  | .len => (l, .size l.length)
  | .contains k => (l, .bool (find E l k).isSome)
  | .update pairs => (pairs.foldl (fun l e => put E l e.1 e.2) l, .returned)

/-- A step of the dictionary: `popitem` may take any pair. -/
inductive Next : List (K × V) → Op K V → List (Answer K V) → List (K × V) → Prop where
  | call {l : List (K × V)} {c : Op K V} : c ≠ .popitem →
      Next l c [(call E pyNone l c).2] (call E pyNone l c).1
  | popped {l l' : List (K × V)} {k : K} {v : V} : l.Perm ((k, v) :: l') →
      Next l .popitem [.pair k v] l'
  | empty : Next [] .popitem [.dictIsEmpty] []

end Dict

/-! ## The map and the list -/

namespace MpMap

variable {K V : Type u} (O : Objects K)

/-- The entry of a pair. -/
def entryOf (e : K × V) : K × Option V := (e.1, some e.2)

/-- The map is the list, in its order if it is an array. -/
structure Holds (m : MpMap K V) (l : List (K × V)) : Prop where
  wf : Wf O m
  notFixed : m.isFixed = false
  clean : Clean m
  perm : m.entries.Perm (l.map entryOf)
  inOrder : m.isOrdered = true → m.entries = l.map entryOf

variable {O} {m m' : MpMap K V} {l : List (K × V)} {index k : K} {v : Option V} {pos : Nat}

theorem absent_map : Absent O.toKeyEq (l.map entryOf) index ↔ Absent O.toKeyEq l index := by
  constructor
  · intro h e he
    exact h (entryOf e) (List.mem_map_of_mem he)
  · intro h entry hentry
    obtain ⟨e, he, rfl⟩ := List.mem_map.mp hentry
    exact h e he

namespace Holds

variable (h : Holds O m l)

include h

theorem length : m.used = l.length := by
  rw [h.wf.used, h.perm.length_eq, List.length_map]

theorem absent (habsent : Absent O.toKeyEq m.entries index) : Absent O.toKeyEq l index :=
  absent_map.mp (habsent.of_perm h.perm.symm)

/-- An entry of the map is a pair of the list. -/
theorem split {a b : List (K × Option V)} (hentries : m.entries = a ++ (k, v) :: b)
    (hequal : O.equal k index = true) :
    ∃ c d w, v = some w ∧ l = c ++ (k, w) :: d ∧ Absent O.toKeyEq c index ∧
      (a ++ b).Perm ((c ++ d).map entryOf) ∧
      (m.isOrdered = true → a = c.map entryOf ∧ b = d.map entryOf) := by
  have hdistinct := h.wf.distinct
  rw [hentries] at hdistinct
  obtain ⟨a', b', hmap, hperm, habsent, horder⟩ : ∃ a' b', l.map entryOf = a' ++ (k, v) :: b' ∧
      (a ++ b).Perm (a' ++ b') ∧ Absent O.toKeyEq a' index ∧
      (m.isOrdered = true → a = a' ∧ b = b') := by
    -- in an array the pairs stand as in the list, in a hash table in some order
    cases hordered : m.isOrdered with
    | true =>
        have hinOrder := h.inOrder hordered
        rw [hentries] at hinOrder
        exact ⟨a, b, hinOrder.symm, List.Perm.refl _, hdistinct.absent_left hequal,
          fun _ => ⟨rfl, rfl⟩⟩
    | false =>
        have hperm := h.perm
        rw [hentries] at hperm
        obtain ⟨a', b', hmap, hrest, habsent⟩ :=
          (hdistinct.of_perm hperm.symm).exists_split hperm hequal
        exact ⟨a', b', hmap, hrest, habsent, nofun⟩
  obtain ⟨c, rest, rfl, rfl, hrest⟩ := List.map_eq_append_iff.mp hmap
  obtain ⟨e, d, rfl, hentry, rfl⟩ := List.map_eq_cons_iff.mp hrest
  obtain ⟨rfl, rfl⟩ := Prod.mk.injEq .. |>.mp hentry
  refine ⟨c, d, e.2, rfl, rfl, absent_map.mp habsent, ?_, horder⟩
  rw [List.map_append]
  exact hperm

/-- The slot of a key, and a value that is written there. -/
theorem found (hslot : Slot O m index pos k v) :
    ∃ w, v = some w ∧ find O.toKeyEq l index = some (k, w) ∧
      ∀ w', Holds O (m.setValue pos (some w')) (put O.toKeyEq l index w') := by
  obtain ⟨hlt, helem, hequal⟩ := hslot
  obtain ⟨c, d, w, rfl, rfl, habsent, hperm, horder⟩ := h.split (entries_key hlt helem) hequal
  refine ⟨w, rfl, find_split habsent hequal, ?_⟩
  intro w'
  rw [put_split habsent hequal]
  have hentries := entries_setValue hlt helem (some w')
  constructor
  · exact h.wf.setValue hlt helem (some w')
  · exact h.notFixed
  · rw [setValue_eq helem]
    exact h.clean.write
  · rw [hentries, List.map_append, List.map_cons]
    rw [List.map_append] at hperm
    exact List.perm_middle.trans ((hperm.cons _).trans List.perm_middle.symm)
  · intro hordered
    obtain ⟨ha, hb⟩ := horder hordered
    rw [hentries, List.map_append, List.map_cons, ha, hb]
    rfl

/-- A key that is new, and its first value. -/
theorem added (habsent : Absent O.toKeyEq m.entries index) (hadds : Adds O m m' index pos v) :
    v = none ∧ find O.toKeyEq l index = none ∧
      ∀ w, Holds O (m'.setValue pos (some w)) (put O.toKeyEq l index w) := by
  have hnone := h.absent habsent
  obtain ⟨hv, hclean⟩ := hadds.clean h.clean
  refine ⟨hv, find_absent hnone, ?_⟩
  intro w
  rw [put_absent hnone]
  have hentries := entries_setValue hadds.lt hadds.elem (some w)
  constructor
  · exact hadds.wf.setValue hadds.lt hadds.elem (some w)
  · exact hadds.notFixed
  · rw [setValue_eq hadds.elem]
    exact hclean.write
  · rw [hentries, List.map_append]
    have hold := hadds.entries.trans h.perm
    exact List.perm_middle.trans ((hold.cons _).trans (List.perm_append_singleton _ _).symm)
  · intro hordered
    have hold : m.isOrdered = true := hadds.ordered ▸ hordered
    obtain ⟨hbefore, hafter⟩ := hadds.inOrder hold
    rw [hentries, List.map_append, hbefore, hafter, h.inOrder hold]
    rfl

/-- A key that is taken out, and its slot cleared. -/
theorem removed {a b : List (K × Option V)} (hremoves : Removes O m m' index pos k v a b) :
    ∃ w, v = some w ∧ (m'.elem pos).value = some w ∧ find O.toKeyEq l index = some (k, w) ∧
      Holds O (m'.setValue pos none) (del O.toKeyEq l index) := by
  obtain ⟨c, d, w, rfl, rfl, habsent, hperm, horder⟩ := h.split hremoves.old hremoves.equal
  obtain ⟨cell, helem, hfree⟩ := hremoves.elem
  have hcell : ∀ l, m'.cell pos ≠ .key l := by
    rw [MpMap.cell, helem]
    exact hfree
  obtain ⟨hwf, hentries⟩ := hremoves.wf.setValue_free hremoves.lt hcell none
  refine ⟨w, rfl, by rw [helem], find_split habsent hremoves.equal, ?_⟩
  rw [del_split habsent hremoves.equal]
  constructor
  · exact hwf
  · exact hremoves.notFixed
  · intro e he hkey
    obtain ⟨q, hq, rfl⟩ := List.getElem_of_mem he
    have hlt : q < m'.alloc := by
      have halloc : (m'.setValue pos none).alloc = m'.alloc := alloc_write
      rw [← halloc]
      exact hq
    have hsame : (m'.setValue pos none).table[q] = (m'.setValue pos none).elem q := elem_eq hq
    rw [hsame] at hkey ⊢
    -- the slot itself is cleared, and all others were clean
    by_cases hplace : q = pos
    · rw [hplace, setValue, elem_write hremoves.lt]
    · rw [setValue, elem_write_ne (Ne.symm hplace)] at hkey ⊢
      exact hremoves.clean h.clean q hlt hplace hkey
  · rw [hentries, hremoves.new]
    exact hperm
  · intro hordered
    have hold : m.isOrdered = true := hremoves.ordered ▸ hordered
    obtain ⟨ha, hb⟩ := horder hold
    rw [hentries, hremoves.new, ha, hb, List.map_append]

end Holds

theorem not_fixed (h : Holds O m l) (kind : LookupKind) :
    ¬ (kind ≠ .lookup ∧ m.isFixed = true) := by
  rintro ⟨-, hfixed⟩
  rw [h.notFixed] at hfixed
  cases hfixed

/-! ## Calls -/

section Calls

variable [DecidableEq K] (pyNone : V)

/-- A call comes to the same as on the list. -/
def Agrees (O : Objects K) (m : MpMap K V) (r : Option (MpMap K V × Answer K V))
    (spec : List (K × V) × Answer K V) : Prop :=
  ∃ m', r = some (m', spec.2) ∧ Holds O m' spec.1 ∧ m'.isOrdered = m.isOrdered

variable (h : Holds O m l) (index)

include h

/-- The value is found, and the map left as it is; or there is none. -/
theorem lookup_cases : (∃ pos k v w, v = some w ∧ (m.elem pos).value = some w ∧
      find O.toKeyEq l index = some (k, w) ∧
      mpMapLookup O 2 m index .lookup = some (m, some pos)) ∨
    find O.toKeyEq l index = none ∧ mpMapLookup O 2 m index .lookup = some (m, none) := by
  rcases mpMapLookup_lookup h.wf 0 index with
    ⟨pos, k, v, hslot, hlookup⟩ | ⟨habsent, hlookup⟩
  · obtain ⟨w, rfl, hfind, -⟩ := h.found hslot
    exact .inl ⟨pos, k, some w, w, rfl, by rw [hslot.elem], hfind, hlookup⟩
  · exact .inr ⟨find_absent (h.absent habsent), hlookup⟩

theorem mpObjDictGet_agrees :
    Agrees O m (m.mpObjDictGet O index) (Dict.call O.toKeyEq pyNone l (.load index)) := by
  refine ⟨m, ?_, h, rfl⟩
  rcases lookup_cases index h with ⟨pos, k, v, w, -, hvalue, hfind, hlookup⟩ | ⟨hfind, hlookup⟩
  · simp only [mpObjDictGet, hlookup, hvalue, Dict.call, hfind]
    rfl
  · simp only [mpObjDictGet, hlookup, Dict.call, hfind]
    rfl

theorem dictContains_eq :
    m.dictContains O index = some (find O.toKeyEq l index).isSome := by
  rcases lookup_cases index h with ⟨pos, k, v, w, -, -, hfind, hlookup⟩ | ⟨hfind, hlookup⟩
  · rw [dictContains, hlookup, hfind]
    rfl
  · rw [dictContains, hlookup, hfind]
    rfl

theorem dictGet_agrees (default : Option V) :
    Agrees O m (m.dictGetHelper O pyNone index default .lookup)
      (Dict.call O.toKeyEq pyNone l (.get index default)) := by
  refine ⟨m, ?_, h, rfl⟩
  rw [dictGetHelper, if_neg (not_fixed h .lookup)]
  rcases lookup_cases index h with ⟨pos, k, v, w, -, hvalue, hfind, hlookup⟩ | ⟨hfind, hlookup⟩
  · simp only [hlookup, Option.bind_some, hvalue, Dict.call, hfind]
    rfl
  · simp only [hlookup, Option.bind_none, Dict.call, hfind]
    cases default <;> rfl

theorem dictPop_agrees (default : Option V) :
    Agrees O m (m.dictGetHelper O pyNone index default .removeIfFound)
      (Dict.call O.toKeyEq pyNone l (.pop index default)) := by
  rw [dictGetHelper, if_neg (not_fixed h .removeIfFound)]
  rcases mpMapLookup_remove h.wf h.notFixed 0 index with
    ⟨m', slot, k, v, a, b, hremoves, hlookup⟩ | ⟨habsent, hlookup⟩
  · obtain ⟨w, rfl, hvalue, hfind, hholds⟩ := h.removed hremoves
    refine ⟨m'.setValue slot none, ?_, hholds, hremoves.ordered⟩
    simp only [hlookup, Option.bind_some, hvalue, Dict.call, hfind]
    rfl
  · have hnone := h.absent habsent
    refine ⟨m, ?_, ?_, rfl⟩
    · simp only [hlookup, Option.bind_none, Dict.call, find_absent hnone]
      cases default <;> rfl
    · simp only [Dict.call, del_absent hnone]
      exact h

theorem dictSetdefault_agrees (default : Option V) :
    Agrees O m (m.dictGetHelper O pyNone index default .addIfNotFound)
      (Dict.call O.toKeyEq pyNone l (.setdefault index default)) := by
  rw [dictGetHelper, if_neg (not_fixed h .addIfNotFound)]
  rcases mpMapLookup_add h.wf h.notFixed 0 index with
    ⟨pos, k, v, hslot, hlookup⟩ | ⟨habsent, m', pos, v, hadds, hlookup⟩
  · obtain ⟨w, rfl, hfind, -⟩ := h.found hslot
    refine ⟨m, ?_, ?_, rfl⟩
    · simp only [hlookup, Option.bind_some, hslot.elem, Dict.call, hfind]
      rfl
    · simp only [Dict.call, hfind]
      exact h
  · obtain ⟨rfl, hfind, hholds⟩ := h.added habsent hadds
    refine ⟨m'.setValue pos (some (default.getD pyNone)), ?_, ?_, hadds.ordered⟩
    · simp only [hlookup, Option.bind_some, hadds.elem, Dict.call, hfind]
      cases default <;> rfl
    · simp only [Dict.call, hfind]
      exact hholds _

theorem storeAt_spec (value : V) :
    ∃ m', m.storeAt O index value = some m' ∧ Holds O m' (put O.toKeyEq l index value) ∧
      m'.isOrdered = m.isOrdered := by
  rcases mpMapLookup_add h.wf h.notFixed 0 index with
    ⟨pos, k, v, hslot, hlookup⟩ | ⟨habsent, m', pos, v, hadds, hlookup⟩
  · obtain ⟨-, -, -, hholds⟩ := h.found hslot
    refine ⟨m.setValue pos (some value), ?_, hholds value, rfl⟩
    rw [storeAt, hlookup]
  · obtain ⟨-, -, hholds⟩ := h.added habsent hadds
    refine ⟨m'.setValue pos (some value), ?_, hholds value, hadds.ordered⟩
    rw [storeAt, hlookup]

theorem mpObjDictStore_agrees (value : V) :
    Agrees O m (m.mpObjDictStore O index value)
      (Dict.call O.toKeyEq pyNone l (.store index value)) := by
  obtain ⟨m', hstore, hholds, hordered⟩ := storeAt_spec index h value
  refine ⟨m', ?_, hholds, hordered⟩
  rw [mpObjDictStore, if_neg (by rw [h.notFixed]; exact Bool.false_ne_true), hstore]
  rfl

/-- `del` is `pop` that answers nothing. -/
theorem mpObjDictDelete_agrees :
    Agrees O m (m.mpObjDictDelete O pyNone index)
      (Dict.call O.toKeyEq pyNone l (.delete index)) := by
  obtain ⟨m', hpop, hholds, hordered⟩ := dictPop_agrees index pyNone h none
  refine ⟨m', ?_, hholds, hordered⟩
  rw [mpObjDictDelete, hpop]
  simp only [Dict.call]
  cases find O.toKeyEq l index with
  | none => rfl
  | some e => rfl

omit index in
theorem dictUpdate_agrees (pairs : List (K × V)) :
    Agrees O m (m.dictUpdate O pairs) (Dict.call O.toKeyEq pyNone l (.update pairs)) := by
  have hfold : ∀ (pairs : List (K × V)) {m : MpMap K V} {l : List (K × V)}, Holds O m l →
      ∃ m', pairs.foldlM (fun (m : MpMap K V) e => m.storeAt O e.1 e.2) m = some m' ∧
        Holds O m' (pairs.foldl (fun l e => put O.toKeyEq l e.1 e.2) l) ∧
        m'.isOrdered = m.isOrdered := by
    intro pairs
    induction pairs with
    | nil =>
        intro m l h
        exact ⟨m, rfl, h, rfl⟩
    | cons e pairs ih =>
        intro m l h
        obtain ⟨m₁, hstore, hholds₁, hordered₁⟩ := storeAt_spec e.1 h e.2
        obtain ⟨m', hrest, hholds', hordered'⟩ := ih hholds₁
        refine ⟨m', ?_, hholds', hordered'.trans hordered₁⟩
        rw [List.foldlM_cons, hstore]
        exact hrest
  obtain ⟨m', hrun, hholds, hordered⟩ := hfold pairs h
  refine ⟨m', ?_, hholds, hordered⟩
  rw [dictUpdate, if_neg (by rw [h.notFixed]; exact Bool.false_ne_true), hrun]
  rfl

end Calls

/-! ## Iteration -/

theorem entriesOf_drop (hpos : pos < m.alloc) :
    entriesOf (m.table.drop pos) = (m.elem pos).entry.toList ++ m.after pos := by
  have hlt : pos < m.table.length := hpos
  have helem : m.table[pos] = m.elem pos := elem_eq hpos
  rw [List.drop_eq_getElem_cons hlt, helem, entriesOf, List.filterMap_cons, after, entriesOf]
  cases (m.elem pos).entry with
  | none => rfl
  | some entry => rfl

/-- The next element is that of the first entry that is left. -/
theorem firstFilled_cases (slots : Nat) {cur : Nat} (hslots : cur + slots = m.alloc) :
    (∃ pos k v, cur ≤ pos ∧ pos < m.alloc ∧ m.elem pos = ⟨.key k, v⟩ ∧
        m.firstFilled slots cur = some (pos, m.elem pos) ∧
        entriesOf (m.table.drop cur) = (k, v) :: m.after pos) ∨
      m.firstFilled slots cur = none ∧ entriesOf (m.table.drop cur) = [] := by
  induction slots generalizing cur with
  | zero =>
      right
      refine ⟨rfl, ?_⟩
      have hend : m.table.length ≤ cur := Nat.le_of_eq hslots.symm
      rw [List.drop_eq_nil_of_le hend]
      rfl
  | succ slots ih =>
      have hlt : cur < m.alloc := by omega
      have hdrop := entriesOf_drop hlt
      -- a slot that is not filled is passed over
      have hnext : (∀ k, m.cell cur ≠ .key k) →
          entriesOf (m.table.drop cur) = entriesOf (m.table.drop (cur + 1)) := by
        intro hfree
        rw [hdrop, entry_eq_none hfree]
        rfl
      have hlater : (∃ pos k v, cur ≤ pos ∧ pos < m.alloc ∧ m.elem pos = ⟨.key k, v⟩ ∧
          m.firstFilled slots (cur + 1) = some (pos, m.elem pos) ∧
          entriesOf (m.table.drop (cur + 1)) = (k, v) :: m.after pos) ∨
          m.firstFilled slots (cur + 1) = none ∧ entriesOf (m.table.drop (cur + 1)) = [] := by
        have hrange : cur + 1 + slots = m.alloc := by omega
        rcases ih hrange with ⟨pos, k, v, hle, hrest⟩ | hend
        · exact .inl ⟨pos, k, v, Nat.le_of_succ_le hle, hrest⟩
        · exact .inr hend
      rw [firstFilled]
      cases hcell : m.cell cur with
      | key k =>
          have helem : m.elem cur = ⟨.key k, (m.elem cur).value⟩ := by
            rw [cell] at hcell
            rw [← hcell]
          refine .inl ⟨cur, k, (m.elem cur).value, Nat.le_refl cur, hlt, helem, rfl, ?_⟩
          rw [hdrop, helem]
          rfl
      | null =>
          rw [hnext (by rw [hcell]; exact Cell.null_ne_key)]
          exact hlater
      | sentinel =>
          rw [hnext (by rw [hcell]; exact Cell.sentinel_ne_key)]
          exact hlater

theorem dictIterNext_cases {cur : Nat} (hcur : cur ≤ m.alloc) :
    (∃ pos k v, cur ≤ pos ∧ pos < m.alloc ∧ m.elem pos = ⟨.key k, v⟩ ∧
        m.dictIterNext cur = some (pos, m.elem pos) ∧
        entriesOf (m.table.drop cur) = (k, v) :: m.after pos) ∨
      m.dictIterNext cur = none ∧ entriesOf (m.table.drop cur) = [] :=
  firstFilled_cases (m.alloc - cur) (Nat.add_sub_cancel' hcur)

/-! ## Steps and runs -/

/-- `popitem` of a hash table takes one of its pairs. -/
theorem dictPopitem_next (pyNone : V) (h : Holds O m l) (hordered : m.isOrdered = false) :
    ∃ m' answer l', m.dictPopitem = some (m', answer) ∧
      Dict.Next O.toKeyEq pyNone l .popitem [answer] l' ∧ Holds O m' l' ∧
      m'.isOrdered = m.isOrdered := by
  have hfixed : ¬ m.isFixed = true := by
    rw [h.notFixed]
    exact Bool.false_ne_true
  have hhash : Hash O m := by
    refine h.wf.resolve_right ?_
    intro harray
    rw [harray.ordered] at hordered
    cases hordered
  rcases dictIterNext_cases (Nat.zero_le m.alloc) with
    ⟨pos, k, v, -, hpos, helem, hnext, (hentries : m.entries = _)⟩ |
    ⟨hnext, (hentries : m.entries = _)⟩
  · obtain ⟨c, d, w, rfl, rfl, -, hperm, -⟩ :=
      h.split (a := []) (hentries : m.entries = [] ++ (k, v) :: m.after pos) (O.refl k)
    obtain ⟨hhash', hnew, hold⟩ := hhash.remove hpos helem (c := .sentinel) nofun nofun none
    -- the first slot in use, so that no pair is before it
    have hbefore : m.before pos = [] := by
      rw [hentries] at hold
      have hlength := congrArg List.length hold
      rw [List.length_append] at hlength
      exact List.length_eq_zero_iff.mp (by omega)
    refine ⟨_, _, c ++ d, ?_, .popped List.perm_middle, ⟨.inl hhash', h.notFixed, ?_, ?_, ?_⟩, rfl⟩
    · simp only [dictPopitem, if_neg hfixed, hnext, helem]
    · intro e he hkey
      rcases List.mem_or_eq_of_mem_set he with hmem | rfl
      · exact h.clean e hmem hkey
      · rfl
    · have hrest : (m.write pos ⟨.sentinel, none⟩).entries = m.after pos := by
        rw [hnew, hbefore]
        rfl
      exact hrest ▸ hperm
    · intro horder
      have hkind : m.isOrdered = true := horder
      rw [hordered] at hkind
      cases hkind
  · have hnil : l = [] := by
      have hlength := h.perm.length_eq
      rw [hentries, List.length_map] at hlength
      exact List.length_eq_zero_iff.mp hlength.symm
    subst hnil
    refine ⟨m, .dictIsEmpty, [], ?_, .empty, h, rfl⟩
    simp only [dictPopitem, if_neg hfixed, hnext]

/-- An empty map holds nothing. -/
theorem holds_nil {n : Nat} (hfixed : m.isFixed = false) (hused : m.used = 0)
    (htable : m.table = List.replicate n .zero) (hordered : m.isOrdered = true → n = 0) :
    Holds O m [] := by
  have hclean : Clean m := by
    intro e he _
    rw [htable] at he
    rw [List.eq_of_mem_replicate he]
    rfl
  -- an array without slots, or a table of slots never used
  cases hkind : m.isOrdered with
  | false =>
      obtain ⟨hhash, -, hentries⟩ := Hash.of_replicate (O := O) hkind hfixed hused htable
      refine ⟨.inl hhash, hfixed, hclean, ?_, ?_⟩
      · rw [hentries]
        exact List.Perm.refl _
      · intro _
        exact hentries
  | true =>
      have hempty : m.table = [] ++ [] := by
        rw [htable, hordered hkind]
        rfl
      obtain ⟨harray, hentries⟩ := Ordered.of_append (O := O) hkind hempty hused nofun nofun
        List.Pairwise.nil nofun
      refine ⟨.inr harray, hfixed, hclean, ?_, ?_⟩
      · rw [hentries]
        exact List.Perm.refl _
      · intro _
        exact hentries

variable [DecidableEq K] (pyNone : V)

/-- A call does to the map what it does to the list. -/
theorem step_refines (h : Holds O m l) (op : Op K V) (hop : m.isOrdered = true → op ≠ .popitem) :
    ∃ m' answers l', step O pyNone m op = some (m', answers) ∧
      Dict.Next O.toKeyEq pyNone l op answers l' ∧ Holds O m' l' ∧
      m'.isOrdered = m.isOrdered := by
  -- all calls but popitem answer what the list answers
  have hagrees : ∀ {r : Option (MpMap K V × Answer K V)}, op ≠ .popitem →
      step O pyNone m op = r.map (fun r => (r.1, [r.2])) →
      Agrees O m r (Dict.call O.toKeyEq pyNone l op) →
      ∃ m' answers l', step O pyNone m op = some (m', answers) ∧
        Dict.Next O.toKeyEq pyNone l op answers l' ∧ Holds O m' l' ∧
        m'.isOrdered = m.isOrdered := by
    intro r hop hstep hagrees
    obtain ⟨m', rfl, hholds, hordered⟩ := hagrees
    exact ⟨m', _, _, hstep, .call hop, hholds, hordered⟩
  cases op with
  | load k => exact hagrees nofun rfl (mpObjDictGet_agrees k pyNone h)
  | store k v => exact hagrees nofun rfl (mpObjDictStore_agrees k pyNone h v)
  | delete k => exact hagrees nofun rfl (mpObjDictDelete_agrees k pyNone h)
  | get k default => exact hagrees nofun rfl (dictGet_agrees k pyNone h default)
  | pop k default => exact hagrees nofun rfl (dictPop_agrees k pyNone h default)
  | setdefault k default => exact hagrees nofun rfl (dictSetdefault_agrees k pyNone h default)
  | update pairs => exact hagrees nofun rfl (dictUpdate_agrees pyNone h pairs)
  | popitem =>
      -- in an array popitem does something else
      have hordered : m.isOrdered = false := by
        cases hkind : m.isOrdered with
        | false => rfl
        | true => exact absurd rfl (hop hkind)
      obtain ⟨m', answer, l', hpop, hnext, hholds, hsame⟩ := dictPopitem_next pyNone h hordered
      refine ⟨m', [answer], l', ?_, hnext, hholds, hsame⟩
      rw [step, hpop]
      rfl
  | clear =>
      have hclear : m.dictClear = (m.mpMapClear, .returned) := by
        rw [dictClear, if_neg (by rw [h.notFixed]; exact Bool.false_ne_true)]
      refine ⟨m.mpMapClear, [.returned], [], ?_, .call (c := .clear) nofun, ?_, rfl⟩
      · rw [step, hclear]
      · exact holds_nil (n := 0) rfl rfl rfl fun _ => rfl
  | len =>
      refine ⟨m, [.size l.length], l, ?_, .call (c := .len) nofun, h, rfl⟩
      rw [step, dictLen, h.length]
  | contains k =>
      refine ⟨m, _, l, ?_, .call (c := .contains k) nofun, h, rfl⟩
      rw [step, dictContains_eq k h]
      rfl

/-- A run does to the map what it does to the list. -/
theorem run_refines_dict (ops : List (Op K V)) {m : MpMap K V} {l : List (K × V)} (h : Holds O m l)
    (hops : m.isOrdered = true → Op.popitem ∉ ops) :
    ∃ m' answers l', run (step O pyNone) m ops = some (m', answers) ∧
      Trace (Dict.Next O.toKeyEq pyNone) l ops answers l' ∧ Holds O m' l' ∧
      m'.isOrdered = m.isOrdered := by
  induction ops generalizing m l with
  | nil => exact ⟨m, [], l, rfl, .nil l, h, rfl⟩
  | cons op ops ih =>
      have hop : m.isOrdered = true → op ≠ .popitem := by
        rintro hordered rfl
        exact hops hordered List.mem_cons_self
      obtain ⟨m₁, answers₁, l₁, hstep, hnext, hholds₁, hsame₁⟩ := step_refines pyNone h op hop
      obtain ⟨m', answers, l', hrun, htrace, hholds, hsame⟩ := ih hholds₁ fun hordered hmem =>
        hops (hsame₁ ▸ hordered) (List.mem_cons_of_mem op hmem)
      refine ⟨m', answers₁ ++ answers, l', ?_, .cons hnext htrace, hholds, hsame.trans hsame₁⟩
      simp only [run, hstep, hrun]

/-- Whatever is asked of a new `dict`, in whatever order, no search goes on for ever; it answers
what the list answers, and has the pairs of the list. -/
theorem dict_run (O : Objects K) (nArgs : Nat) (ops : List (Op K V)) :
    ∃ m answers l, run (step O pyNone) (mpObjNewDict nArgs) ops = some (m, answers) ∧
      Trace (Dict.Next O.toKeyEq pyNone) [] ops answers l ∧ m.entries.Perm (l.map entryOf) ∧
      m.used = l.length ∧ Distinct O.toKeyEq m.entries := by
  have hnew : Holds O (mpObjNewDict nArgs : MpMap K V) [] := holds_nil rfl rfl rfl nofun
  obtain ⟨m, answers, l, hrun, htrace, hholds, -⟩ := run_refines_dict pyNone ops hnew nofun
  exact ⟨m, answers, l, hrun, htrace, hholds.perm, hholds.length, hholds.wf.distinct⟩

/-- Of a new `OrderedDict`, anything but `popitem` may be asked; its pairs are those of the list in
the same order. -/
theorem orderedDict_run (O : Objects K) {ops : List (Op K V)} (hops : Op.popitem ∉ ops) :
    ∃ m answers l, run (step O pyNone) newOrderedDict ops = some (m, answers) ∧
      Trace (Dict.Next O.toKeyEq pyNone) [] ops answers l ∧ m.entries = l.map entryOf ∧
      m.used = l.length := by
  have hnew : Holds O (newOrderedDict : MpMap K V) [] := holds_nil rfl rfl rfl fun _ => rfl
  obtain ⟨m, answers, l, hrun, htrace, hholds, hordered⟩ :=
    run_refines_dict pyNone ops hnew fun _ => hops
  exact ⟨m, answers, l, hrun, htrace, hholds.inOrder hordered, hholds.length⟩

end MpMap

/-! ## Numbers for keys -/

/-- Numbers as objects: the even ones are interned strings, and all hashes are small. -/
def numbers : Objects Nat where
  equal k l := decide (k = l)
  refl _ := decide_eq_true rfl
  symm h := decide_eq_true (of_decide_eq_true h).symm
  trans h h' := decide_eq_true ((of_decide_eq_true h).trans (of_decide_eq_true h'))
  hash k := k % 3
  hash_eq h := congrArg (· % 3) (of_decide_eq_true h)
  isQstr k := decide (k % 2 = 0)
  isStr _ := false
  qstr_eq _ _ h := of_decide_eq_true h
  other_ne {k l} hk hl _ := by
    apply decide_eq_false
    rintro rfl
    rw [hk] at hl
    cases hl

/-- A key goes to the end again once it has been taken out. -/
theorem orderedDict_run_again :
    ∃ m answers l, Run.run (MpMap.step numbers 0) MpMap.newOrderedDict
        [.store 4 10, .store 7 11, .delete 4, .setdefault 4 none] = some (m, answers) ∧
      Trace (Dict.Next numbers.toKeyEq 0) []
        [.store 4 10, .store 7 11, .delete 4, .setdefault 4 none] answers l ∧
      m.entries = l.map MpMap.entryOf ∧ m.used = l.length :=
  MpMap.orderedDict_run 0 numbers (by decide)

end EfiLvgl.Py
