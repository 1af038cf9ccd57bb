import EfiLvgl.Lib.Probe

/-!
# EfiLvgl.Py.Map — the maps of the runtime

`mp_map_t` of `map.c`: a hash table with linear probing, or an array in the order in which keys
came. An element that has no key may still hold a value, which the caller that has taken it out
reads there. Keys are compared as pointers alone while all of them are interned strings.

`mpMapLookup` and `mpMapRehash` call one another; the depth says how often. `none` stands for a
loop that does not end or an assertion that fails. That memory may run out is left out.
-/

namespace EfiLvgl.Py

open EfiLvgl.Assoc EfiLvgl.Probe

universe u v

/-- What the maps ask of objects: `mp_obj_equal`, `MP_UNARY_OP_HASH` (`qstr_hash` for interned
strings), and whether they are strings. Interned strings are equal only as pointers, and nothing
but a string is equal to them. -/
structure Objects (K : Type u) extends Hashed K where
  isQstr : K → Bool
  isStr : K → Bool
  qstr_eq : ∀ {k l}, isQstr k = true → isQstr l = true → equal k l = true → k = l
  other_ne : ∀ {k l}, isQstr k = true → isQstr l = false → isStr l = false → equal k l = false

/-- `mp_map_lookup_kind_t`. -/
inductive LookupKind where
  | lookup
  | addIfNotFound
  | removeIfFound
deriving DecidableEq, Repr

/-- `mp_map_elem_t`; a value `none` is `MP_OBJ_NULL`. -/
structure Elem (K : Type u) (V : Type v) where
  key : Cell K
  value : Option V
deriving DecidableEq, Repr

/-- An element of a table that `m_new0` has made. -/
def Elem.zero {K : Type u} {V : Type v} : Elem K V := ⟨.null, none⟩

/-- `mp_map_t`. -/
structure MpMap (K : Type u) (V : Type v) where
  allKeysAreQstrs : Bool
  isFixed : Bool
  isOrdered : Bool
  used : Nat
  table : List (Elem K V)
deriving DecidableEq, Repr

/-- `hash_allocation_sizes`. -/
def hashAllocationSizes : List Nat :=
  [0, 2, 4, 6, 8, 10, 12,
    17, 23, 29, 37, 47, 59, 73,
    97, 127, 167, 223, 293, 389, 521, 691, 919, 1223, 1627, 2161,
    3229, 4831, 7243, 10861, 16273, 24407, 36607, 54907]

/-- `get_hash_alloc_greater_or_equal_to`. -/
def getHashAllocGreaterOrEqualTo (x : Nat) : Nat :=
  match hashAllocationSizes.find? fun size => x ≤ size with
  | some size => size
  | none => (x + x / 2) ||| 1

variable {K : Type u} {V : Type v}

/-- `mp_map_init`. -/
def mpMapInit (n : Nat) : MpMap K V :=
  { allKeysAreQstrs := true
    isFixed := false
    isOrdered := false
    used := 0
    table := List.replicate n .zero }

namespace MpMap

def alloc (m : MpMap K V) : Nat := m.table.length

/-- `map->table[pos]`. -/
def elem (m : MpMap K V) (pos : Nat) : Elem K V := m.table.getD pos .zero

/-- `map->table[pos].key`. -/
def cell (m : MpMap K V) (pos : Nat) : Cell K := (m.elem pos).key

/-- An element is written. -/
def write (m : MpMap K V) (pos : Nat) (e : Elem K V) : MpMap K V :=
  { m with table := m.table.set pos e }

/-- The value of an element is written. -/
def setValue (m : MpMap K V) (pos : Nat) (value : Option V) : MpMap K V :=
  m.write pos { m.elem pos with value }

/-- `mp_map_clear`. -/
def mpMapClear (m : MpMap K V) : MpMap K V :=
  { m with allKeysAreQstrs := true, isFixed := false, used := 0, table := [] }

/-- A key comes to a slot of the hash table. -/
def addAt (O : Objects K) (m : MpMap K V) (pos : Nat) (index : K) : MpMap K V :=
  { m.write pos ⟨.key index, none⟩ with
    used := m.used + 1
    allKeysAreQstrs := m.allKeysAreQstrs && O.isQstr index }

/-- The key of a slot is deleted; its value stays. -/
def removeAt (m : MpMap K V) (pos : Nat) : MpMap K V :=
  let key := match m.cell ((pos + 1) % m.alloc) with
    | .null => .null
    | _ => .sentinel
  { m.write pos { m.elem pos with key } with used := m.used - 1 }

/-- The rest of the array is moved down, and the element put after the end. -/
def moveDown (m : MpMap K V) (pos : Nat) : MpMap K V :=
  { m with
    used := m.used - 1
    table := (m.table.take m.used).eraseIdx pos ++
      ⟨.null, (m.elem pos).value⟩ :: m.table.drop m.used }

/-- A key comes to the end of the array, which grows by four when it is full. -/
def append (O : Objects K) (m : MpMap K V) (index : K) : MpMap K V :=
  let table := if m.used = m.alloc then m.table ++ List.replicate 4 .zero else m.table
  { m with
    used := m.used + 1
    allKeysAreQstrs := m.allKeysAreQstrs && O.isQstr index
    table := table.set m.used { table.getD m.used .zero with key := .key index } }

section Lookup

variable (O : Objects K)

/-- Whether keys are compared as pointers alone; `none` if the key cannot be in the map. -/
def compareOnlyPtrs (m : MpMap K V) (index : K) (kind : LookupKind) : Option Bool :=
  if m.allKeysAreQstrs then
    if O.isQstr index then some true
    else if O.isStr index then some false
    else if kind ≠ .addIfNotFound then none
    else some true
  else some false

variable [DecidableEq K]

/-- `elem->key == index || (!compare_only_ptrs && mp_obj_equal(elem->key, index))`. -/
def hit (compareOnlyPtrs : Bool) (index key : K) : Bool :=
  decide (key = index) || (!compareOnlyPtrs && O.equal key index)

/-- The same of an element of an array; a key that is no object is equal to none. -/
def elemHit (compareOnlyPtrs : Bool) (index : K) (e : Elem K V) : Bool :=
  match e.key with
  | .key k => hit O compareOnlyPtrs index k
  | _ => false

/-- The search of an ordered array. -/
def orderedLookup (m : MpMap K V) (index : K) (compareOnlyPtrs : Bool) (kind : LookupKind) :
    MpMap K V × Option Nat :=
  match (m.table.take m.used).findIdx? (elemHit O compareOnlyPtrs index) with
  | some pos =>
      if kind = .removeIfFound then (m.moveDown pos, some (m.used - 1)) else (m, some pos)
  | none => if kind = .addIfNotFound then (m.append O index, some m.used) else (m, none)

/-- The search of a hash table, for so many times around. -/
def hashLookup (rehash : MpMap K V → Option (MpMap K V)) (index : K) (compareOnlyPtrs : Bool)
    (kind : LookupKind) : Nat → MpMap K V → Option (MpMap K V × Option Nat)
  | 0, _ => none
  | rounds + 1, m =>
      let start := O.hash index % m.alloc
      match search m.alloc m.cell (hit O compareOnlyPtrs index) start m.alloc start none with
      | none => none
      | some (.found pos) =>
          if kind = .removeIfFound then some (m.removeAt pos, some pos) else some (m, some pos)
      | some (.empty pos avail) =>
          if kind = .addIfNotFound then
            some (m.addAt O (avail.getD pos) index, some (avail.getD pos))
          else some (m, none)
      | some (.around avail) =>
          if kind = .addIfNotFound then
            match avail with
            | some slot => some (m.addAt O slot index, some slot)
            | none => do
                let m ← rehash m
                hashLookup rehash index compareOnlyPtrs kind rounds m
          else some (m, none)

/-- One element of the old table goes to the new one. -/
def readd (lookup : MpMap K V → K → Option (MpMap K V × Option Nat)) (m : MpMap K V)
    (e : Elem K V) : Option (MpMap K V) :=
  match e.key with
  | .key k =>
      match lookup m k with
      | some (m, some slot) => some (m.setValue slot e.value)
      | _ => none
  | _ => some m

/-- `mp_map_rehash`, with the lookup that adds a key. -/
def mpMapRehash (lookup : MpMap K V → K → Option (MpMap K V × Option Nat)) (m : MpMap K V) :
    Option (MpMap K V) :=
  m.table.foldlM (readd lookup)
    { m with
      used := 0
      allKeysAreQstrs := true
      table := List.replicate (getHashAllocGreaterOrEqualTo (m.alloc + 1)) .zero }

/-- `mp_map_lookup`: the map afterwards, and the slot that is returned. -/
def mpMapLookup : Nat → MpMap K V → K → LookupKind → Option (MpMap K V × Option Nat)
  | 0, _, _, _ => none
  | depth + 1, m, index, kind =>
      let rehash := mpMapRehash fun m index => mpMapLookup depth m index .addIfNotFound
      if m.isFixed ∧ kind ≠ .lookup then none
      else
        match m.compareOnlyPtrs O index kind with
        | none => some (m, none)
        | some compareOnlyPtrs =>
            if m.isOrdered then some (m.orderedLookup O index compareOnlyPtrs kind)
            else if m.alloc = 0 then
              if kind = .addIfNotFound then do
                let m ← rehash m
                hashLookup O rehash index compareOnlyPtrs kind 2 m
              else some (m, none)
            else hashLookup O rehash index compareOnlyPtrs kind 2 m

end Lookup

end MpMap

end EfiLvgl.Py
