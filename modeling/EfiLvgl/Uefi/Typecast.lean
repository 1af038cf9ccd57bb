import Mathlib.Data.List.Basic
import Mathlib.Data.UInt

/-!
# EfiLvgl.Uefi.Typecast — `mem` objects and their type descriptions

The `mem` objects of the `Uefi` module (`objuefi.c`) give a script a typed view of
raw memory. A type description is a text such as `4H`, `B:3`, `F(N,P)` or
`O#Struct`; the name after `#` is looked up in the script's namespace and leads to
an `OrderedDict` of further texts, to another text, or to `None`.

* `efiMemTypecastByStr` reads a text into an object, attribute by attribute;
* `efiMemTypecastByDict` lays out the fields of a structure;
* `efiMemNewN`, `efiMemNew` build a new object;
* `efiMemTypecast` is `CAST`: it reads a description into an object that exists. What it leaves
  of the object when it raises is in `InPlace`.

The three readers call each other through `O#`, so `efiMemTypecast` carries fuel:
an alias that leads back to itself never returns. Texts are C strings, one `Char`
for each byte; words are `Nat` with the wrap-around of `mp_uint_t` written out.
-/

namespace EfiLvgl.Uefi

/-! ## Words, texts and results -/

/-- The two processors the package is built for. -/
inductive Arch where
  | ia32
  | x64
deriving DecidableEq, Repr

/-- `sizeof (void *)`, also of `UINTN`, `EFI_STATUS` and `EFI_HANDLE`. -/
def Arch.ptrSize : Arch → Nat
  | .ia32 => 4
  | .x64 => 8

/-- `mp_uint_t` counts modulo this. -/
def Arch.word (a : Arch) : Nat := 2 ^ (8 * a.ptrSize)

theorem Arch.word_pos (a : Arch) : 0 < a.word := Nat.two_pow_pos _

/-- A word has at least 32 bits. -/
theorem Arch.word_large (a : Arch) : 4096 ≤ a.word := by
  cases a <;> decide

/-- `x - y` of two words. -/
def Arch.sub (a : Arch) (x y : Nat) : Nat := (x + (a.word - y % a.word)) % a.word

/-- A C string: one `Char` for each byte, and none of them NUL. -/
abbrev Str := List Char

/-- The exception classes that are raised here. -/
inductive ExcType where
  | nameError
  | attributeError
  | typeError
  | valueError
  | indexError
  | overflowError
  | notImplementedError
deriving DecidableEq, Repr

/-- Why a call does not return: it raises, it faults (a division by zero, a `NULL`
dereference), or the model has run out of fuel. -/
inductive Stop where
  | raise (type : ExcType) (msg : String)
  | fault
  | fuel
deriving DecidableEq, Repr

/-- The result of a call. -/
abbrev Res := Except Stop

/-- What a call that goes through a `bind` and returns has done. -/
theorem bind_ok {α β : Type} {x : Res α} {f : α → Res β} {b : β} :
    x >>= f = .ok b ↔ ∃ a, x = .ok a ∧ f a = .ok b := by
  cases x with
  | error e => simp [bind, Except.bind]
  | ok a => simp [bind, Except.bind]

@[simp] theorem bind_ok_left {α β : Type} (a : α) (f : α → Res β) :
    (Except.ok a : Res α) >>= f = f a := rfl

/-! ## Objects -/

/-- `base.type`. -/
inductive ObjType where
  | mem
  | guid
  | fptr
deriving DecidableEq, Repr

/-- The union of `fields` and `args`: a structure's fields, or the argument types
of a function prototype (`None` for a missing return type). -/
inductive Fields (α : Type) where
  | null
  | dict (entries : List (Str × α))
  | args (items : List (Option Str))
deriving Repr

/-- Apply a function to every field. -/
def Fields.map {α β : Type} (g : α → β) : Fields α → Fields β
  | .null => .null
  | .dict entries => .dict (entries.map fun e => (e.1, g e.2))
  | .args items => .args items

/-- `mp_obj_mem_t`. `bitoff` and `bitnum` are 8 bits wide. -/
structure Mem where
  type : ObjType
  addr : Nat
  fields : Fields Mem
  bitoff : Nat
  bitnum : Nat
  readonly : Bool
  hasvarg : Bool
  overrw : Bool
  page : Bool
  typespec : Option Str
  typesize : Nat
  size : Nat

/-- The table `type_size`. -/
def typeSize (a : Arch) : Char → Nat
  | 'B' | 'a' | 'b' => 1
  | 'H' | 'h' | 'u' => 2
  | 'I' | 'L' | 'i' | 'l' => 4
  | 'Q' | 'q' => 8
  | 'E' | 'F' | 'N' | 'P' | 'T' | 'n' => a.ptrSize
  | 'G' => 16
  | _ => 0

/-- A freshly allocated object: the collector hands out cleared memory. -/
def blank (buf : Nat) (readonly : Bool) : Mem where
  type := .mem
  addr := buf
  fields := .null
  bitoff := 0
  bitnum := 0
  readonly := readonly
  hasvarg := false
  overrw := false
  page := false
  typespec := none
  typesize := 0
  size := 0

/-- `efi_mem_get_size`. The branch that raises is never taken, `bitnum` being
unsigned. -/
def efiMemGetSize (a : Arch) (mem : Mem) : Res Nat :=
  if mem.bitnum = 0 then
    .ok (if 0 < mem.size then mem.size else mem.typesize)
  else if mem.typesize * 8 % a.word = 0 then
    .error .fault
  else
    .ok ((mem.bitoff + mem.bitnum) / (mem.typesize * 8 % a.word) * mem.typesize % a.word)

/-! ## The script's namespace -/

/-- A value of an `OrderedDict` that describes a structure. -/
inductive SpecObj where
  | str (s : Str)
  | other (typeName : String)
deriving DecidableEq, Repr

/-- What the readers can tell of a Python object. -/
inductive TypeDesc where
  | none
  | str (s : Str)
  | dict (entries : List (Str × SpecObj))
  | other
deriving DecidableEq, Repr

/-- The names a script has bound when a description is read. An object is `none`
when it is `mp_const_none`; a lookup may raise. -/
structure Namespace where
  Obj : Type
  loadName : Str → Res (Option Obj)
  loadAttr : Obj → Str → Res (Option Obj)
  view : Obj → TypeDesc

/-- A namespace in which no name is bound. -/
def noNames : Namespace where
  Obj := Empty
  loadName := fun _ => .error (.raise .nameError "name not defined")
  loadAttr := fun o _ => nomatch o
  view := fun o => nomatch o

/-- What an object is to the readers. -/
def Namespace.desc (ns : Namespace) : Option ns.Obj → TypeDesc
  | .none => .none
  | some o => ns.view o

/-- `mp_load_name` for the first component, `mp_load_attr` for the others. -/
def Namespace.load (ns : Namespace) (varobj : Option ns.Obj) (name : Str) : Res (Option ns.Obj) :=
  match varobj with
  | none => ns.loadName name
  | some o => ns.loadAttr o name

/-- `load_obj_by_namespace`: `varobj` is what the components so far lead to, `name`
the part of the next one that is in the buffer of 256 characters. A component that
fills the buffer ends the loop. -/
def loadObjByNamespace (ns : Namespace) (varobj : Option ns.Obj) (name : Str) :
    Str → Res (Option ns.Obj)
  | [] => if 256 ≤ name.length then .ok varobj else ns.load varobj name
  | c :: rest =>
      if 256 ≤ name.length then .ok varobj
      else if c ≠ '.' then loadObjByNamespace ns varobj (name ++ [c]) rest
      else do
        match ← ns.load varobj name with
        | none => .ok none
        | some o => loadObjByNamespace ns (some o) [] rest

/-- `resolve_type_by_name`: follow `#name` as long as it leads to texts. -/
def resolveTypeByName (ns : Namespace) : Nat → TypeDesc → Str → Res TypeDesc
  | 0, _, _ => .error .fuel
  | n + 1, varobj, namestr =>
      match namestr with
      | '#' :: name => do
          match ns.desc (← loadObjByNamespace ns none [] name) with
          | .str s => resolveTypeByName ns n (.str s) s
          | d => .ok d
      | _ => .ok varobj

/-! ## Reading a text -/

/-- One digit of a number. -/
def digit (a : Arch) (num : Nat) (c : Char) : Nat := (num * 10 + (c.toNat - '0'.toNat)) % a.word

/-- The number at the front of a text, at least one. -/
def repeatCount (a : Arch) (typespec : Str) : Nat :=
  let len := (typespec.takeWhile Char.isDigit).foldl (digit a) 0
  if 0 < len then len else 1

/-- The text behind the number. -/
def afterCount (typespec : Str) : Str := typespec.dropWhile Char.isDigit

/-- The loop over a function prototype: the argument types found, whether one of
them is variable, and the text that is left. `cur` is the text since `arg_start`. -/
def prototype (items : List (Option Str)) (hasvarg : Bool) (cur : Str) :
    Str → List (Option Str) × Bool × Str
  | [] => (items, hasvarg, [])
  | c :: rest =>
      -- the loop ends at the eleventh type; the enclosing loop then steps over `c`
      if 11 ≤ items.length then (items, hasvarg, rest)
      else if c = '(' then
        prototype (items ++ [if cur = [] then none else some cur]) hasvarg [] rest
      else if c = ',' ∨ c = ')' then
        let items' := if cur = [] then items else items ++ [some cur]
        let hasvarg' := hasvarg || cur.head? == some 'V'
        if c = ')' then (items', hasvarg', rest) else prototype items' hasvarg' [] rest
      else prototype items hasvarg (cur ++ [c]) rest

theorem prototype_length (items : List (Option Str)) (hasvarg : Bool) (cur text : Str) :
    (prototype items hasvarg cur text).2.2.length ≤ text.length := by
  induction text generalizing items hasvarg cur with
  | nil => simp [prototype]
  | cons c rest ih =>
      unfold prototype
      dsimp only
      split
      · simp
      · split
        · exact Nat.le_succ_of_le (ih _ _ _)
        · split
          · split
            · simp
            · exact Nat.le_succ_of_le (ih _ _ _)
          · exact Nat.le_succ_of_le (ih _ _ _)

/-- `bitnum` is set behind the loop, once a `:` has been seen. -/
def finish (self : Mem) (num : Nat) (bitfield : Bool) : Mem :=
  if bitfield then { self with bitnum := (if 0 < num then num else 1) % 256 } else self

/-- The loop of `efi_mem_typecast_by_str`. `deref` casts an object to what `#name`
stands for. -/
def byStrLoop (a : Arch) (deref : Mem → Str → Res Mem) (self : Mem) (num : Nat)
    (bitfield : Bool) : Str → Res Mem
  | [] => .ok (finish self num bitfield)
  | c :: rest =>
      if c.isDigit then byStrLoop a deref self (digit a num c) bitfield rest
      else if c.isAlpha then
        let self := { self with typesize := typeSize a c }
        -- the rest of the text belongs to `O`, `T`, `P` or `G`: the loop ends with them
        if c = 'O' then
          if rest.head? ≠ some '#' then
            .error (.raise .valueError
              "Object/structure '#<name>' must be given after 'O' typecode")
          else do
            let self ← deref self rest
            .ok (finish self 0 bitfield)
        else if c = 'F' then
          let self := { self with type := .fptr }
          if rest = [] then .ok (finish self 0 bitfield)
          else
            let p := prototype [] false [] rest
            byStrLoop a deref
              { self with fields := .args p.1, hasvarg := self.hasvarg || p.2.1 } 0 bitfield p.2.2
        else if c = 'T' ∨ c = 'P' then .ok (finish self 0 bitfield)
        else if c = 'G' then .ok (finish { self with type := .guid } 0 bitfield)
        else byStrLoop a deref self 0 bitfield rest
      else if c = ':' then
        -- in a cast this is the former `typesize` as long as no letter has been read
        if 8 < self.typesize then
          .error (.raise .valueError "Bitfield supports base integer type only.")
        else byStrLoop a deref { self with bitoff := num % 256 } 0 true rest
      else .error (.raise .valueError "Invalid type format")
termination_by text => text.length
decreasing_by
  all_goals simp
  have := prototype_length [] false [] rest
  omega

/-! One equation for each kind of character. -/

section Chars

variable {a : Arch} {deref : Mem → Str → Res Mem} (self : Mem) (num : Nat) (bitfield : Bool)
  (rest : Str)

@[simp] theorem byStrLoop_nil :
    byStrLoop a deref self num bitfield [] = .ok (finish self num bitfield) := by
  rw [byStrLoop]

theorem byStrLoop_digit {c : Char} (hc : c.isDigit = true) :
    byStrLoop a deref self num bitfield (c :: rest) =
      byStrLoop a deref self (digit a num c) bitfield rest := by
  rw [byStrLoop, if_pos hc]

theorem byStrLoop_object (hr : rest.head? = some '#') :
    byStrLoop a deref self num bitfield ('O' :: rest) = (do
      let self ← deref { self with typesize := 0 } rest
      .ok (finish self 0 bitfield)) := by
  rw [byStrLoop, if_neg (by decide), if_pos (by decide)]
  simp [hr, typeSize]

theorem byStrLoop_object_bare (hr : rest.head? ≠ some '#') :
    byStrLoop a deref self num bitfield ('O' :: rest) =
      .error (.raise .valueError
        "Object/structure '#<name>' must be given after 'O' typecode") := by
  rw [byStrLoop, if_neg (by decide), if_pos (by decide), if_pos rfl]
  exact if_pos hr

theorem byStrLoop_function (hr : rest ≠ []) :
    byStrLoop a deref self num bitfield ('F' :: rest) =
      byStrLoop a deref { self with
        typesize := a.ptrSize
        type := .fptr
        fields := .args (prototype [] false [] rest).1
        hasvarg := self.hasvarg || (prototype [] false [] rest).2.1 } 0 bitfield
        (prototype [] false [] rest).2.2 := by
  rw [byStrLoop, if_neg (by decide), if_pos (by decide)]
  simp [hr, typeSize]

theorem byStrLoop_function_nil :
    byStrLoop a deref self num bitfield ['F'] =
      .ok (finish { self with typesize := a.ptrSize, type := .fptr } 0 bitfield) := by
  rw [byStrLoop, if_neg (by decide), if_pos (by decide)]
  simp [typeSize]

theorem byStrLoop_pointer {c : Char} (hc : c = 'T' ∨ c = 'P') :
    byStrLoop a deref self num bitfield (c :: rest) =
      .ok (finish { self with typesize := a.ptrSize } 0 bitfield) := by
  rcases hc with rfl | rfl <;>
  · rw [byStrLoop, if_neg (by decide), if_pos (by decide)]
    simp [typeSize]

theorem byStrLoop_guid :
    byStrLoop a deref self num bitfield ('G' :: rest) =
      .ok (finish { self with typesize := 16, type := .guid } 0 bitfield) := by
  rw [byStrLoop, if_neg (by decide), if_pos (by decide)]
  simp [typeSize]

theorem byStrLoop_letter {c : Char} (hd : ¬ c.isDigit = true) (hα : c.isAlpha = true)
    (hO : c ≠ 'O') (hF : c ≠ 'F') (hP : ¬ (c = 'T' ∨ c = 'P')) (hG : c ≠ 'G') :
    byStrLoop a deref self num bitfield (c :: rest) =
      byStrLoop a deref { self with typesize := typeSize a c } 0 bitfield rest := by
  rw [byStrLoop, if_neg hd, if_pos hα]
  simp only [hO, hF, hP, hG, if_false]

theorem byStrLoop_colon (h : self.typesize ≤ 8) :
    byStrLoop a deref self num bitfield (':' :: rest) =
      byStrLoop a deref { self with bitoff := num % 256 } 0 true rest := by
  rw [byStrLoop, if_neg (by decide), if_neg (by decide), if_pos rfl, if_neg (by omega)]

theorem byStrLoop_colon_wide (h : 8 < self.typesize) :
    byStrLoop a deref self num bitfield (':' :: rest) =
      .error (.raise .valueError "Bitfield supports base integer type only.") := by
  rw [byStrLoop, if_neg (by decide), if_neg (by decide), if_pos rfl, if_pos h]

theorem byStrLoop_invalid {c : Char} (hd : ¬ c.isDigit = true) (hα : ¬ c.isAlpha = true)
    (hcolon : c ≠ ':') :
    byStrLoop a deref self num bitfield (c :: rest) =
      .error (.raise .valueError "Invalid type format") := by
  rw [byStrLoop, if_neg hd, if_neg hα, if_neg hcolon]

end Chars

section Deref

variable (a : Arch) (deref : Mem → Str → Res Mem)

/-- `efi_mem_typecast_by_str`, with `#name` left to `deref`. -/
def castByStr (self : Mem) (typespec : Str) : Res Mem :=
  byStrLoop a deref { self with typespec := some typespec } 0 false typespec

/-- The last assignments of `efi_mem_new_n`. -/
def Mem.sized (self : Mem) (len : Nat) (pmem : Bool) : Mem :=
  { self with
    size := self.typesize * len % a.word
    overrw := self.typesize * len % a.word == 0
    page := pmem }

/-- `efi_mem_new_n`, with `#name` left to `deref`. -/
def newN (buf len : Nat) (typespec : Option Str) (readonly pmem : Bool) : Res Mem :=
  match typespec with
  | some t => do
      let self ← castByStr a deref (blank buf readonly) t
      .ok (self.sized a len pmem)
  | none => .ok (Mem.sized a { blank buf readonly with typesize := 1 } len pmem)

/-- `efi_mem_new` for a text, with `#name` left to `deref`. -/
def newBySpec (buf : Nat) (typespec : Str) (readonly pmem : Bool) : Res Mem :=
  newN a deref buf (repeatCount a typespec) (some (afterCount typespec)) readonly pmem

theorem newBySpec_ok {buf : Nat} {typespec : Str} {readonly pmem : Bool} {f : Mem} :
    newBySpec a deref buf typespec readonly pmem = .ok f ↔
      ∃ g, castByStr a deref (blank buf readonly) (afterCount typespec) = .ok g ∧
        g.sized a (repeatCount a typespec) pmem = f := by
  unfold newBySpec newN
  rw [bind_ok]
  simp

/-- A letter that stands for itself: it is neither a structure nor the start of a
longer text. -/
def plainLetter (c : Char) : Bool :=
  c.isAlpha && !(c == 'O' || c == 'F' || c == 'T' || c == 'P' || c == 'G')

theorem not_isDigit_of_isAlpha {c : Char} (h : c.isAlpha = true) : ¬ c.isDigit = true := by
  change (decide (c.val ≥ 65 ∧ c.val ≤ 90) || (decide (c.val ≥ 97) && decide (c.val ≤ 122))) =
    true at h
  simp only [Char.isDigit, Bool.or_eq_true, Bool.and_eq_true, decide_eq_true_eq] at h ⊢
  intro hd
  have h1 := UInt32.le_iff_toNat_le.mp hd.2
  rcases h with h | h
  · have h2 := UInt32.le_iff_toNat_le.mp h.1
    simp at h1 h2
    omega
  · have h2 := UInt32.le_iff_toNat_le.mp h.1
    simp at h1 h2
    omega

theorem byStrLoop_plain {c : Char} (hc : plainLetter c = true) (self : Mem) (num : Nat)
    (bitfield : Bool) (rest : Str) :
    byStrLoop a deref self num bitfield (c :: rest) =
      byStrLoop a deref { self with typesize := typeSize a c } 0 bitfield rest := by
  simp only [plainLetter, Bool.and_eq_true, Bool.not_eq_true', Bool.or_eq_false_iff,
    beq_eq_false_iff_ne] at hc
  rcases hc with ⟨hα, ⟨⟨⟨hO, hF⟩, hT⟩, hP⟩, hG⟩
  exact byStrLoop_letter _ _ _ _ (not_isDigit_of_isAlpha hα) hα hO hF (by simp [hT, hP]) hG

theorem byStrLoop_digits {ds : Str} (hds : ∀ c ∈ ds, c.isDigit = true) (self : Mem) (num : Nat)
    (bitfield : Bool) :
    byStrLoop a deref self num bitfield ds =
      .ok (finish self (ds.foldl (digit a) num) bitfield) := by
  induction ds generalizing num with
  | nil => simp
  | cons c ds ih =>
      rw [byStrLoop_digit _ _ _ _ (hds c (by simp)), ih fun d hd => hds d (by simp [hd])]
      rfl

/-- One letter sets `typesize` and, for `F` and `G`, the object's type. -/
theorem castByStr_letter {c : Char} (hα : c.isAlpha = true) (hO : c ≠ 'O') (self : Mem) :
    ∃ type, castByStr a deref self [c] =
      .ok { self with typespec := some [c], typesize := typeSize a c, type := type } := by
  unfold castByStr
  by_cases hF : c = 'F'
  · subst hF
    exact ⟨.fptr, by rw [byStrLoop_function_nil]; rfl⟩
  · by_cases hP : c = 'T' ∨ c = 'P'
    · refine ⟨self.type, ?_⟩
      rw [byStrLoop_pointer _ _ _ _ hP]
      rcases hP with rfl | rfl <;> rfl
    · by_cases hG : c = 'G'
      · subst hG
        exact ⟨.guid, by rw [byStrLoop_guid]; rfl⟩
      · refine ⟨self.type, ?_⟩
        rw [byStrLoop_letter _ _ _ _ (not_isDigit_of_isAlpha hα) hα hO hF hP hG, byStrLoop_nil]
        rfl

/-- A bit field of a base type that is not too wide. -/
theorem castByStr_bits {c : Char} {ds : Str} (hc : plainLetter c = true)
    (hsize : typeSize a c ≤ 8) (hds : ∀ c ∈ ds, c.isDigit = true) (self : Mem) :
    castByStr a deref self (c :: ':' :: ds) =
      .ok { self with
        typespec := some (c :: ':' :: ds)
        typesize := typeSize a c
        bitoff := 0
        bitnum := (if 0 < ds.foldl (digit a) 0 then ds.foldl (digit a) 0 else 1) % 256 } := by
  unfold castByStr
  rw [byStrLoop_plain a deref hc, byStrLoop_colon _ _ _ _ hsize, byStrLoop_digits a deref hds]
  simp [finish]

/-- `mp_obj_str_get_str`. -/
def strGetStr : SpecObj → Res Str
  | .str s => .ok s
  | .other typeName =>
      .error (.raise .typeError ("can't convert '" ++ typeName ++ "' object to str implicitly"))

/-- A bit field that follows a bit field goes on where that one ends. -/
def follow (lastfield : Option Mem) (thisfield : Mem) : Mem :=
  match lastfield with
  | some last =>
      if 0 < last.bitnum ∧ 0 < thisfield.bitnum then
        { thisfield with bitoff := (last.bitoff + last.bitnum) % 256 }
      else thisfield
  | none => thisfield

/-- The field before moves nothing but the bits. -/
theorem follow_eq (lastfield : Option Mem) (thisfield : Mem) :
    ∃ bitoff, follow lastfield thisfield = { thisfield with bitoff := bitoff } := by
  unfold follow
  split
  · split
    · exact ⟨_, rfl⟩
    · exact ⟨thisfield.bitoff, by cases thisfield; rfl⟩
  · exact ⟨thisfield.bitoff, by cases thisfield; rfl⟩

/-- The loop of `efi_mem_typecast_by_dict`: the address behind the last field and
the fields. -/
def byDictLoop (readonly page : Bool) : Option Mem → Nat → List (Str × SpecObj) →
    Res (Nat × List (Str × Mem))
  | _, addr, [] => .ok (addr, [])
  | lastfield, addr, (key, value) :: rest => do
      let typespec ← strGetStr value
      let field ← newBySpec a deref addr typespec readonly page
      let thisfield := follow lastfield field
      -- zero for a bit field that does not complete a unit
      let size ← efiMemGetSize a thisfield
      let (addr', fields) ← byDictLoop readonly page (some thisfield) ((addr + size) % a.word) rest
      .ok (addr', (key, thisfield) :: fields)

/-- What one turn of the loop has done. -/
theorem byDictLoop_ok {readonly page : Bool} {last : Option Mem} {addr x : Nat} {key : Str}
    {value : SpecObj} {rest : List (Str × SpecObj)} {fs : List (Str × Mem)}
    (h : byDictLoop a deref readonly page last addr ((key, value) :: rest) = .ok (x, fs)) :
    ∃ t f size fs', value = .str t ∧ newBySpec a deref addr t readonly page = .ok f ∧
      efiMemGetSize a (follow last f) = .ok size ∧
      byDictLoop a deref readonly page (some (follow last f)) ((addr + size) % a.word) rest =
        .ok (x, fs') ∧ fs = (key, follow last f) :: fs' := by
  rw [byDictLoop] at h
  rcases bind_ok.mp h with ⟨t, ht, h⟩
  rcases bind_ok.mp h with ⟨f, hf, h⟩
  rcases bind_ok.mp h with ⟨size, hsize, h⟩
  rcases bind_ok.mp h with ⟨⟨x', fs'⟩, hrest, h⟩
  cases h
  cases value with
  | str s =>
      cases ht
      exact ⟨t, f, size, fs', rfl, hf, hsize, hrest, rfl⟩
  | other name => cases ht

/-- `efi_mem_typecast_by_dict`, with `#name` left to `deref`. -/
def castByDict (self : Mem) (entries : List (Str × SpecObj)) : Res Mem := do
  let (addr, fields) ← byDictLoop a deref self.readonly self.page none self.addr entries
  .ok { self with typesize := a.sub addr self.addr, fields := .dict fields }

end Deref

/-! ## Casting -/

/-- An object that has no size gets `len` times that of its type. -/
def Mem.fillSize (a : Arch) (self : Mem) (len : Nat) : Res Mem :=
  if self.size = 0 then do
    let size ← efiMemGetSize a self
    .ok { self with size := len * size % a.word }
  else .ok self

/-- `efi_mem_typecast`. -/
def efiMemTypecast (a : Arch) (ns : Namespace) : Nat → Mem → TypeDesc → Res Mem
  | 0, _, _ => .error .fuel
  | n + 1, self, typedesc =>
      let deref := fun self name => do
        let desc ← resolveTypeByName ns n .none name
        efiMemTypecast a ns n self desc
      match typedesc with
      | .none => .ok { self with typespec := none, typesize := 1 }
      | .dict entries => castByDict a deref self entries
      | .str typespec => do
          let self ← castByStr a deref self (afterCount typespec)
          self.fillSize a (repeatCount a typespec)
      | .other => .error (.raise .valueError "Invalid type object")

/-- Cast an object to what `#name` stands for. -/
def castByName (a : Arch) (ns : Namespace) (n : Nat) (self : Mem) (name : Str) : Res Mem := do
  let desc ← resolveTypeByName ns n .none name
  efiMemTypecast a ns n self desc

/-- `efi_mem_typecast_by_str`. -/
def efiMemTypecastByStr (a : Arch) (ns : Namespace) (n : Nat) (self : Mem) (typespec : Str) :
    Res Mem :=
  castByStr a (castByName a ns n) self typespec

/-- `efi_mem_typecast_by_dict`. -/
def efiMemTypecastByDict (a : Arch) (ns : Namespace) (n : Nat) (self : Mem)
    (entries : List (Str × SpecObj)) : Res Mem :=
  castByDict a (castByName a ns n) self entries

/-- `efi_mem_new_n`. -/
def efiMemNewN (a : Arch) (ns : Namespace) (n : Nat) (buf len : Nat) (typespec : Option Str)
    (readonly pmem : Bool) : Res Mem :=
  newN a (castByName a ns n) buf len typespec readonly pmem

/-- `efi_mem_new`. -/
def efiMemNew (a : Arch) (ns : Namespace) (n : Nat) (buf : Nat) (typespec : Option Str)
    (readonly pmem : Bool) : Res Mem :=
  match typespec with
  | some t => newBySpec a (castByName a ns n) buf t readonly pmem
  | none => efiMemNewN a ns n buf 0 none readonly pmem

section Kinds

variable {a : Arch} {ns : Namespace} {n : Nat} (self : Mem)

theorem efiMemTypecast_none :
    efiMemTypecast a ns (n + 1) self .none = .ok { self with typespec := none, typesize := 1 } := rfl

theorem efiMemTypecast_dict (entries : List (Str × SpecObj)) :
    efiMemTypecast a ns (n + 1) self (.dict entries) = efiMemTypecastByDict a ns n self entries :=
  rfl

theorem efiMemTypecast_str (typespec : Str) :
    efiMemTypecast a ns (n + 1) self (.str typespec) = (do
      let self ← efiMemTypecastByStr a ns n self (afterCount typespec)
      self.fillSize a (repeatCount a typespec)) := rfl

end Kinds

/-! ## One letter -/

/-- A new object of one letter. -/
theorem efiMemNew_plain {a : Arch} {ns : Namespace} {n buf : Nat} {readonly pmem : Bool} {c : Char}
    (hc : plainLetter c = true) (hd : c.isDigit = false) :
    efiMemNew a ns n buf (some [c]) readonly pmem =
      .ok (Mem.sized a { blank buf readonly with typespec := some [c], typesize := typeSize a c }
        1 pmem) := by
  refine (newBySpec_ok _ _).mpr ⟨{ blank buf readonly with
    typespec := some [c], typesize := typeSize a c }, ?_, ?_⟩
  · rw [afterCount, List.dropWhile_cons_of_neg (by simp [hd]), castByStr,
      byStrLoop_plain _ _ hc, byStrLoop_nil]
    rfl
  · simp [repeatCount, hd]

/-- Casting an object that has a size to one letter. -/
theorem efiMemTypecast_plain {a : Arch} {ns : Namespace} {n : Nat} {m : Mem} {c : Char}
    (hc : plainLetter c = true) (hd : c.isDigit = false) (hm : m.size ≠ 0) :
    efiMemTypecast a ns (n + 1) m (.str [c]) =
      .ok { m with typespec := some [c], typesize := typeSize a c } := by
  rw [efiMemTypecast_str, efiMemTypecastByStr, afterCount,
    List.dropWhile_cons_of_neg (by simp [hd]), castByStr, byStrLoop_plain _ _ hc, byStrLoop_nil,
    bind_ok_left, Mem.fillSize]
  exact if_neg hm

end EfiLvgl.Uefi
