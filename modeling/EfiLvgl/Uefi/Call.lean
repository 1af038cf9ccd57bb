import EfiLvgl.Lib.Buffer
import EfiLvgl.Uefi.Load
import Mathlib.Data.Nat.Digits.Defs

/-!
# EfiLvgl.Uefi.Call — the arguments of a native call

`efi_fptr_call` puts the arguments of a script into the array `arglist`, each by its type, and
calls the function with as many elements as it has filled. `efiFptrCall` is all of it up to that
call. `Carried` says, without the switch, what the callee is to find in its elements, and
`Marshalled` what a call has to be like.
-/

namespace EfiLvgl.Uefi

/-! ## Arguments -/

/-- An argument of a call. `mem` is an object of type `mem` or `guid`; a text, `str` or `bytes`, is
given by the address of its data and by that of the copy that `Utf8ToUnicode` makes of it; any
other object by its buffer, if it has one. -/
inductive FptrArg where
  | mem (m : Mem)
  | int (i : Int)
  | bool (b : Bool)
  | str (isBytes : Bool) (data unicode : Nat)
  | other (typeName : String) (buffer : Option Nat)

/-- Why a call ends early: `RAISE_UEFI_EXCEPTION_ON_ERROR`, or as elsewhere. -/
inductive CallStop where
  | efistatus (msg : String)
  | stop (e : Stop)
deriving DecidableEq, Repr

/-- An exception has been raised. -/
def CallStop.Raised : CallStop → Prop
  | .efistatus _ => True
  | .stop (.raise _ _) => True
  | .stop _ => False

/-- `RAISE_UEFI_EXCEPTION_ON_ERROR (EFI_INVALID_PARAMETER)`. -/
def invalidParameter : CallStop := .efistatus "INVALID_PARAMETER (2)"

/-- `mp_raise_TypeError`. -/
def typeError (msg : String) : CallStop := .stop (.raise .typeError msg)

/-- `get_uint64` of an argument that is no `mem` object. -/
def FptrArg.getUint64 : FptrArg → Except CallStop Nat
  | .mem m => .error (typeError ("can't convert " ++ m.type.name ++ " to int"))
  | .int i => .ok (i % 2 ^ 64).toNat
  | .bool b => .ok b.toNat
  | .str isBytes _ _ =>
      .error (typeError ("can't convert " ++ (if isBytes then "bytes" else "str") ++ " to int"))
  | .other typeName _ => .error (typeError ("can't convert " ++ typeName ++ " to int"))

/-- `get_uint64` of what `get_value` returns. -/
def PyObj.getUint64 : PyObj → Except CallStop Nat
  | .false => .ok 0
  | .none => .error (typeError "can't convert NoneType to int")
  | .int i => .ok (i % 2 ^ 64).toNat
  | .str _ => .error (typeError "can't convert str to int")
  | .mem m => .error (typeError ("can't convert " ++ m.type.name ++ " to int"))

/-- `mp_arg_check_num` for a fixed number of arguments. -/
def mpArgCheckNum (nArgs nKw expected : Nat) : Except CallStop Unit :=
  if nKw ≠ 0 then .error (typeError "function does not take keyword arguments")
  else if nArgs ≠ expected then
    .error (typeError ("function takes " ++ toString expected ++ " positional arguments but " ++
      toString nArgs ++ " were given"))
  else .ok ()

/-! ## Marshalling -/

section Call

variable (a : Arch) (ns : Namespace) (n : Nat) (lib : LoadLib) (memory : Nat → UInt8)

/-- The type that the prototype has for the argument with index `i`. -/
def prototypeType (items : List (Option Str)) (i : Nat) : Except CallStop Str :=
  match items[i + 1]? with
  | some (some t) => .ok t
  | some none => .error (typeError "can't convert 'NoneType' object to str implicitly")
  | none => .error (.stop .fault)

/-- The type of a variable argument. -/
def ownType : FptrArg → Except CallStop (Str × Bool)
  | .mem m =>
      match m.typespec with
      | some t => .ok (t, true)
      | none => .error (.stop .fault)
  | _ => .error (typeError "Variable arguments must be passed in 'mem' object.")

/-- The type of the argument with index `i`, and whether it is one of the variable arguments, whose
types are those of the objects. -/
def argType (items : List (Option Str)) (i : Nat) (isVa : Bool) (arg : FptrArg) :
    Except CallStop (Str × Bool) := do
  let argtype ← if isVa then .ok [] else prototypeType items i
  if isVa ∨ argtype.head? = some 'V' ∨ argtype.head? = some 'v' then ownType arg
  else .ok (argtype, false)

/-- The value of an argument, by `get_value` if it is a `mem` object. -/
def argValue : FptrArg → Except CallStop Nat
  | .mem m =>
      match getValue a ns n lib memory m .none with
      | .ok value => value.getUint64
      | .error e => .error (.stop e)
  | arg => arg.getUint64

/-- An argument that is passed by its address. -/
def argAddress : FptrArg → Except CallStop Nat
  | .mem m =>
      -- a pointer is followed
      match m.typespec.bind List.head? with
      | some 'P' | some 'T' | some 'F' => .ok (readUnit memory m.addr a.ptrSize)
      | _ => .ok m.addr
  | .int i => .ok (i % a.word).toNat
  | .str _ data _ => .ok data
  | .other _ (some buf) => .ok buf
  | _ => .error invalidParameter

/-- A text, as it is or converted. -/
def argText (wide : Bool) : FptrArg → Except CallStop Nat
  | .str _ data unicode => .ok (if wide then unicode else data)
  | .mem m => .ok m.addr
  | _ => .error invalidParameter

/-- A 64-bit integer takes two elements of 32 bits. -/
def longSlots (longval : Nat) : List Nat :=
  if a = .ia32 then [longval % 2 ^ 32, longval / 2 ^ 32] else [longval]

/-- The elements of `arglist` that an argument takes, by the switch on its type. -/
def argSlots (argtype : Str) (arg : FptrArg) : Except CallStop (List Nat) :=
  match argtype.head? with
  | some 'P' | some 'T' | some 'F' | some 'G' | some 'O' =>
      List.singleton <$> argAddress a memory arg
  | some 'a' => List.singleton <$> argText false arg
  | some 'u' => List.singleton <$> argText true arg
  | some 'Q' | some 'q' => longSlots a <$> argValue a ns n lib memory arg
  | _ => (fun longval => [longval % a.word]) <$> argValue a ns n lib memory arg

/-- The loop: `i` counts arguments and `j` elements of `arglist`. -/
def fptrLoop (items : List (Option Str)) : Nat → Bool → Nat → Buffer Nat → List FptrArg →
    Buffer Nat × Except CallStop Nat
  | _, _, j, arglist, [] => (arglist, .ok j)
  | i, isVa, j, arglist, arg :: args =>
      if 12 ≤ j then (arglist, .ok j)
      else
        match argType items i isVa arg with
        | .error e => (arglist, .error e)
        | .ok (argtype, isVa) =>
            match argSlots a ns n lib memory argtype arg with
            | .error e => (arglist, .error e)
            | .ok slots =>
                fptrLoop items (i + 1) isVa (j + slots.length) (arglist.putAll j slots) args

/-- `arglist` as the call leaves it, and the elements that the function is called with, if it is
called at all. -/
structure FptrCall where
  arglist : Buffer Nat
  called : Except CallStop (Option (List (Option Nat)))

/-- The switch on `j`. -/
def dispatch (arglist : Buffer Nat) (j : Nat) : Option (List (Option Nat)) :=
  if j ≤ 12 then some (arglist.places.take j) else none

/-- `efi_fptr_call`, for `args` and as many keyword arguments as `nKw`, up to the call of the
function. -/
def efiFptrCall (self : Mem) (args : List FptrArg) (nKw : Nat) : FptrCall :=
  match self.fields with
  | .args items =>
      match
        if self.hasvarg then .ok ()
        else mpArgCheckNum args.length nKw (a.sub items.length 1) with
      | .error e => ⟨.new 12, .error e⟩
      | .ok () =>
          let r := fptrLoop a ns n lib memory items 0 false 0 (.new 12) args
          ⟨r.1, r.2.map (dispatch r.1)⟩
  -- without a prototype there is nothing to read the types from
  | _ => ⟨.new 12, .error (.stop .fault)⟩

/-- What each argument is converted to, wherever it is put. -/
def conversions (items : List (Option Str)) :
    Nat → Bool → List FptrArg → List (Except CallStop (List Nat))
  | _, _, [] => []
  | i, isVa, arg :: args =>
      match argType items i isVa arg with
      | .error e => [.error e]
      | .ok (argtype, isVa) =>
          argSlots a ns n lib memory argtype arg :: conversions items (i + 1) isVa args

/-! ## What the callee is to get -/

/-- How the arguments of a type are passed. -/
inductive Passing where
  | address
  | text (wide : Bool)
  | long
  | word
deriving DecidableEq, Repr

def passing (t : Str) : Passing :=
  match t.head? with
  | some 'P' | some 'T' | some 'F' | some 'G' | some 'O' => .address
  | some 'a' => .text false
  | some 'u' => .text true
  | some 'Q' | some 'q' => .long
  | _ => .word

/-- The object holds an address itself. -/
def IsPointer (m : Mem) : Prop := ∃ c, m.typespec.bind List.head? = some c ∧ c ∈ ['P', 'T', 'F']

/-- The integer that an argument stands for: an object has a value, which is 0 at `NULL`. -/
inductive IsInt : FptrArg → Int → Prop where
  | int (i : Int) : IsInt (.int i) i
  | bool (b : Bool) : IsInt (.bool b) b.toNat
  | value {m : Mem} {i : Int} : getValue a ns n lib memory m .none = .ok (.int i) → IsInt (.mem m) i
  | null {m : Mem} : getValue a ns n lib memory m .none = .ok .false → IsInt (.mem m) 0

/-- The address that an argument stands for. -/
inductive IsAddress : FptrArg → Nat → Prop where
  | object {m : Mem} : ¬ IsPointer m → IsAddress (.mem m) m.addr
  | pointer {m : Mem} : IsPointer m → IsAddress (.mem m) (readUnit memory m.addr a.ptrSize)
  | int (i : Int) : IsAddress (.int i) (i % a.word).toNat
  | text (isBytes : Bool) (data unicode : Nat) : IsAddress (.str isBytes data unicode) data
  | buffer (typeName : String) (buf : Nat) : IsAddress (.other typeName (some buf)) buf

/-- The address of the text that an argument is. -/
inductive IsText : Bool → FptrArg → Nat → Prop where
  | ascii (isBytes : Bool) (data unicode : Nat) : IsText false (.str isBytes data unicode) data
  | wide (isBytes : Bool) (data unicode : Nat) : IsText true (.str isBytes data unicode) unicode
  | object (wide : Bool) (m : Mem) : IsText wide (.mem m) m.addr

/-- The elements hold the argument: one of a word, but a 64-bit integer takes as many as it has
words, the lowest first. -/
def Carries (t : Str) (arg : FptrArg) (slots : List Nat) : Prop :=
  match passing t with
  | .address => ∃ x, IsAddress a memory arg x ∧ slots = [x]
  | .text wide => ∃ x, IsText wide arg x ∧ slots = [x]
  | .word => ∃ (i : Int) (x : Nat), IsInt a ns n lib memory arg i ∧ x < a.word ∧
      (x : Int) = i % a.word ∧ slots = [x]
  | .long => ∃ i : Int, IsInt a ns n lib memory arg i ∧ slots.length * a.ptrSize = 8 ∧
      (∀ x ∈ slots, x < a.word) ∧ ((Nat.ofDigits a.word slots : Nat) : Int) = i % 2 ^ 64

/-- Type `k` of the arguments starts with `V`. -/
def VaAt (items : List (Option Str)) (k : Nat) : Prop :=
  ∃ t, items[k + 1]? = some (some t) ∧ (t.head? = some 'V' ∨ t.head? = some 'v')

/-- From the first such type on, the arguments are variable ones. -/
def Variadic (items : List (Option Str)) (i : Nat) : Prop := ∃ k ≤ i, VaAt items k

/-- The type by which an argument is passed: that of the prototype, or its own. -/
inductive PassedAs (items : List (Option Str)) (i : Nat) : FptrArg → Str → Prop where
  | fixed {arg : FptrArg} {t : Str} : ¬ Variadic items i → items[i + 1]? = some (some t) →
      PassedAs items i arg t
  | own {m : Mem} {t : Str} : Variadic items i → m.typespec = some t →
      PassedAs items i (.mem m) t

/-- Each of the arguments, the first of them with index `i`, is in its elements. -/
inductive Carried (items : List (Option Str)) : Nat → List FptrArg → List (List Nat) → Prop where
  | nil (i : Nat) : Carried items i [] []
  | cons {i : Nat} {arg : FptrArg} {args : List FptrArg} {t : Str} {xs : List Nat}
      {slots : List (List Nat)} : PassedAs items i arg t → Carries a ns n lib memory t arg xs →
      Carried items (i + 1) args slots → Carried items i (arg :: args) (xs :: slots)

/-- An argument is refused: a variable one is no object, the prototype has no type for it, or it is
nothing that could be passed by its type. To read an object may fault, which refuses nothing. -/
inductive Refused (items : List (Option Str)) (i : Nat) : FptrArg → Prop where
  | noObject {arg : FptrArg} : Variadic items i → (∀ m, arg ≠ .mem m) → Refused items i arg
  | noType {arg : FptrArg} : ¬ Variadic items i → items[i + 1]? = some none → Refused items i arg
  | noValue {arg : FptrArg} {t : Str} : PassedAs items i arg t →
      (∀ slots, ¬ Carries a ns n lib memory t arg slots) →
      (∀ m, arg = .mem m → getValue a ns n lib memory m .none ≠ .error .fault ∧
        getValue a ns n lib memory m .none ≠ .error .fuel) → Refused items i arg

/-- Nothing is written behind the array, and the function is called with all arguments, in order
and each in its elements, unless an exception has been raised before. -/
structure Marshalled (fptr : Mem) (items : List (Option Str)) (args : List FptrArg) (nKw : Nat) :
    Prop where
  inside : (efiFptrCall a ns n lib memory fptr args nKw).arglist.overrun = false
  reached : (∃ e, e.Raised ∧ (efiFptrCall a ns n lib memory fptr args nKw).called = .error e) ∨
    nKw = 0 ∧ ∃ slots, Carried a ns n lib memory items 0 args slots ∧
      (efiFptrCall a ns n lib memory fptr args nKw).called = .ok (some (slots.flatten.map some))

/-- The number of arguments is not that of the prototype. -/
def ArityRefused (self : Mem) (items : List (Option Str)) (args : List FptrArg) (nKw : Nat) :
    Prop :=
  self.hasvarg = false ∧ (nKw ≠ 0 ∨ args.length ≠ a.sub items.length 1)

/-- All arguments can be passed, and together they take no more than twelve elements. -/
def AllFit (items : List (Option Str)) (args : List FptrArg) : Prop :=
  ∃ slots, Carried a ns n lib memory items 0 args slots ∧ slots.flatten.length ≤ 12

/-- An argument is refused, and those before it leave an element free. -/
def RefusedInTime (items : List (Option Str)) (args : List FptrArg) : Prop :=
  ∃ before arg after slots, args = before ++ arg :: after ∧
    Carried a ns n lib memory items 0 before slots ∧ slots.flatten.length < 12 ∧
    Refused a ns n lib memory items before.length arg

end Call

end EfiLvgl.Uefi
