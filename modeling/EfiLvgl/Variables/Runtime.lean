import EfiLvgl.Efi.Status
import EfiLvgl.Variables.Text

/-!
# EfiLvgl.Variables.Runtime — calling the variable services

The variable services of the firmware work on addresses: they read names and GUIDs from memory,
and answer in memory. A script calls them through function pointers whose types say what
becomes of an argument (`efi_fptr_call`), and a status other than success comes back as an
exception.
-/

namespace EfiLvgl.Variables

open EfiLvgl.Uefi

/-! ## Variables -/

/-- What a variable is found by. -/
structure VarKey where
  name : List UInt16
  guid : List UInt8
deriving DecidableEq, Repr

/-- The key of a variable. -/
def Variable.key (v : Variable) : VarKey := ⟨v.name, v.guid⟩

/-- The variable under a key. -/
def lookup (vars : List Variable) (k : VarKey) : Option Variable := vars.find? fun v => v.key = k

theorem lookup_cons_of_eq {v : Variable} {k : VarKey} (h : v.key = k) (vars : List Variable) :
    lookup (v :: vars) k = some v :=
  List.find?_cons_of_pos (p := fun v : Variable => v.key = k) (decide_eq_true h)

theorem lookup_cons_of_ne {v : Variable} {k : VarKey} (h : v.key ≠ k) (vars : List Variable) :
    lookup (v :: vars) k = lookup vars k :=
  List.find?_cons_of_neg (p := fun v : Variable => v.key = k) (by simpa using h)

/-- The variables without that under a key. -/
def erase (vars : List Variable) (k : VarKey) : List Variable := vars.filter fun v => v.key ≠ k

theorem lookup_erase_self (vars : List Variable) (k : VarKey) : lookup (erase vars k) k = none := by
  refine List.find?_eq_none.mpr ?_
  intro v hv
  have hne := (List.mem_filter.mp hv).2
  simpa using hne

theorem lookup_erase_of_ne {k k' : VarKey} (h : k ≠ k') (vars : List Variable) :
    lookup (erase vars k) k' = lookup vars k' := by
  induction vars with
  | nil => rfl
  | cons v vars ih =>
      by_cases hv : v.key = k
      · have herase : erase (v :: vars) k = erase vars k :=
          List.filter_cons_of_neg (by simpa using hv)
        rw [herase, ih, lookup_cons_of_ne (hv ▸ h)]
      · have herase : erase (v :: vars) k = v :: erase vars k :=
          List.filter_cons_of_pos (by simpa using hv)
        rw [herase]
        by_cases hv' : v.key = k'
        · rw [lookup_cons_of_eq hv', lookup_cons_of_eq hv']
        · rw [lookup_cons_of_ne hv', lookup_cons_of_ne hv', ih]

/-- The variables with that under a key set. -/
def insert (vars : List Variable) (k : VarKey) (data : List UInt8) : List Variable :=
  erase vars k ++ [⟨k.name, k.guid, data⟩]

/-- The variables behind that under a key. -/
def following (k : VarKey) : List Variable → List Variable
  | [] => []
  | v :: rest => if v.key = k then rest else following k rest

/-! ## Services -/

section Services

variable {a : Arch}

/-- The key that two addresses stand for. -/
def keyAt (a : Arch) (memory : Nat → UInt8) (name guid : Nat) : VarKey :=
  ⟨strAt memory name a.word, (List.range 16).map fun k => memory (guid + k)⟩

/-- `GetVariable`. The attributes are not asked for. -/
def getVariable (name guid size data : Nat) : Op a EfiStatus := do
  let w ← get
  let memory := w.heap.ram.byte
  if name = 0 ∨ guid = 0 ∨ size = 0 then pure .invalidParameter
  else
    match lookup w.vars (keyAt a memory name guid) with
    | none => pure .notFound
    | some v =>
        if readUnit memory size a.ptrSize < v.data.length then do
          poke size (leBytes a.ptrSize v.data.length)
          pure .bufferTooSmall
        else if data = 0 then pure .invalidParameter
        else do
          poke data v.data
          poke size (leBytes a.ptrSize v.data.length)
          pure .success

/-- `SetVariable`. Without data or attributes the variable is deleted. -/
def setVariable (name guid attributes size data : Nat) : Op a EfiStatus := do
  let w ← get
  let memory := w.heap.ram.byte
  let k := keyAt a memory name guid
  if name = 0 ∨ guid = 0 ∨ k.name = [] then pure .invalidParameter
  else if size = 0 ∨ attributes = 0 then
    match lookup w.vars k with
    | none => pure .notFound
    | some _ => do
        set { w with vars := erase w.vars k }
        pure .success
  else if data = 0 then pure .invalidParameter
  else do
    set { w with vars := insert w.vars k (w.heap.ram.read data size) }
    pure .success

/-- `GetNextVariableName`: the variable behind the one that is named, and the first one when
none is. -/
def getNextVariableName (size name guid : Nat) : Op a EfiStatus := do
  let w ← get
  let memory := w.heap.ram.byte
  if size = 0 ∨ name = 0 ∨ guid = 0 then pure .invalidParameter
  else
    let k := keyAt a memory name guid
    if k.name ≠ [] ∧ lookup w.vars k = none then pure .invalidParameter
    else
      match if k.name = [] then w.vars else following k w.vars with
      | [] => pure .notFound
      | v :: _ =>
          let needed := (v.name.length + 1) * 2
          if readUnit memory size a.ptrSize < needed then do
            poke size (leBytes a.ptrSize needed)
            pure .bufferTooSmall
          else do
            poke name (unicodeBytes v.name)
            poke guid v.guid
            poke size (leBytes a.ptrSize needed)
            pure .success

end Services

/-! ## Statuses -/

/-- `efi_status_msg`. The last entry is `NULL`, which is printed in this way. -/
def efiStatusMsg : List Str :=
  [['S', 'U', 'C', 'C', 'E', 'S', 'S'],
    ['L', 'O', 'A', 'D', '_', 'E', 'R', 'R', 'O', 'R'],
    ['I', 'N', 'V', 'A', 'L', 'I', 'D', '_', 'P', 'A', 'R', 'A', 'M', 'E', 'T', 'E', 'R'],
    ['U', 'N', 'S', 'U', 'P', 'P', 'O', 'R', 'T', 'E', 'D'],
    ['B', 'A', 'D', '_', 'B', 'U', 'F', 'F', 'E', 'R', '_', 'S', 'I', 'Z', 'E'],
    ['B', 'U', 'F', 'F', 'E', 'R', '_', 'T', 'O', 'O', '_', 'S', 'M', 'A', 'L', 'L'],
    ['N', 'O', 'T', '_', 'R', 'E', 'A', 'D', 'Y'],
    ['D', 'E', 'V', 'I', 'C', 'E', '_', 'E', 'R', 'R', 'O', 'R'],
    ['W', 'R', 'I', 'T', 'E', '_', 'P', 'R', 'O', 'T', 'E', 'C', 'T', 'E', 'D'],
    ['O', 'U', 'T', '_', 'O', 'F', '_', 'R', 'E', 'S', 'O', 'U', 'R', 'C', 'E', 'S'],
    ['V', 'O', 'L', 'U', 'M', 'E', '_', 'C', 'O', 'R', 'R', 'U', 'P', 'T', 'E', 'D'],
    ['V', 'O', 'L', 'U', 'M', 'E', '_', 'F', 'U', 'L', 'L'],
    ['N', 'O', '_', 'M', 'E', 'D', 'I', 'A'],
    ['M', 'E', 'D', 'I', 'A', '_', 'C', 'H', 'A', 'N', 'G', 'E', 'D'],
    ['N', 'O', 'T', '_', 'F', 'O', 'U', 'N', 'D'],
    ['A', 'C', 'C', 'E', 'S', 'S', '_', 'D', 'E', 'N', 'I', 'E', 'D'],
    ['N', 'O', '_', 'R', 'E', 'S', 'P', 'O', 'N', 'S', 'E'],
    ['N', 'O', '_', 'M', 'A', 'P', 'P', 'I', 'N', 'G'],
    ['T', 'I', 'M', 'E', 'O', 'U', 'T'],
    ['N', 'O', 'T', '_', 'S', 'T', 'A', 'R', 'T', 'E', 'D'],
    ['A', 'L', 'R', 'E', 'A', 'D', 'Y', '_', 'S', 'T', 'A', 'R', 'T', 'E', 'D'],
    ['A', 'B', 'O', 'R', 'T', 'E', 'D'],
    ['I', 'C', 'M', 'P', '_', 'E', 'R', 'R', 'O', 'R'],
    ['T', 'F', 'T', 'P', '_', 'E', 'R', 'R', 'O', 'R'],
    ['P', 'R', 'O', 'T', 'O', 'C', 'O', 'L', '_', 'E', 'R', 'R', 'O', 'R'],
    ['I', 'N', 'C', 'O', 'M', 'P', 'A', 'T', 'I', 'B', 'L', 'E', '_', 'V', 'E', 'R', 'S', 'I',
      'O', 'N'],
    ['S', 'E', 'C', 'U', 'R', 'I', 'T', 'Y', '_', 'V', 'I', 'O', 'L', 'A', 'T', 'I', 'O', 'N'],
    ['C', 'R', 'C', '_', 'E', 'R', 'R', 'O', 'R'],
    ['E', 'N', 'D', '_', 'O', 'F', '_', 'M', 'E', 'D', 'I', 'A'],
    ['E', 'N', 'D', '_', 'O', 'F', '_', 'F', 'I', 'L', 'E'],
    ['I', 'N', 'V', 'A', 'L', 'I', 'D', '_', 'L', 'A', 'N', 'G', 'U', 'A', 'G', 'E'],
    ['C', 'O', 'M', 'P', 'R', 'O', 'M', 'I', 'S', 'E', 'D', '_', 'D', 'A', 'T', 'A'],
    [],
    ['H', 'T', 'T', 'P', '_', 'E', 'R', 'R', 'O', 'R'],
    ['(', 'n', 'u', 'l', 'l', ')']]

/-- `ENCODE_ERROR`, for the statuses that the services return. -/
def statusCode (a : Arch) : EfiStatus → Nat
  | .success => 0
  | .loadError => a.word / 2 + 1
  | .invalidParameter => a.word / 2 + 2
  | .unsupported => a.word / 2 + 3
  | .bufferTooSmall => a.word / 2 + 5
  | .notReady => a.word / 2 + 6
  | .outOfResources => a.word / 2 + 9
  | .volumeCorrupted => a.word / 2 + 10
  | .notFound => a.word / 2 + 14
  | .accessDenied => a.word / 2 + 15
  | .noMapping => a.word / 2 + 17
  | .alreadyStarted => a.word / 2 + 20

/-- `RAISE_UEFI_EXCEPTION_ON_ERROR`. -/
def raiseOnError (a : Arch) (status : Nat) : Op a Unit :=
  if a.word / 2 ≤ status then
    let n := status % 65536
    match efiStatusMsg[n]? with
    | some msg => throw (.efistatus (msg ++ [' ', '('] ++ formatNat n ++ [')']))
    | none => throw (.efistatus (['e', 'r', 'r', 'n', 'o', ' ', '('] ++ formatNat n ++ [')']))
  else if status ≠ 0 then throw (.osError status)
  else pure ()

/-! ## Calls -/

/-- An argument of a call. -/
inductive CallArg where
  | mem (m : Mem)
  | int (i : Int)

section Calls

variable {a : Arch} (env : Env a)

/-- What becomes of an argument, by its type. -/
def callArg (argtype : Str) (arg : CallArg) : Op a Nat :=
  match argtype.head? with
  | some 'P' | some 'T' | some 'F' | some 'G' | some 'O' =>
      match arg with
      | .mem m =>
          -- a pointer is followed
          match m.typespec.bind List.head? with
          | some 'P' | some 'T' | some 'F' =>
              look fun memory => .ok (readUnit memory m.addr a.ptrSize)
          | _ => pure m.addr
      | .int i => pure (i % a.word).toNat
  | some 'a' | some 'u' =>
      match arg with
      | .mem m => pure m.addr
      | .int _ => do
          raiseOnError a (statusCode a .invalidParameter)
          pure 0
  | _ =>
      match arg with
      | .mem m => do
          match ← memLoad env m .none with
          | .int i => pure (i % a.word).toNat
          | _ => throw (.stop (.raise .typeError "can't convert to int"))
      | .int i => pure (i % a.word).toNat

/-- The arguments of a call, each by its type. -/
def callArgs : List (Option Str) → List CallArg → Op a (List Nat)
  | some argtype :: types, arg :: args => do
      let x ← callArg env argtype arg
      let xs ← callArgs types args
      pure (x :: xs)
  | none :: _, _ :: _ =>
      throw (.stop (.raise .typeError "can't convert 'NoneType' object to str implicitly"))
  | _, _ => pure []

/-- `efi_fptr_call`, for a function of type `typespec` that returns a status. -/
def efiFptrCall (typespec : Str) (func : List Nat → Op a EfiStatus) (args : List CallArg) :
    Op a Unit := do
  let types := (prototype [] false [] typespec.tail).1
  if args.length ≠ types.length - 1 then
    throw (.stop (.raise .typeError "function takes %d positional arguments but %d were given"))
  else do
    let arglist ← callArgs env types.tail args
    let status ← func arglist
    if (types.head?.bind id).bind List.head? = some 'E' then raiseOnError a (statusCode a status)
    else pure ()

/-- `null`. -/
def nullObj : Mem :=
  { blank env.nullPtr false with typespec := some ['P'], typesize := a.ptrSize, size := a.ptrSize }

/-- `rt.GetVariable`, with `null` for the attributes. -/
def rtGetVariable (name guid size data : Mem) : Op a Unit :=
  efiFptrCall env
    ['F', 'E', '(', 'u', ',', 'P', 'G', ',', 'P', 'I', ',', 'P', 'N', ',', 'P', ')']
    (fun
      | [name, guid, _, size, data] => getVariable name guid size data
      | _ => pure .invalidParameter)
    [.mem name, .mem guid, .mem (nullObj env), .mem size, .mem data]

/-- `rt.SetVariable`. -/
def rtSetVariable (name guid : Mem) (attributes size : Nat) (data : Mem) : Op a Unit :=
  efiFptrCall env
    ['F', 'E', '(', 'u', ',', 'P', 'G', ',', 'L', ',', 'N', ',', 'P', ')']
    (fun
      | [name, guid, attributes, size, data] => setVariable name guid attributes size data
      | _ => pure .invalidParameter)
    [.mem name, .mem guid, .int attributes, .int size, .mem data]

/-- `rt.GetNextVariableName`. -/
def rtGetNextVariableName (size name guid : Mem) : Op a Unit :=
  efiFptrCall env
    ['F', 'E', '(', 'P', 'N', ',', 'u', ',', 'P', 'G', ')']
    (fun
      | [size, name, guid] => getNextVariableName size name guid
      | _ => pure .invalidParameter)
    [.mem size, .mem name, .mem guid]

end Calls

end EfiLvgl.Variables
