import EfiLvgl.Lib.Pool
import EfiLvgl.Lib.Wp
import EfiLvgl.Uefi.Load

/-!
# EfiLvgl.Variables.World — scripts that hold memory

`uefi.py` works on memory that it takes from the pool of the firmware, through `mem` and `guid`
objects. An `Op` is a piece of a script: it runs in a `World`, of memory and variables, and
returns or raises. What it has done before it raises stays done.
-/

namespace EfiLvgl.Variables

open EfiLvgl.Uefi

/-- A variable of the firmware, under its name and its vendor's GUID. -/
structure Variable where
  name : List UInt16
  guid : List UInt8
  data : List UInt8
deriving DecidableEq, Repr

/-- The memory that scripts and the firmware share, and the variables of the firmware. -/
structure World (a : Arch) where
  heap : Heap a.word
  vars : List Variable

/-- How a script is cut short. `noMemory` is the `NULL` of a pool that is exhausted: what
follows an allocation asserts against it, or writes through it. -/
inductive Exc where
  | stop (s : Stop)
  | efistatus (msg : Str)
  | osError (errno : Nat)
  | noMemory
deriving DecidableEq, Repr

/-- A piece of a script. -/
abbrev Op (a : Arch) (α : Type) := EStateM Exc (World a) α

/-- What scripts rest on: the allocator of the pool, the libraries, and the place of the
`NULL` that `null` points to. -/
structure Env (a : Arch) where
  pool : Allocator a.word
  base : BaseLib
  lib : LoadLib
  nullPtr : Nat

/-! ## Memory -/

section Memory

variable {a : Arch}

/-- A result of a function that needs no memory. -/
def lift {α : Type} (r : Res α) : Op a α :=
  match r with
  | .ok x => pure x
  | .error s => throw (.stop s)

/-- What a function makes of memory, which it does not change. -/
def look {α : Type} (f : (Nat → UInt8) → Res α) : Op a α := fun w => lift (f w.heap.ram.byte) w

/-- Bytes are written to an address. -/
def poke (p : Nat) (bytes : List UInt8) : Op a Unit := fun w =>
  .ok () { w with heap := w.heap.write p bytes }

/-- Memory after the writes of a store. -/
def writeAll (heap : Heap a.word) (writes : List Write) : Heap a.word :=
  writes.foldl (fun heap w => heap.write w.addr w.bytes) heap

/-- A store; what it has written stays when it is cut short. -/
def runStore (f : (Nat → UInt8) → Store) : Op a Unit := fun w =>
  let s := f w.heap.ram.byte
  let w' := { w with heap := writeAll w.heap s.writes }
  match s.stop with
  | none => .ok () w'
  | some e => .error (.stop e) w'

/-- `AllocateZeroPool`. -/
def allocateZeroPool (env : Env a) (len : Nat) : Op a Nat := fun w =>
  match w.heap.alloc env.pool len with
  | none => .error .noMemory w
  | some (p, heap) => .ok p { w with heap := heap }

/-- `FreePool`. -/
def freePool (addr : Nat) : Op a Unit := fun w => .ok () { w with heap := w.heap.free addr }

end Memory

/-! ## Objects -/

section Objects

variable {a : Arch} (env : Env a)

/-- `mem(typespec)`. -/
def memNew (typespec : Str) : Op a Mem := do
  let p ← lift (makeNewObj a noNames 0 0 false false (.spec typespec))
  if 0 < p.2 then do
    let addr ← allocateZeroPool env p.2
    lift (efiMemUpdateAddr a addr p.1)
  else pure p.1

/-- `guid(guidstr)`. -/
def guidNew (guidstr : List UInt8) : Op a Mem :=
  if guidstr.length ≠ 36 then
    throw (.stop (.raise .valueError "Invalid format of GUID: %s. It must be like %s."))
  else do
    let addr ← allocateZeroPool env 16
    match env.base.asciiStrToGuid guidstr with
    | none => throw (.stop (.raise .valueError "Invalid format of GUID: %s. It must be like %s."))
    | some g => do
        poke addr g.val
        pure (efiGuidNew addr)

/-- `m[index] = value`, and `m.VALUE = value` with no index. -/
def memStore (m : Mem) (index : PyIndex) (value : PyVal) : Op a Unit :=
  runStore fun memory => setValue a env.base memory m index value

/-- `m[index]`, and `m.VALUE` with no index. -/
def memLoad (m : Mem) (index : PyIndex) : Op a PyObj :=
  look fun memory => getValue a noNames 0 env.lib memory m index

/-- `m.FREE()`; the object is not used any more. -/
def memFree (m : Mem) : Op a Unit := if m.addr ≠ 0 then freePool m.addr else pure ()

/-- `bytearray(m)`: a copy of the buffer, and without one, of what iterating gives. -/
def bytearrayOf (m : Mem) : Op a (List UInt8) := fun w =>
  if m.addr = 0 ∨ m.size = 0 then .ok (List.replicate (memLen m) 0) w
  else .ok (w.heap.ram.read m.addr m.size) w

end Objects

end EfiLvgl.Variables
