import EfiLvgl.Efi.Status
import EfiLvgl.Lib.Run
import EfiLvgl.Lib.Wp
import EfiLvgl.Uefi.Access

/-!
# EfiLvgl.Ets.Msr — model specific registers

`rdmsr` and `wrmsr` of `modets.c`. A call registers a handler for the fault that a reserved
register raises, and takes it away again; the handler takes itself away before it raises. But
the arguments are converted in between, and a conversion raises past the end of the call.

`handler_balanced_iff`: no handler is left behind along a run exactly if every call that gets as
far as the handler has arguments that can be converted.
-/

namespace EfiLvgl.Ets

open EfiLvgl.Run EfiLvgl.Uefi

/-! ## Objects and exceptions -/

/-- A Python object that is passed to a function of the module. -/
inductive PyValue where
  | bool (b : Bool)
  | int (i : Int)
  | tuple (items : List PyValue)
  | list (items : List PyValue)
  | other (typeName : String)

def PyValue.typeName : PyValue → String
  | .bool _ => "bool"
  | .int _ => "int"
  | .tuple _ => "tuple"
  | .list _ => "list"
  | .other typeName => typeName

/-- Why a call does not return. -/
inductive EtsExc where
  | efiStatus (status : EfiStatus)
  | conversion (why : Stop)
  | exception (msg : String)
  /-- "Reserved or unimplemented MSR". -/
  | reservedMsr (msr : UInt32)
  /-- A fault that nobody handles. -/
  | fault
  deriving DecidableEq

/-- `mp_obj_get_int`. -/
def mpObjGetInt (a : Arch) : PyValue → Except EtsExc Int
  | .bool b => .ok (if b then 1 else 0)
  | .int i => (getInt a i).mapError .conversion
  | value => .error (.conversion
      (.raise .typeError ("can't convert " ++ value.typeName ++ " to int")))

/-! ## The processor -/

/-- The attributes of `ets.reg`. -/
inductive Reg where
  | eflags
  | cr0
  | cr2
  | cr3
  | cr4
  | dr (n : Fin 8)
  | cs
  | ds
  | es
  | fs
  | gs
  | ss
  | tr
  | gdtr
  | idtr
  | ldtr
  | mm (n : Fin 8)
  | tsc
  | pmc
  | other (name : String)
  deriving DecidableEq

/-- Instructions that write a register. -/
inductive RegisterWrite where
  | msr (index : UInt32) (value : UInt64)
  | register (reg : Reg) (value : UInt64)
  | selector (reg : Reg) (value : UInt16)
  | descriptor (reg : Reg) (limit : UInt16) (base : UInt64)
  deriving DecidableEq

/-- `mCpu`, whether `MsrErrorHandler` is registered with it, and what has been written. -/
structure EtsState where
  mCpu : Bool
  gpHandler : Bool
  writes : List RegisterWrite
  deriving DecidableEq

/-- What the firmware and the processor answer during one call. -/
structure Platform where
  locateProtocol : EfiStatus
  readFaults : UInt32 → Bool
  writeFaults : UInt32 → UInt64 → Bool
  msr : UInt32 → UInt64

abbrev EtsM := EStateM EtsExc EtsState

def ofExcept {α : Type} : Except EtsExc α → EtsM α
  | .ok v => pure v
  | .error e => throw e

/-- `RegisterInterruptHandler`: a handler when there is none, or `NULL` when there is one. -/
def registerInterruptHandler (handler : Bool) : EtsM EfiStatus := do
  let s ← get
  if s.gpHandler = handler then
    return if handler then .alreadyStarted else .invalidParameter
  else
    set { s with gpHandler := handler }
    return .success

/-- `RAISE_UEFI_EXCEPTION_ON_ERROR`. -/
def raiseUefiExceptionOnError (status : EfiStatus) : EtsM Unit :=
  if status.isError then throw (.efiStatus status) else pure ()

/-- `MsrErrorHandler`. -/
def msrErrorHandler {α : Type} (msr : UInt32) : EtsM α := do
  let s ← get
  if s.mCpu then
    let _ ← registerInterruptHandler false
  throw (.reservedMsr msr)

/-- A fault comes to the handler. -/
def gpFault {α : Type} (msr : UInt32) : EtsM α := do
  let s ← get
  if s.gpHandler then msrErrorHandler msr else throw .fault

def asmReadMsr64 (p : Platform) (msr : UInt32) : EtsM UInt64 :=
  if p.readFaults msr then gpFault msr else pure (p.msr msr)

def asmWriteMsr64 (p : Platform) (msr : UInt32) (value : UInt64) : EtsM Unit := do
  if p.writeFaults msr value then gpFault msr
  else modify fun s => { s with writes := s.writes ++ [.msr msr value] }

/-! ## `rdmsr` and `wrmsr` -/

/-- The start of both: the protocol is located, and the handler registered. -/
def registerMsrHandler (p : Platform) : EtsM Unit := do
  let s ← get
  if ¬ s.mCpu then
    raiseUefiExceptionOnError p.locateProtocol
    set { s with mCpu := true }
  let s ← get
  if s.mCpu then
    let status ← registerInterruptHandler true
    raiseUefiExceptionOnError status

/-- The end of both. -/
def unregisterMsrHandler : EtsM Unit := do
  let s ← get
  if s.mCpu then
    let status ← registerInterruptHandler false
    raiseUefiExceptionOnError status

/-- What both have in common. -/
def withMsrHandler {α : Type} (p : Platform) (body : EtsM α) : EtsM α := do
  registerMsrHandler p
  let value ← body
  unregisterMsrHandler
  return value

/-- `mod_ets_rdmsr`. -/
def modEtsRdmsr (a : Arch) (p : Platform) (msr : PyValue) : EtsM PyValue :=
  withMsrHandler p do
    let msr ← ofExcept (mpObjGetInt a msr)
    let value ← asmReadMsr64 p (UInt32.ofInt msr)
    return .int value.toNat

/-- `mod_ets_wrmsr`; what it returns is `None`. -/
def modEtsWrmsr (a : Arch) (p : Platform) (msr value : PyValue) : EtsM Unit :=
  withMsrHandler p do
    let msr ← ofExcept (mpObjGetInt a msr)
    let value ← ofExcept (mpObjGetInt a value)
    asmWriteMsr64 p (UInt32.ofInt msr) (UInt64.ofInt value)

inductive MsrCall where
  | rdmsr (msr : PyValue)
  | wrmsr (msr value : PyValue)

def MsrCall.args : MsrCall → List PyValue
  | .rdmsr msr => [msr]
  | .wrmsr msr value => [msr, value]

/-- A call, without what it returns. -/
def MsrCall.body (a : Arch) (p : Platform) : MsrCall → EtsM Unit
  | .rdmsr msr => do let _ ← modEtsRdmsr a p msr
  | .wrmsr msr value => modEtsWrmsr a p msr value

/-! ## What a call leaves behind -/

/-- An argument that is an integer, and no larger than a word. -/
def Convertible (a : Arch) : PyValue → Prop
  | .bool _ => True
  | .int i => -(a.word : Int) < 2 * i ∧ 2 * i < a.word
  | _ => False

/-- The call gets as far as the handler. -/
def Located (p : Platform) (s : EtsState) : Prop := s.mCpu = true ∨ p.locateProtocol = .success

/-- Every argument of a call that gets as far as the handler can be converted. -/
def CallOk (a : Arch) (s : EtsState) (call : Platform × MsrCall) : Prop :=
  Located call.1 s → ∀ value ∈ call.2.args, Convertible a value

theorem mpObjGetInt_ok {a : Arch} {value : PyValue} {z : Int} (h : mpObjGetInt a value = .ok z) :
    Convertible a value := by
  cases value with
  | bool b => trivial
  | int i =>
      rw [mpObjGetInt, getInt] at h
      by_cases hfit : -(a.word : Int) < 2 * i ∧ 2 * i < a.word
      · exact hfit
      · rw [if_neg hfit] at h
        cases h
  | tuple items => cases h
  | list items => cases h
  | other typeName => cases h

theorem mpObjGetInt_int {a : Arch} {i : Int} (h : Convertible a (.int i)) :
    mpObjGetInt a (.int i) = .ok i := by
  have hfit : -(a.word : Int) < 2 * i ∧ 2 * i < a.word := h
  rw [mpObjGetInt, getInt, if_pos hfit]
  rfl

theorem Convertible.mpObjGetInt {a : Arch} {value : PyValue} (h : Convertible a value) :
    ∃ z, mpObjGetInt a value = .ok z := by
  cases value with
  | bool b => exact ⟨_, rfl⟩
  | int i => exact ⟨i, mpObjGetInt_int h⟩
  | tuple items => exact h.elim
  | list items => exact h.elim
  | other typeName => exact h.elim

section Call

variable {a : Arch} {p : Platform} {s : EtsState}

/-- The state in which the arguments are converted. -/
def guarded (s : EtsState) : EtsState := { s with mCpu := true, gpHandler := true }

theorem registerMsrHandler_located (hs : s.gpHandler = false) (h : Located p s) :
    registerMsrHandler p s = .ok () (guarded s) := by
  rcases s with ⟨mCpu, gpHandler, writes⟩
  cases hs
  cases mCpu with
  | true => rfl
  | false =>
      rcases h with h | h
      · cases h
      · rcases p with ⟨locateProtocol, readFaults, writeFaults, msr⟩
        cases h
        rfl

theorem registerMsrHandler_not_located (h : ¬ Located p s) :
    registerMsrHandler p s = .error (.efiStatus p.locateProtocol) s := by
  rcases s with ⟨mCpu, gpHandler, writes⟩
  rcases not_or.mp h with ⟨hcpu, hlocate⟩
  have hfalse : mCpu = false := by simpa using hcpu
  have herror : p.locateProtocol.isError = true := by simpa [EfiStatus.isError] using hlocate
  subst hfalse
  unfold registerMsrHandler raiseUefiExceptionOnError
  rw [herror]
  rfl

/-- The handler takes itself away. -/
theorem gpFault_guarded {α : Type} (msr : UInt32) (hcpu : s.mCpu = true)
    (hs : s.gpHandler = true) :
    (gpFault msr : EtsM α) s = .error (.reservedMsr msr) { s with gpHandler := false } := by
  rcases s with ⟨mCpu, gpHandler, writes⟩
  cases hs
  cases hcpu
  rfl

theorem unregisterMsrHandler_guarded (hcpu : s.mCpu = true) (hs : s.gpHandler = true) :
    unregisterMsrHandler s = .ok () { s with gpHandler := false } := by
  rcases s with ⟨mCpu, gpHandler, writes⟩
  cases hs
  cases hcpu
  rfl

/-- A body that returns has the handler taken away after it. -/
theorem wp_withMsrHandler {α : Type} {body : EtsM α} {Q : α → EtsState → Prop}
    {E : EtsExc → EtsState → Prop} (hs : s.gpHandler = false) (hlocated : Located p s)
    (hbody : Wp body (guarded s)
      (fun v t => t.mCpu = true ∧ t.gpHandler = true ∧ Q v { t with gpHandler := false }) E) :
    Wp (withMsrHandler p body) s Q E := by
  apply wp_bind
  apply wp_ok (registerMsrHandler_located hs hlocated)
  apply wp_bind
  apply hbody.mono
  · rintro v t ⟨hcpu, hhandler, hQ⟩
    apply wp_bind
    exact wp_ok (unregisterMsrHandler_guarded hcpu hhandler) (wp_pure hQ)
  · intro e t he
    exact he

theorem wp_withMsrHandler_not_located {α : Type} {body : EtsM α} {Q : α → EtsState → Prop}
    {E : EtsExc → EtsState → Prop} (h : ¬ Located p s)
    (he : E (.efiStatus p.locateProtocol) s) : Wp (withMsrHandler p body) s Q E := by
  apply wp_bind
  exact wp_error (registerMsrHandler_not_located h) he

/-! ### Conversions and instructions under the handler -/

theorem wp_convert {value : PyValue} {Q : Int → EtsState → Prop} {E : EtsExc → EtsState → Prop}
    (hok : ∀ z, mpObjGetInt a value = .ok z → Convertible a value → Q z s)
    (herror : ∀ e, ¬ Convertible a value → E e s) : Wp (ofExcept (mpObjGetInt a value)) s Q E := by
  cases hvalue : mpObjGetInt a value with
  | ok z => exact hok z hvalue (mpObjGetInt_ok hvalue)
  | error e =>
      apply herror e
      intro h
      rcases h.mpObjGetInt with ⟨z, hz⟩
      rw [hvalue] at hz
      cases hz

theorem wp_asmReadMsr64 {msr : UInt32} {Q : UInt64 → EtsState → Prop}
    {E : EtsExc → EtsState → Prop} (hcpu : s.mCpu = true) (hs : s.gpHandler = true)
    (hok : p.readFaults msr = false → Q (p.msr msr) s)
    (hfault : p.readFaults msr = true → E (.reservedMsr msr) { s with gpHandler := false }) :
    Wp (asmReadMsr64 p msr) s Q E := by
  rw [asmReadMsr64]
  split
  · next h => exact wp_error (gpFault_guarded msr hcpu hs) (hfault h)
  · next h => exact wp_pure (hok (Bool.eq_false_iff.mpr h))

theorem wp_asmWriteMsr64 {msr : UInt32} {value : UInt64} {Q : Unit → EtsState → Prop}
    {E : EtsExc → EtsState → Prop} (hcpu : s.mCpu = true) (hs : s.gpHandler = true)
    (hok : p.writeFaults msr value = false →
      Q () { s with writes := s.writes ++ [.msr msr value] })
    (hfault : p.writeFaults msr value = true →
      E (.reservedMsr msr) { s with gpHandler := false }) :
    Wp (asmWriteMsr64 p msr value) s Q E := by
  rw [asmWriteMsr64]
  split
  · next h => exact wp_error (gpFault_guarded msr hcpu hs) (hfault h)
  · next h => exact hok (Bool.eq_false_iff.mpr h)

end Call

/-! ## Calls one after the other -/

section Balance

variable (a : Arch)

variable {a} in
/-- An argument that cannot be converted leaves the handler in place. -/
theorem refused {p : Platform} {s : EtsState} {call : MsrCall} {value : PyValue}
    (hlocated : Located p s) (hmem : value ∈ call.args) (hvalue : ¬ Convertible a value) :
    (guarded s).gpHandler = false ↔ CallOk a s (p, call) :=
  iff_of_false (by simp [guarded]) fun hok => hvalue (hok hlocated value hmem)

/-- What a call does with the handler, and what it depends on. -/
theorem wp_call {p : Platform} {s : EtsState} (hs : s.gpHandler = false) (call : MsrCall) :
    Wp (call.body a p) s (fun _ s' => s'.gpHandler = false ↔ CallOk a s (p, call))
      (fun _ s' => s'.gpHandler = false ↔ CallOk a s (p, call)) := by
  by_cases hlocated : Located p s
  · cases call with
    | rdmsr msr =>
        apply wp_bind
        apply wp_withMsrHandler hs hlocated
        apply wp_bind
        apply wp_convert
        · intro z _ hmsr
          have hok : CallOk a s (p, .rdmsr msr) := fun _ => by simpa [MsrCall.args] using hmsr
          apply wp_bind
          apply wp_asmReadMsr64 rfl rfl
          · intro _
            exact ⟨rfl, rfl, iff_of_true rfl hok⟩
          · intro _
            exact iff_of_true rfl hok
        · -- an argument that is refused is refused while the handler is in place
          intro e hmsr
          exact refused hlocated (by simp [MsrCall.args]) hmsr
    | wrmsr msr value =>
        apply wp_withMsrHandler hs hlocated
        apply wp_bind
        apply wp_convert
        · intro z _ hmsr
          apply wp_bind
          apply wp_convert
          · intro v _ hvalue
            have hok : CallOk a s (p, .wrmsr msr value) := fun _ => by
              simpa [MsrCall.args] using ⟨hmsr, hvalue⟩
            apply wp_asmWriteMsr64 rfl rfl
            · intro _
              exact ⟨rfl, rfl, iff_of_true rfl hok⟩
            · intro _
              exact iff_of_true rfl hok
          · intro e hvalue
            exact refused hlocated (by simp [MsrCall.args]) hvalue
        · intro e hmsr
          exact refused hlocated (by simp [MsrCall.args]) hmsr
  · -- no CPU protocol: nothing is installed, and nothing is left behind
    have hok : CallOk a s (p, call) := fun h => absurd h hlocated
    cases call with
    | rdmsr msr =>
        apply wp_bind
        exact wp_withMsrHandler_not_located hlocated (iff_of_true hs hok)
    | wrmsr msr value => exact wp_withMsrHandler_not_located hlocated (iff_of_true hs hok)

/-- The registers of the call do not fault. -/
def NoFault (p : Platform) : MsrCall → Prop
  | .rdmsr msr => ∀ z, mpObjGetInt a msr = .ok z → p.readFaults (UInt32.ofInt z) = false
  | .wrmsr msr value => ∀ z v, mpObjGetInt a msr = .ok z → mpObjGetInt a value = .ok v →
      p.writeFaults (UInt32.ofInt z) (UInt64.ofInt v) = false

/-- Valid arguments, on a valid register. -/
structure ValidCall (p : Platform) (call : MsrCall) : Prop where
  located : p.locateProtocol = .success
  convertible : ∀ value ∈ call.args, Convertible a value
  noFault : NoFault a p call

/-- No handler is left behind, and a valid call succeeds. -/
def Balanced (s : EtsState) : Prop :=
  s.gpHandler = false ∧
    ∀ p call, ValidCall a p call → Wp (call.body a p) s (fun _ _ => True) fun _ _ => False

theorem wp_validCall {p : Platform} {s : EtsState} {call : MsrCall} (hs : s.gpHandler = false)
    (h : ValidCall a p call) : Wp (call.body a p) s (fun _ _ => True) fun _ _ => False := by
  have hlocated : Located p s := .inr h.located
  cases call with
  | rdmsr msr =>
      apply wp_bind
      apply wp_withMsrHandler hs hlocated
      apply wp_bind
      apply wp_convert
      · intro z hz _
        apply wp_bind
        apply wp_asmReadMsr64 rfl rfl
        · intro _
          exact ⟨rfl, rfl, trivial⟩
        · -- the register is there, so the processor does not fault
          intro hfault
          rw [h.noFault z hz] at hfault
          cases hfault
      · intro e hmsr
        exact hmsr (h.convertible msr (by simp [MsrCall.args]))
  | wrmsr msr value =>
      apply wp_withMsrHandler hs hlocated
      apply wp_bind
      apply wp_convert
      · intro z hz _
        apply wp_bind
        apply wp_convert
        · intro v hv _
          apply wp_asmWriteMsr64 rfl rfl
          · intro _
            exact ⟨rfl, rfl, trivial⟩
          · intro hfault
            rw [h.noFault z v hz hv] at hfault
            cases hfault
        · intro e hvalue
          exact hvalue (h.convertible value (by simp [MsrCall.args]))
      · intro e hmsr
        exact hmsr (h.convertible msr (by simp [MsrCall.args]))

theorem balanced_iff {s : EtsState} : Balanced a s ↔ s.gpHandler = false :=
  ⟨And.left, fun hs => ⟨hs, fun _ _ h => wp_validCall a hs h⟩⟩

/-- A call, and the exception that it raises. -/
def etsStep (s : EtsState) (call : Platform × MsrCall) :
    Option (EtsState × List (Option EtsExc)) :=
  match call.2.body a call.1 s with
  | .ok _ s' => some (s', [none])
  | .error e s' => some (s', [some e])

/-- Nothing has been located or registered yet. -/
def etsInit : EtsState := ⟨false, false, []⟩

theorem etsStep_iff {s s' : EtsState} {call : Platform × MsrCall} {evs : List (Option EtsExc)}
    (hs : s.gpHandler = false) (h : etsStep a s call = some (s', evs)) :
    s'.gpHandler = false ↔ CallOk a s call := by
  have hcall := wp_call a hs (p := call.1) call.2
  rw [etsStep] at h
  unfold Wp at hcall
  cases hbody : call.2.body a call.1 s with
  | ok v t =>
      rw [hbody] at h hcall
      cases h
      exact hcall
  | error e t =>
      rw [hbody] at h hcall
      cases h
      exact hcall

theorem etsStep_defined (s : EtsState) (call : Platform × MsrCall) :
    ∃ s' evs, etsStep a s call = some (s', evs) := by
  rw [etsStep]
  cases call.2.body a call.1 s with
  | ok v t => exact ⟨t, _, rfl⟩
  | error e t => exact ⟨t, _, rfl⟩

/-- In every state of a run no handler is left behind, and valid calls succeed, exactly if every
call that gets as far as the handler has arguments that can be converted. -/
theorem handler_balanced_iff (calls : List (Platform × MsrCall)) :
    Always (etsStep a) (fun _ s' _ => Balanced a s') etsInit calls ↔
      Guarded (etsStep a) (CallOk a) etsInit calls := by
  rcases exists_run (etsStep_defined a) etsInit calls with ⟨s', evs, hrun⟩
  apply always_iff_guarded (fun s => s.gpHandler = false) _ _ calls rfl hrun
  · intro s t evs call hs hstep
    rw [balanced_iff, etsStep_iff a hs hstep]
  · intro s t evs call hs hok hstep
    exact (etsStep_iff a hs hstep).mpr hok

end Balance

/-- All registers hold 0, and none faults. -/
def quietPlatform : Platform where
  locateProtocol := .success
  readFaults _ := false
  writeFaults _ _ := false
  msr _ := 0

/-- A text is no register number, and then no number is any more. -/
theorem handler_left_behind :
    ¬ Always (etsStep .x64) (fun _ s' _ => Balanced .x64 s') etsInit
        [(quietPlatform, .rdmsr (.other "str"))] ∧
      (modEtsRdmsr .x64 quietPlatform (.int 0x10)) ⟨true, true, []⟩ =
        .error (.efiStatus .alreadyStarted) ⟨true, true, []⟩ := by
  constructor
  · intro halways
    have hstep : etsStep .x64 etsInit (quietPlatform, .rdmsr (.other "str")) =
        some (⟨true, true, []⟩, [some (.conversion
          (.raise .typeError "can't convert str to int"))]) := by rfl
    rcases halways _ _ hstep with ⟨⟨hleft, -⟩, -⟩
    cases hleft
  · rfl

end EfiLvgl.Ets
