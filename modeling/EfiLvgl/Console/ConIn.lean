import EfiLvgl.Efi.Status
import EfiLvgl.Lib.Run

/-!
# EfiLvgl.Console.ConIn — keyboard input of the virtual console

`VirtualConIn.c`: the queue between `InputKey` and the two read interfaces, and the list
of key notifications. A session is the device together with a ledger of what its callers
have been told: the keys input and read since the last reset, and the registrations they
hold. The ledger is written from the calls and their replies only.
-/

namespace EfiLvgl.ConIn

open EfiLvgl.Run

/-! ## Data -/

/-- `EFI_INPUT_KEY`. -/
structure InputKey where
  scanCode : UInt16
  unicodeChar : Char16
  deriving DecidableEq, Repr

/-- `EFI_KEY_STATE`. -/
structure KeyState where
  keyShiftState : UInt32
  keyToggleState : UInt8
  deriving DecidableEq, Repr

/-- `EFI_KEY_DATA`. -/
structure KeyData where
  key : InputKey
  keyState : KeyState
  deriving DecidableEq, Repr

/-- `VIRTUAL_CONSOLE_KEY_NOTIFY`, with the address it was allocated at: that address is the
handle. -/
structure KeyNotify where
  address : Ptr
  keyData : KeyData
  callback : Ptr
  deriving DecidableEq, Repr

/-- The input half of `VIRTUAL_CONSOLE_DEV`. -/
structure ConsoleDev where
  keyQueue : List KeyData
  keyNotifyList : List KeyNotify
  keyToggleState : UInt8
  deriving DecidableEq, Repr

/-- What `ConInReset` reports. -/
inductive StatusCode where
  | reset
  | controllerError
  deriving DecidableEq, Repr

/-! ## The key queue -/

def isKeyQueueEmpty (dev : ConsoleDev) : Bool := dev.keyQueue.isEmpty

/-- `allocated` is whether `AllocatePool` succeeds. -/
def enqueKeyData (dev : ConsoleDev) (keyData : KeyData) (allocated : Bool) :
    ConsoleDev × EfiStatus :=
  if allocated then ({ dev with keyQueue := dev.keyQueue ++ [keyData] }, .success)
  else (dev, .outOfResources)

/-- The device, the status, and what is copied to `KeyData`. -/
def dequeKeyData (dev : ConsoleDev) : ConsoleDev × EfiStatus × Option KeyData :=
  match dev.keyQueue with
  | [] => (dev, .notReady, none)
  | keyData :: rest => ({ dev with keyQueue := rest }, .success, some keyData)

theorem dequeKeyData_shorter {dev : ConsoleDev} (h : ¬ (dequeKeyData dev).2.1.isError) :
    (dequeKeyData dev).1.keyQueue.length < dev.keyQueue.length := by
  unfold dequeKeyData at *
  cases hq : dev.keyQueue with
  | nil => simp [hq, EfiStatus.isError] at h
  | cons keyData rest => simp

/-- `do Status = DequeKeyData (...); while (!EFI_ERROR (Status))`. -/
def cleanUpKeyQueue (dev : ConsoleDev) : ConsoleDev × EfiStatus :=
  if (dequeKeyData dev).2.1.isError then ((dequeKeyData dev).1, (dequeKeyData dev).2.1)
  else cleanUpKeyQueue (dequeKeyData dev).1
termination_by dev.keyQueue.length
decreasing_by exact dequeKeyData_shorter ‹_›

def conInReset (dev : ConsoleDev) : ConsoleDev × EfiStatus × List StatusCode :=
  let (dev, status) := cleanUpKeyQueue dev
  (dev, status, if status.isError then [.reset, .controllerError] else [.reset])

def resetEx (dev : ConsoleDev) : ConsoleDev × EfiStatus × List StatusCode := conInReset dev

def readKeyStroke (dev : ConsoleDev) : ConsoleDev × EfiStatus × Option InputKey :=
  let (dev, status, keyData) := dequeKeyData dev
  if status.isError then (dev, status, none) else (dev, .success, keyData.map KeyData.key)

def readKeyStrokeEx (dev : ConsoleDev) (keyData : Option Ptr) :
    ConsoleDev × EfiStatus × Option KeyData :=
  match keyData with
  | none => (dev, .invalidParameter, none)
  | some _ => dequeKeyData dev

/-- Whether the event is signalled. -/
def waitForKeyCallback (dev : ConsoleDev) : Bool := !isKeyQueueEmpty dev

def inputKey (dev : ConsoleDev) (keyData : KeyData) (allocated : Bool) : ConsoleDev × EfiStatus :=
  enqueKeyData dev keyData allocated

def setState (dev : ConsoleDev) (keyToggleState : Option UInt8) : ConsoleDev × EfiStatus :=
  match keyToggleState with
  | none => (dev, .invalidParameter)
  | some keyToggleState => ({ dev with keyToggleState }, .success)

/-! ## The notify list -/

/-- A state of 0 in the registered key data is ignored. -/
def isKeyRegistered (registeredData inputData : KeyData) : Bool :=
  if registeredData.key.scanCode ≠ inputData.key.scanCode ∨
      registeredData.key.unicodeChar ≠ inputData.key.unicodeChar then false
  else if registeredData.keyState.keyShiftState ≠ 0 ∧
      registeredData.keyState.keyShiftState ≠ inputData.keyState.keyShiftState then false
  else if registeredData.keyState.keyToggleState ≠ 0 ∧
      registeredData.keyState.keyToggleState ≠ inputData.keyState.keyToggleState then false
  else true

/-- The loop of `RegisterKeyNotify`. -/
def findKeyNotify (keyData : KeyData) (callback : Ptr) : List KeyNotify → Option KeyNotify
  | [] => none
  | keyNotify :: rest =>
      if isKeyRegistered keyNotify.keyData keyData ∧ keyNotify.callback = callback then
        some keyNotify
      else findKeyNotify keyData callback rest

/-- The device, the status, and what is stored to `*NotifyHandle`; `allocated` is what
`AllocatePool` returns. -/
def registerKeyNotify (dev : ConsoleDev) (keyData : Option KeyData)
    (callback notifyHandle allocated : Option Ptr) : ConsoleDev × EfiStatus × Option Ptr :=
  match keyData, notifyHandle, callback with
  | some keyData, some _, some callback =>
      match findKeyNotify keyData callback dev.keyNotifyList with
      | some keyNotify => (dev, .success, some keyNotify.address)
      | none =>
          match allocated with
          | none => (dev, .outOfResources, none)
          | some address =>
              ({ dev with keyNotifyList := dev.keyNotifyList ++ [⟨address, keyData, callback⟩] },
                .success, some address)
  | _, _, _ => (dev, .invalidParameter, none)

/-- The loop of `UnregisterKeyNotify`: the list without the entry. -/
def removeKeyNotify (notifyHandle : Ptr) : List KeyNotify → Option (List KeyNotify)
  | [] => none
  | keyNotify :: rest =>
      if keyNotify.address = notifyHandle then some rest
      else (removeKeyNotify notifyHandle rest).map (keyNotify :: ·)

def unregisterKeyNotify (dev : ConsoleDev) (notifyHandle : Option Ptr) : ConsoleDev × EfiStatus :=
  match notifyHandle with
  | none => (dev, .invalidParameter)
  | some notifyHandle =>
      match removeKeyNotify notifyHandle dev.keyNotifyList with
      | none => (dev, .invalidParameter)
      | some keyNotifyList => ({ dev with keyNotifyList }, .success)

/-! ## Calls -/

inductive Call where
  | inputKey (keyData : KeyData) (allocated : Bool)
  | readKeyStroke
  | readKeyStrokeEx (keyData : Option Ptr)
  | conInReset
  | resetEx
  | setState (keyToggleState : Option UInt8)
  | waitForKey
  | registerKeyNotify (keyData : Option KeyData) (callback notifyHandle allocated : Option Ptr)
  | unregisterKeyNotify (notifyHandle : Option Ptr)
  deriving DecidableEq, Repr

/-- The status of a call and what it stores for its caller. -/
structure Reply where
  status : EfiStatus
  key : Option InputKey := none
  keyData : Option KeyData := none
  signalled : Bool := false
  notifyHandle : Option Ptr := none
  reported : List StatusCode := []
  deriving DecidableEq, Repr

/-- One call. The pool does not give out the address of an entry that is in the list. -/
def ConsoleDev.call (dev : ConsoleDev) : Call → Option (ConsoleDev × Reply)
  | .inputKey keyData allocated =>
      let (dev, status) := ConIn.inputKey dev keyData allocated
      some (dev, { status })
  | .readKeyStroke =>
      let (dev, status, key) := ConIn.readKeyStroke dev
      some (dev, { status, key })
  | .readKeyStrokeEx keyData =>
      let (dev, status, keyData) := ConIn.readKeyStrokeEx dev keyData
      some (dev, { status, keyData })
  | .conInReset =>
      let (dev, status, reported) := ConIn.conInReset dev
      some (dev, { status, reported })
  | .resetEx =>
      let (dev, status, reported) := ConIn.resetEx dev
      some (dev, { status, reported })
  | .setState keyToggleState =>
      let (dev, status) := ConIn.setState dev keyToggleState
      some (dev, { status })
  | .waitForKey => some (dev, { status := .success, signalled := waitForKeyCallback dev })
  | .registerKeyNotify keyData callback notifyHandle allocated =>
      if dev.keyNotifyList.any fun keyNotify => some keyNotify.address = allocated then none
      else
        let (dev, status, notifyHandle) :=
          ConIn.registerKeyNotify dev keyData callback notifyHandle allocated
        some (dev, { status, notifyHandle })
  | .unregisterKeyNotify notifyHandle =>
      let (dev, status) := ConIn.unregisterKeyNotify dev notifyHandle
      some (dev, { status })

/-! ## The ledger of the callers -/

/-- What a read hands over: `ReadKeyStroke` leaves the key state out. -/
inductive Delivered where
  | key (key : InputKey)
  | keyData (keyData : KeyData)
  deriving DecidableEq, Repr

/-- The delivery is of this key. -/
def Delivered.Shows : Delivered → KeyData → Prop
  | .key k, input => k = input.key
  | .keyData k, input => k = input

/-- A pair that was registered and the handle that was returned for it. -/
structure Registration where
  keyData : KeyData
  callback : Ptr
  handle : Ptr
  deriving DecidableEq, Repr

/-- `input` and `read` are since the last reset; `live` are the registrations that were
granted and not removed. -/
structure Ledger where
  input : List KeyData := []
  read : List Delivered := []
  live : List Registration := []
  deriving DecidableEq, Repr

/-- A granted registration; granted again, it is still one. -/
def Ledger.grant (ledger : Ledger) (registration : Registration) : Ledger :=
  if registration ∈ ledger.live then ledger
  else { ledger with live := ledger.live ++ [registration] }

/-- What a caller learns from a call and its reply. -/
def Ledger.record (ledger : Ledger) : Call → Reply → Ledger
  | .inputKey keyData _, reply =>
      if reply.status = .success then { ledger with input := ledger.input ++ [keyData] } else ledger
  | .readKeyStroke, reply =>
      { ledger with read := ledger.read ++ (reply.key.map Delivered.key).toList }
  | .readKeyStrokeEx _, reply =>
      { ledger with read := ledger.read ++ (reply.keyData.map Delivered.keyData).toList }
  | .conInReset, _ => { ledger with input := [], read := [] }
  | .resetEx, _ => { ledger with input := [], read := [] }
  | .registerKeyNotify (some keyData) (some callback) _ _, ⟨.success, _, _, _, some handle, _⟩ =>
      ledger.grant ⟨keyData, callback, handle⟩
  | .unregisterKeyNotify (some handle), reply =>
      if reply.status = .success then
        { ledger with live := ledger.live.filter fun registration => registration.handle ≠ handle }
      else ledger
  | _, _ => ledger

/-- The device and the ledger of its callers. -/
structure Session where
  dev : ConsoleDev
  ledger : Ledger
  deriving DecidableEq, Repr

/-- As `InitializeVirtualConsole` leaves the device. -/
def Session.initial (keyToggleState : UInt8) : Session :=
  { dev := ⟨[], [], keyToggleState⟩, ledger := {} }

/-- A step: a call, with its reply. -/
def Session.step : Step Session Call (Call × Reply) := fun s call =>
  (s.dev.call call).map fun (dev, reply) => (⟨dev, s.ledger.record call reply⟩, [(call, reply)])

theorem Session.step_eq_some {s s' : Session} {call : Call} {evs : List (Call × Reply)} :
    Session.step s call = some (s', evs) ↔ ∃ dev reply, s.dev.call call = some (dev, reply) ∧
      s' = ⟨dev, s.ledger.record call reply⟩ ∧ evs = [(call, reply)] := by
  simp [Session.step, eq_comm]

end EfiLvgl.ConIn
