import EfiLvgl.Efi.Status
import EfiLvgl.Lib.Run

/-!
# EfiLvgl.Executor.Model — the script executor of `use.c`

The executor record `mExecutorData`, its entry points (`UpyExecute`,
`UpyExecuteAsync`, `UpySetArgs`, `UpySetPath`), the timer handler
`ScriptExecutor`, and what the running script can do to it (`UpySuspend`,
completion). Around the record stands what the code touches through the
firmware: armed timer events, allocated stacks, the C call stack, and the
interpreter's heap.

Jumps are modelled by identity: `SetJump` saves the number of the activation
(`ExecutorContext`) or a fresh token for the suspended script
(`ScriptEngineContext`), `LongJump` looks it up. A jump to a context that is no
longer there, or a script started on no stack, ends the run in a `fault`: what
the machine does next is not defined by the source.

Each step emits the events an outside observer could see. `AllocateAlignedPages`
for the script's stack and `CreateEvent` always succeed (the code asserts it);
the one allocation whose failure the code can report is `UpyInit`'s heap.
-/

namespace EfiLvgl.Executor

open EfiLvgl.Run

/-- A UTF-16 string and the UTF-8 string the interpreter stores. -/
abbrev Str16 := List UInt16
abbrev Str8 := List UInt8

/-- The UTF-8 bytes of one UTF-16 unit. -/
def utf8OfUnit (c : UInt16) : Str8 :=
  let n := c.toNat
  let bytes :=
    if n < 0x80 then [n]
    else if n < 0x800 then [0xC0 + n / 64, 0x80 + n % 64]
    else [0xE0 + n / 4096 % 16, 0x80 + n / 64 % 64, 0x80 + n % 64]
  bytes.map UInt8.ofNat

/-- `ToUpyString`, that is `UnicodeToUtf8`. -/
def toUpyString (s : Str16) : Str8 := s.flatMap utf8OfUnit

/-- The text of `qstr_from_str (str)`. `MICROPY_QSTR_BYTES_IN_LEN` is 1: a longer string is cut to
its length modulo 256, where the assertion in `qstr_from_strn` is not compiled in. -/
def qstrFromStr (str : Str8) : Str8 := str.take (str.length % 256)

/-- A list object of the interpreter: its items and its allocated slots. -/
structure PyList where
  items : List Str8
  alloc : Nat
deriving DecidableEq, Repr

/-- `mp_obj_list_init (o, 0)`. -/
def PyList.init : PyList := ⟨[], 4⟩

/-- `mp_obj_list_append`. -/
def PyList.append (l : PyList) (x : Str8) : PyList :=
  ⟨l.items ++ [x], if l.alloc ≤ l.items.length then l.alloc * 2 else l.alloc⟩

/-- The content of a jump buffer saved by `UpySuspend`: which save it was, the
script that was running and the stack it was running on. -/
structure EngineContext where
  save : Nat
  source : Option Ptr
  stack : Nat
deriving DecidableEq, Repr

/-- `UPY_EXECUTOR_DATA`. Events, stacks and activations are named by numbers. -/
structure ExecutorData where
  execEvent : Option Nat
  execStatus : EfiStatus
  scriptEngineProtocol : Option Ptr
  script : Option Ptr
  scriptLength : Nat
  executorContext : Option Nat
  scriptEngineContext : Option EngineContext
  scriptEngineStack : Option Nat
  scriptEngineStackSize : Nat
  isRunning : Bool
  deinitAfterwards : Bool
deriving DecidableEq, Repr

/-- A C frame: an activation of `ScriptExecutor` (called by `UpyExecute` when
`sync`, else by the timer), or the interpreter running a script on its stack. -/
inductive Frame where
  | executor (id : Nat) (sync : Bool)
  | script (source : Option Ptr) (stack : Nat)
deriving DecidableEq, Repr

/-- Ways to leave the behaviour the source defines. -/
inductive Fault where
  | noStack
  | deadEngineContext
  | deadExecutorContext
  | noEvent
  | returnFromScript
deriving DecidableEq, Repr

/-- What a step shows to the outside. `suspended` is `UpySuspend`'s jump out of the
script, with what it saved; `longJump` is `ScriptExecutor`'s jump to
`ScriptEngineContext`, with what that holds; `timer` is the delay given to
`SetTimer` for the next firing. -/
inductive Event where
  | accepted (source : Option Ptr)
  | started (source : Option Ptr)
  | suspended (ctx : EngineContext)
  | timer (delay : Nat)
  | longJump (ctx : Option EngineContext)
  | raised
  | completed (source : Option Ptr)
  | returned (st : EfiStatus)
deriving DecidableEq, Repr

/-- The executor record and its surroundings. `suspended` holds the contexts
saved by scripts that have neither been resumed nor completed since the save. -/
structure Sys where
  data : ExecutorData
  mHeap : Option Ptr
  initialised : Bool
  sysArgv : PyList
  sysPath : PyList
  frames : List Frame
  armed : List Nat
  allocated : List Nat
  suspended : List EngineContext
  next : Nat
  fault : Option Fault
deriving DecidableEq, Repr

/-- `mStackSize`, `SIZE_256KB`. -/
def mStackSize : Nat := 0x40000

/-- `UPY_ASYNC_EXEC_TIMER_INTERVAL`. -/
def upyAsyncExecTimerInterval : Nat := (100 * 1000 * 1000) / 100

/-- The firmware's answers to `UpyInit`: whether the heap was allocated, and the
directories it puts on `sys.path`. -/
structure InitEnv where
  heapOk : Bool
  dirs : List Str8
deriving DecidableEq, Repr

/-! ## Initialisation -/

/-- `UpyInit`: on failure it returns before anything but `mHeap` is written. -/
def upyInit (s : Sys) (env : InitEnv) : Sys × EfiStatus :=
  if env.heapOk then
    ({ s with
        mHeap := some s.next
        next := s.next + 1
        initialised := true
        sysArgv := PyList.init
        sysPath := env.dirs.foldl PyList.append PyList.init
        data := { s.data with execStatus := .success } }, .success)
  else ({ s with mHeap := none }, .outOfResources)

/-- `UpyDeinit`. -/
def upyDeinit (s : Sys) : Sys := { s with mHeap := none, initialised := false }

/-- `mExecutorData = {0}`, before the driver's entry point has run. -/
def Sys.boot : Sys where
  data := ⟨none, .success, none, none, 0, none, none, none, 0, false, false⟩
  mHeap := none
  initialised := false
  sysArgv := PyList.init
  sysPath := PyList.init
  frames := []
  armed := []
  allocated := []
  suspended := []
  next := 0
  fault := none

/-- `&mUpyData.ScriptEngine`. -/
def mUpyDataScriptEngine : Ptr := 1

/-- `UseInit`, given what `UsfInit` and `InstallProtocolInterface` return. -/
def useInit (usf : EfiStatus) (env : InitEnv) (install : EfiStatus) : Sys × EfiStatus :=
  if usf = .success ∨ usf = .alreadyStarted then
    match upyInit Sys.boot env with
    | (s, .success) =>
        if install = .success then
          ({ s with data := { s.data with scriptEngineProtocol := some mUpyDataScriptEngine } },
            .success)
        else (upyDeinit s, install)
    | (s, st) => (s, st)
  else (Sys.boot, usf)

/-- The module's initial state: the driver has been loaded and its protocol
installed. -/
def initial (dirs : List Str8) : Sys := (useInit .success ⟨true, dirs⟩ .success).1

/-! ## `ScriptExecutor` -/

/-- `UpyDoScript` up to the call of the interpreter. -/
def upyDoScript (s : Sys) (stack : Nat) : Sys × List Event :=
  ({ s with
      frames := .script s.data.script stack :: s.frames
      data := { s.data with isRunning := true } }, [.started s.data.script])

/-- `SwitchStack (UpyDoScript, …)` onto `ScriptEngineStack`. -/
def switchStack (s : Sys) : Sys × List Event :=
  match s.data.scriptEngineStack with
  | some stack =>
      if stack ∈ s.allocated then upyDoScript s stack
      else ({ s with fault := some .noStack }, [.started s.data.script])
  | none => ({ s with fault := some .noStack }, [.started s.data.script])

/-- `LongJump (&ScriptEngineContext, 1)`: the script goes on where it was saved. -/
def longJumpEngine (s : Sys) : Sys × List Event :=
  match s.data.scriptEngineContext with
  | some ctx =>
      if ctx ∈ s.suspended ∧ ctx.stack ∈ s.allocated then
        ({ s with
            suspended := s.suspended.filter fun c => c.stack ≠ ctx.stack
            frames := .script ctx.source ctx.stack :: s.frames }, [.longJump (some ctx)])
      else ({ s with fault := some .deadEngineContext }, [.longJump (some ctx)])
  | none => ({ s with fault := some .deadEngineContext }, [.longJump none])

/-- `ScriptExecutor` up to the point where it gives the processor away: the
`case 0` branch, right after `SetJump (&ExecutorContext)`. -/
def scriptExecutor (s : Sys) (sync : Bool) : Sys × List Event :=
  let s₁ := { s with
    next := s.next + 1
    frames := .executor s.next sync :: s.frames
    data := { s.data with executorContext := some s.next } }
  -- nothing says that a script is suspended: what is not a start is taken for a resumption
  if s₁.data.isRunning = false ∧ s₁.data.scriptEngineProtocol ≠ none then switchStack s₁
  else longJumpEngine s₁

/-- The `default` branch of `ScriptExecutor`: clean up after the script. -/
def cleanUp (s : Sys) : Sys :=
  let s₁ := match s.data.scriptEngineStack with
    | some stack => { s with
        allocated := s.allocated.erase stack
        data := { s.data with scriptEngineStack := none, scriptEngineStackSize := 0 } }
    | none => s
  let s₂ := if s₁.data.deinitAfterwards then
      { upyDeinit s₁ with data := { s₁.data with scriptEngineProtocol := none } }
    else s₁
  { s₂ with data := { s₂.data with isRunning := false } }

/-- `ScriptExecutor` returns; below it `UpyExecute` returns `ExecStatus`. -/
def returnEvents (s : Sys) (sync : Bool) : List Event :=
  if sync then [.returned s.data.execStatus] else []

/-- `ScriptExecutor` after `SetJump` has returned a second time, with `value`;
`s.frames` is what lies below the activation. -/
def scriptExecutorBack (s : Sys) (sync : Bool) (value : Nat) : Sys × List Event :=
  -- the low nibble says why the script gave up the processor, the rest for how long
  if value % 16 = 1 then
    let time := value / 256
    let delay := if time = 0 then upyAsyncExecTimerInterval else time * 1000 * 10 % 2 ^ 64
    match s.data.execEvent with
    | some event =>
        ({ s with armed := if event ∈ s.armed then s.armed else event :: s.armed },
          .timer delay :: returnEvents s sync)
    -- `SetTimer` on no event
    | none => ({ s with fault := some .noEvent }, [])
  else
    let s₁ := cleanUp s
    (s₁, returnEvents s₁ sync)

/-- The activation that saved `ExecutorContext`, if it is still on the call
stack, with its caller's kind and the frames below it. -/
def findActivation (ctx : Option Nat) : List Frame → Option (Bool × List Frame)
  | [] => none
  | .executor id sync :: rest =>
      if ctx = some id then some (sync, rest) else findActivation ctx rest
  | .script _ _ :: rest => findActivation ctx rest

/-- `LongJump (&ExecutorContext, value)`. -/
def longJumpExecutor (s : Sys) (value : Nat) : Sys × List Event :=
  match findActivation s.data.executorContext s.frames with
  | some (sync, rest) => scriptExecutorBack { s with frames := rest } sync value
  | none => ({ s with fault := some .deadExecutorContext }, [])

/-! ## What the running script does -/

/-- `UpySuspend (ms)` called by the running script, or not enabled when no
script is running on top of the call stack. -/
def upySuspend (s : Sys) (ms : Nat) : Option (Sys × List Event) :=
  match s.frames with
  | .script source stack :: rest =>
      if s.data.execEvent = none then some (s, [.raised])
      else
        let ctx : EngineContext := ⟨s.next, source, stack⟩
        let r := longJumpExecutor { s with
          next := s.next + 1
          frames := rest
          suspended := ctx :: s.suspended
          data := { s.data with scriptEngineContext := some ctx } } ((ms * 256 + 1) % 2 ^ 64)
        some (r.1, .suspended ctx :: r.2)
  | _ => none

/-- The rest of `UpyDoScript` once the interpreter returns `ret`. -/
def upyDoScriptEnd (s : Sys) (ret : Int) : Option (Sys × List Event) :=
  match s.frames with
  | .script source stack :: rest =>
      let s₁ := { s with
        frames := rest
        suspended := s.suspended.filter fun c => c.stack ≠ stack
        data := { s.data with execStatus := if ret ≠ 0 then .loadError else .success } }
      if s₁.data.scriptEngineStack ≠ none then
        let r := longJumpExecutor s₁ 2
        some (r.1, .completed source :: r.2)
      else some ({ s₁ with fault := some .returnFromScript }, [.completed source])
  | _ => none

/-! ## Entry points of the protocol -/

/-- Both entry points give the script a stack of its own. -/
def allocateStack (s : Sys) : Sys :=
  { s with
    next := s.next + 1
    allocated := s.next :: s.allocated
    data := { s.data with
      scriptEngineStackSize := mStackSize
      scriptEngineStack := some s.next } }

/-- Three of the entry points initialise the interpreter on first use like this,
and do not look at what `UpyInit` returns. -/
def initOnFirstUse (s : Sys) (this : Option Ptr) (env : InitEnv) : Sys :=
  if s.data.scriptEngineProtocol = none then
    let s₁ := (upyInit s env).1
    { s₁ with data := { s₁.data with scriptEngineProtocol := this } }
  else s

/-- `UpyExecuteAsync`. -/
def upyExecuteAsync (s : Sys) (this source : Option Ptr) (length : Nat) (sharable : Bool)
    (env : InitEnv) : Sys × List Event :=
  if source = none ∨ length = 0 then (s, [.returned .invalidParameter])
  -- set by `UpyDoScript` only: a script that waits for its timer does not show here
  else if s.data.isRunning then (s, [.returned .alreadyStarted])
  else
    let s₁ := initOnFirstUse s this env
    let s₂ := allocateStack { s₁ with data := { s₁.data with
      deinitAfterwards := !sharable
      script := source
      scriptLength := length } }
    -- `CreateEvent` and `SetTimer`
    ({ s₂ with
        next := s₂.next + 1
        armed := s₂.next :: s₂.armed
        data := { s₂.data with execEvent := some s₂.next } },
      [.accepted source, .returned .success])

/-- `UpyExecute` after its two early returns. -/
def upyExecuteStart (s : Sys) (source : Option Ptr) (length : Nat) (sharable : Bool) :
    Sys × List Event :=
  let r := scriptExecutor (allocateStack { s with data := { s.data with
    deinitAfterwards := !sharable
    execEvent := none
    script := source
    scriptLength := length } }) true
  (r.1, .accepted source :: r.2)

/-- `UpyExecute`. When it starts a script, it returns at the script's end. -/
def upyExecute (s : Sys) (this source : Option Ptr) (length : Nat) (sharable : Bool)
    (env : InitEnv) : Sys × List Event :=
  if s.data.isRunning then (s, [.returned .alreadyStarted])
  else if s.data.scriptEngineProtocol = none then
    match upyInit s env with
    | (s₁, .success) =>
        upyExecuteStart { s₁ with data := { s₁.data with scriptEngineProtocol := this } }
          source length sharable
    | (s₁, st) => (s₁, [.returned st])
  else upyExecuteStart s source length sharable

/-- `UpySetArgs`; `argv` is `NULL` or the array, whose entries may be `NULL`. -/
def upySetArgs (s : Sys) (this : Option Ptr) (argv : Option (List (Option Str16)))
    (env : InitEnv) : Sys × List Event :=
  match argv with
  | none => (s, [.returned .invalidParameter])
  | some args =>
      if this = none then (s, [.returned .invalidParameter])
      else
        let s₁ := initOnFirstUse s this env
        -- a list in use is emptied and resized; the arguments are then appended
        let argv₀ : PyList :=
          if s₁.sysArgv.items.length > 0 then ⟨[], args.length⟩ else s₁.sysArgv
        ({ s₁ with
            sysArgv := (args.filterMap id).foldl
              (fun l a => l.append (qstrFromStr (toUpyString a))) argv₀ },
          [.returned .success])

/-- `UpySetPath`; a `NULL` path clears the list. -/
def upySetPath (s : Sys) (this : Option Ptr) (path : Option Str16) (env : InitEnv) :
    Sys × List Event :=
  if this = none then (s, [.returned .invalidParameter])
  else
    let s₁ := initOnFirstUse s this env
    match path with
    | none =>
        ({ s₁ with sysPath := if s₁.sysPath.items.length > 0 then ⟨[], 1⟩ else s₁.sysPath },
          [.returned .success])
    | some p =>
        ({ s₁ with sysPath := s₁.sysPath.append (qstrFromStr (toUpyString p)) },
          [.returned .success])

/-! ## The system -/

/-- What can happen next: a call of an entry point, the firing of an armed timer
event, or something the running script does. -/
inductive Lbl where
  | execute (this source : Option Ptr) (length : Nat) (sharable : Bool) (env : InitEnv)
  | executeAsync (this source : Option Ptr) (length : Nat) (sharable : Bool) (env : InitEnv)
  | setArgs (this : Option Ptr) (argv : Option (List (Option Str16))) (env : InitEnv)
  | setPath (this : Option Ptr) (path : Option Str16) (env : InitEnv)
  | fire (event : Nat)
  | suspend (ms : Nat)
  | complete (ret : Int)
deriving DecidableEq, Repr

/-- A timer event fires: it is relative, so firing disarms it. -/
def fire (s : Sys) (event : Nat) : Option (Sys × List Event) :=
  if event ∈ s.armed then some (scriptExecutor { s with armed := s.armed.erase event } false)
  else none

/-- One step of the system; nothing is enabled after a fault. -/
def step (s : Sys) (l : Lbl) : Option (Sys × List Event) :=
  if s.fault = none then
    match l with
    | .execute this source length sharable env =>
        some (upyExecute s this source length sharable env)
    | .executeAsync this source length sharable env =>
        some (upyExecuteAsync s this source length sharable env)
    | .setArgs this argv env => some (upySetArgs s this argv env)
    | .setPath this path env => some (upySetPath s this path env)
    | .fire event => fire s event
    | .suspend ms => upySuspend s ms
    | .complete ret => upyDoScriptEnd s ret
  else none

end EfiLvgl.Executor
