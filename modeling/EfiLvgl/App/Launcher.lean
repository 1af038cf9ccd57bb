import EfiLvgl.App.CommandLine

/-!
# EfiLvgl.App.Launcher — what the loader makes of its arguments

`RunScript` goes through the arguments: options in front of the script and behind it, then what is
passed on to the script. With less than two entries in `Argv` it takes it that there are no
arguments. That is so when the Shell has put the name of the program in front, and not
otherwise (`launched_as_asked_iff`).
-/

namespace EfiLvgl.App

/-- A string of an `Argv` entry, without its terminator. -/
abbrev Str16 := List Char16

/-- A status of the loader: one of the firmware, or `EFI_DEVICE_ERROR`. -/
inductive AppStatus where
  | efi (status : EfiStatus)
  | deviceError
deriving DecidableEq, Repr

/-! ## What the firmware answers -/

/-- An opened script: whether it has an info and is no directory, its size, and what is read when
so many bytes are asked for. -/
structure OpenedScript where
  info : Option Bool
  size : Except EfiStatus UInt64
  read : Nat → Except EfiStatus (List UInt8)

/-- What `RunScript` finds around it. -/
structure LaunchEnv where
  /-- The handles with a script engine; for each, what `HandleProtocol` and `GetType` answer. -/
  engines : Except EfiStatus (List (Except EfiStatus UInt32))
  shell : Bool
  /-- The script file protocol, and what it opens. -/
  sfp : Except EfiStatus (Str16 → Except EfiStatus OpenedScript)
  pool : Nat → Bool
  /-- `UnicodeStrToAsciiStrS`, for a buffer that is large enough. -/
  unicodeStrToAsciiStrS : Str16 → Except EfiStatus (List UInt8)

/-- A buffer with a script, and the length that is handed on with it. -/
structure Script where
  bytes : List UInt8
  length : Nat
deriving DecidableEq, Repr

/-- What `RunScript` does. -/
inductive LaunchEvent where
  | setSysArgs (args : List Str16)
  | setSysPath (path : Str16)
  /-- `Print(L"upy: cannot open '%s': %r\r\n", ..)`. -/
  | cannotOpen (path : Str16) (status : AppStatus)
  /-- `ExecuteAsync` or `Execute` of a script. -/
  | run (isAsync : Bool) (script : Script) (sharable : Bool)
  /-- `Execute` without a script: the interactive loop. -/
  | interact (sharable : Bool)
deriving DecidableEq, Repr

/-! ## The functions -/

/-- `EFI_SCRIPT_ENGINE_TYPE_MICROPYTHON`. -/
def typeMicroPython : UInt32 := 0x00797075

/-- The loop of `FindScriptProtocolByType`. -/
def findType (type : UInt32) : List (Except EfiStatus UInt32) → Except EfiStatus Unit
  | [] => .error .notFound
  | .error _ :: handles => findType type handles
  | .ok getType :: handles => if getType = type then .ok () else findType type handles

/-- `FindScriptProtocolByType`. -/
def findScriptProtocolByType (env : LaunchEnv) (type : UInt32) : Except EfiStatus Unit :=
  if type = 0 then .error .invalidParameter
  else do findType type (← env.engines)

/-- `GetScriptFromFile`. -/
def getScriptFromFile (env : LaunchEnv) (scriptFile : Str16) : Except AppStatus Script := do
  let openFile ← env.sfp.mapError .efi
  let fh ← (openFile scriptFile).mapError .efi
  match fh.info with
  | some false =>
      let size ← fh.size.mapError .efi
      let bytes ← (fh.read (size + 1).toNat).mapError .efi
      return ⟨bytes, bytes.length⟩
  | _ => throw .deviceError

/-- The loop of `AddSysPath`: the last backslash that is not the first character. -/
def sysPathIndex (path : Str16) : Nat → Nat
  | 0 => 0
  | index + 1 => if path.getD (index + 1) 0 ≠ ch '\\' then sysPathIndex path index else index + 1

/-- `AddSysPath`. -/
def addSysPath (path : Str16) : List LaunchEvent :=
  let index := sysPathIndex path (path.length - 1)
  if index = 0 then [] else [.setSysPath (path.take index)]

/-- The variables of `RunScript`. -/
structure Options where
  scriptStringOrFile : Option Str16
  isScriptFile : Bool
  isInteractiveMode : Bool
  isAsyncMode : Bool
  isShareMode : Bool

/-- Their values at first. -/
def Options.initial : Options := ⟨none, true, false, false, false⟩

/-- An option, by its letter. -/
def Options.setOption (o : Options) (letter : Char16) : Options :=
  if letter = ch 'a' then { o with isAsyncMode := true, isInteractiveMode := false }
  else if letter = ch 'c' then { o with isScriptFile := false }
  else if letter = ch 'i' then { o with isInteractiveMode := true }
  else if letter = ch 's' then { o with isShareMode := true }
  else o

/-- The loop over the arguments: the variables behind it, and what `SetSysArgs` is called with. -/
def parseArgs (o : Options) : List Str16 → Options × List LaunchEvent
  | [] => (o, [])
  | arg :: args =>
      if deref arg = ch '-' then parseArgs (o.setOption (deref (arg.drop 1))) args
      else
        match o.scriptStringOrFile with
        | none => parseArgs { o with scriptStringOrFile := some arg } args
        | some _ => (o, [.setSysArgs (arg :: args)])

/-- The variables when the script is looked for. -/
def options (env : LaunchEnv) (argv : List Str16) : Options × List LaunchEvent :=
  let parsed :=
    if 1 < argv.length then
      -- the Shell puts the application in front
      parseArgs .initial (if env.shell then argv.drop 1 else argv)
    else ({ Options.initial with isInteractiveMode := true }, [])
  if parsed.1.isAsyncMode then ({ parsed.1 with isInteractiveMode := false }, parsed.2) else parsed

/-- The script, from a file or from the argument itself. -/
def loadScript (env : LaunchEnv) (isScriptFile : Bool) (scriptStringOrFile : Str16) :
    Except AppStatus Script :=
  if isScriptFile then getScriptFromFile env scriptStringOrFile
  else if env.pool (scriptStringOrFile.length + 1) then
    ((env.unicodeStrToAsciiStrS scriptStringOrFile).mapError .efi).map fun bytes =>
      ⟨bytes, scriptStringOrFile.length⟩
  else .error (.efi .invalidParameter)

/-- What is done besides. -/
def loadEvents (isScriptFile : Bool) (scriptStringOrFile : Str16) :
    Except AppStatus Script → List LaunchEvent
  | .ok _ => if isScriptFile then addSysPath scriptStringOrFile else []
  | .error status => if isScriptFile then [.cannotOpen scriptStringOrFile status] else []

/-- `do .. while (Status == EFI_ALREADY_STARTED)`: the calls, and the answers that are left when
the loop has ended. -/
def callWhileStarted (call : LaunchEvent) :
    List EfiStatus → List LaunchEvent × Option (List EfiStatus)
  | [] => ([call], none)
  | status :: answers =>
      if status = .alreadyStarted then
        let again := callWhileStarted call answers
        (call :: again.1, again.2)
      else ([call], some answers)

/-- The loop that executes the script. An engine may leave a call unanswered, and then `RunScript`
does not return. -/
def executeScript (o : Options) :
    Option Script → List EfiStatus → List LaunchEvent × Option (List EfiStatus)
  | none, answers => ([], some answers)
  | some script, answers =>
      if 0 < script.length then
        callWhileStarted
          (.run o.isAsyncMode script
            (if o.isAsyncMode then o.isShareMode else o.isShareMode || o.isInteractiveMode))
          answers
      else ([], some answers)

/-- The interactive loop behind it. -/
def executeInteractive (o : Options) :
    List LaunchEvent × Option (List EfiStatus) → List LaunchEvent × Option (List EfiStatus)
  | (events, none) => (events, none)
  | (events, some answers) =>
      if o.isInteractiveMode then
        let interacted := callWhileStarted (.interact o.isShareMode) answers
        (events ++ interacted.1, interacted.2)
      else (events, some answers)

/-- `RunScript`; `answers` are those of `Execute` and `ExecuteAsync`. The status is that which is
returned, if the calls have been answered. -/
def runScript (env : LaunchEnv) (argv : List Str16) (answers : List EfiStatus) :
    List LaunchEvent × Option EfiStatus :=
  match findScriptProtocolByType env typeMicroPython with
  | .error _ => ([], some .unsupported)
  | .ok () =>
      let o := (options env argv).1
      let returned : EfiStatus :=
        if o.isAsyncMode || o.isShareMode then .alreadyStarted else .success
      let loaded : List LaunchEvent × Except AppStatus (Option Script) :=
        match o.scriptStringOrFile with
        | none => ([], .ok none)
        | some scriptStringOrFile =>
            let script := loadScript env o.isScriptFile scriptStringOrFile
            (loadEvents o.isScriptFile scriptStringOrFile script, script.map some)
      match loaded.2 with
      | .error _ => ((options env argv).2 ++ loaded.1, some returned)
      | .ok script =>
          let executed := executeInteractive o (executeScript o script answers)
          ((options env argv).2 ++ loaded.1 ++ executed.1, executed.2.map fun _ => returned)

/-! ## What is asked for -/

/-- An argument that is taken for an option. -/
def isOption (arg : Str16) : Bool := deref arg = ch '-'

/-- `Argv`: the Shell puts the name of the program in front of the arguments. -/
def argvOf (env : LaunchEnv) (prog : Str16) (args : List Str16) : List Str16 :=
  if env.shell then prog :: args else args

/-- The first argument that is no option. -/
def scriptArg (args : List Str16) : Option Str16 := args.find? fun arg => !isOption arg

/-- The arguments behind it. -/
def behindScript (args : List Str16) : List Str16 := (args.dropWhile isOption).drop 1

/-- The arguments from the second one on that is no option. -/
def scriptArgs (args : List Str16) : List Str16 := (behindScript args).dropWhile isOption

/-- The options in front of these. -/
def ownOptions (args : List Str16) : List Str16 :=
  args.takeWhile isOption ++ (behindScript args).takeWhile isOption

/-- Whether an option is among some arguments. -/
def given (letter : Char) (args : List Str16) : Bool :=
  args.any fun arg => deref (arg.drop 1) = ch letter

/-- Whether an option of the loader is given. -/
def asked (letter : Char) (args : List Str16) : Bool := given letter (ownOptions args)

/-- What the script is passed. -/
def passed (args : List Str16) : List LaunchEvent := if args = [] then [] else [.setSysArgs args]

theorem behindScript_script {arg : Str16} (harg : isOption arg = false) (args : List Str16) :
    behindScript (arg :: args) = args := by
  rw [behindScript, List.dropWhile_cons_of_neg (by simp [harg]), List.drop_one, List.tail_cons]

theorem ownOptions_script {arg : Str16} (harg : isOption arg = false) (args : List Str16) :
    ownOptions (arg :: args) = args.takeWhile isOption := by
  rw [ownOptions, List.takeWhile_cons_of_neg (by simp [harg]), behindScript_script harg,
    List.nil_append]

/-- The arguments have been followed. -/
structure LaunchKept (env : LaunchEnv) (args : List Str16) (events : List LaunchEvent) : Prop where
  /-- A script that can be loaded is executed. -/
  executes : ∀ arg script, scriptArg args = some arg →
    loadScript env (!asked 'c' args) arg = .ok script → 0 < script.length →
    ∃ isAsync sharable, .run isAsync script sharable ∈ events
  executes_only : ∀ isAsync script sharable, .run isAsync script sharable ∈ events →
    ∃ arg, scriptArg args = some arg ∧ loadScript env (!asked 'c' args) arg = .ok script
  async : ∀ isAsync script sharable, .run isAsync script sharable ∈ events →
    isAsync = asked 'a' args
  /-- `SetSysArgs` comes first, and once at most. -/
  sysArgs : ∃ later, events = passed (scriptArgs args) ++ later ∧
    ∀ args', .setSysArgs args' ∉ later
  interactive : ∀ sharable, .interact sharable ∈ events → asked 'i' args ∧ ¬ asked 'a' args

/-! ## The variables of a command line -/

/-- The options of a list, one after another. -/
def Options.setOptions (o : Options) (args : List Str16) : Options :=
  args.foldl (fun o arg => o.setOption (deref (arg.drop 1))) o

@[simp] theorem Options.setOptions_nil (o : Options) : o.setOptions [] = o := rfl

@[simp] theorem Options.setOptions_cons (o : Options) (arg : Str16) (args : List Str16) :
    o.setOptions (arg :: args) = (o.setOption (deref (arg.drop 1))).setOptions args := rfl

@[simp] theorem given_nil (letter : Char) : given letter [] = false := rfl

@[simp] theorem given_cons (letter : Char) (arg : Str16) (args : List Str16) :
    given letter (arg :: args) = (decide (deref (arg.drop 1) = ch letter) || given letter args) :=
  rfl

/-- An option does not touch the script. -/
@[simp] theorem Options.setOption_script (o : Options) (script : Option Str16)
    (letter : Char16) :
    ({ o with scriptStringOrFile := script } : Options).setOption letter =
      { o.setOption letter with scriptStringOrFile := script } := by
  unfold Options.setOption
  split_ifs <;> rfl

@[simp] theorem Options.scriptStringOrFile_setOption (o : Options) (letter : Char16) :
    (o.setOption letter).scriptStringOrFile = o.scriptStringOrFile := by
  unfold setOption
  split_ifs <;> rfl

theorem Options.setOptions_script (o : Options) (script : Option Str16) (args : List Str16) :
    ({ o with scriptStringOrFile := script } : Options).setOptions args =
      { o.setOptions args with scriptStringOrFile := script } := by
  induction args generalizing o with
  | nil => rfl
  | cons arg args ih => rw [setOptions_cons, setOptions_cons, setOption_script, ih]

/-- What every option adds to a flag, the options of a list add to it. -/
theorem Options.setOptions_flag {f : Options → Bool} {letter : Char}
    (h : ∀ o c, f (o.setOption c) = (f o || decide (c = ch letter))) (o : Options)
    (args : List Str16) :
    f (o.setOptions args) = (f o || given letter args) := by
  induction args generalizing o with
  | nil => simp
  | cons arg args ih => rw [setOptions_cons, ih, h, given_cons, Bool.or_assoc]

/-- The letters are told apart. -/
theorem ch_options :
    ch 'c' ≠ ch 'a' ∧ ch 'i' ≠ ch 'a' ∧ ch 'i' ≠ ch 'c' ∧
      ch 's' ≠ ch 'a' ∧ ch 's' ≠ ch 'c' ∧ ch 's' ≠ ch 'i' := by
  decide

theorem Options.isAsyncMode_setOption (o : Options) (letter : Char16) :
    (o.setOption letter).isAsyncMode = (o.isAsyncMode || decide (letter = ch 'a')) := by
  unfold setOption
  split_ifs <;> simp_all

theorem Options.isShareMode_setOption (o : Options) (letter : Char16) :
    (o.setOption letter).isShareMode = (o.isShareMode || decide (letter = ch 's')) := by
  have hch := ch_options
  unfold setOption
  split_ifs <;> grind

/-- `-c` takes the script for code. -/
theorem Options.isScriptFile_setOption (o : Options) (letter : Char16) :
    (!(o.setOption letter).isScriptFile) = (!o.isScriptFile || decide (letter = ch 'c')) := by
  have hch := ch_options
  unfold setOption
  split_ifs <;> grind

/-- `-a` takes back an earlier `-i`, and is remembered itself. -/
theorem Options.isInteractiveMode_setOption (o : Options) (letter : Char16) :
    ((o.setOption letter).isAsyncMode || (o.setOption letter).isInteractiveMode) =
      (o.isAsyncMode || o.isInteractiveMode ||
        (decide (letter = ch 'a') || decide (letter = ch 'i'))) := by
  have hch := ch_options
  unfold setOption
  split_ifs <;> grind

theorem Options.setOptions_interactive (o : Options) (args : List Str16) :
    ((o.setOptions args).isAsyncMode || (o.setOptions args).isInteractiveMode) =
      (o.isAsyncMode || o.isInteractiveMode || (given 'a' args || given 'i' args)) := by
  induction args generalizing o with
  | nil => simp
  | cons arg args ih =>
      rw [setOptions_cons, ih, isInteractiveMode_setOption, given_cons, given_cons]
      simp only [Bool.or_assoc, Bool.or_left_comm]

/-- The variables of a command line, with what is set for `-a` after the loop. -/
def askedOptions (args : List Str16) : Options where
  scriptStringOrFile := scriptArg args
  isScriptFile := !asked 'c' args
  isInteractiveMode := asked 'i' args && !asked 'a' args
  isAsyncMode := asked 'a' args
  isShareMode := asked 's' args

/-- Behind the script, the loop ends where the arguments of the script begin. -/
theorem parseArgs_some {o : Options} {script : Str16} (ho : o.scriptStringOrFile = some script)
    (args : List Str16) :
    parseArgs o args =
      (o.setOptions (args.takeWhile isOption), passed (args.dropWhile isOption)) := by
  induction args generalizing o with
  | nil => rfl
  | cons arg args ih =>
      cases harg : isOption arg with
      | true =>
          have ho' : (o.setOption (deref (arg.drop 1))).scriptStringOrFile = some script := by
            rw [Options.scriptStringOrFile_setOption, ho]
          rw [parseArgs, if_pos (of_decide_eq_true harg), ih ho',
            List.takeWhile_cons_of_pos harg, List.dropWhile_cons_of_pos harg,
            Options.setOptions_cons]
      | false =>
          have hne : isOption arg ≠ true := by simp [harg]
          rw [parseArgs, if_neg (of_decide_eq_false harg), ho, List.takeWhile_cons_of_neg hne,
            List.dropWhile_cons_of_neg hne, Options.setOptions_nil]
          rfl

/-- In front of it, it goes through the options and then on behind the script. -/
theorem parseArgs_none {o : Options} (ho : o.scriptStringOrFile = none) (args : List Str16) :
    parseArgs o args =
      ({ o.setOptions (ownOptions args) with scriptStringOrFile := scriptArg args },
        passed (scriptArgs args)) := by
  induction args generalizing o with
  | nil =>
      obtain ⟨script, isScriptFile, isInteractiveMode, isAsyncMode, isShareMode⟩ := o
      cases ho
      rfl
  | cons arg args ih =>
      cases harg : isOption arg with
      | true =>
          -- the script stays to be found
          have ho' : (o.setOption (deref (arg.drop 1))).scriptStringOrFile = none := by
            rw [Options.scriptStringOrFile_setOption, ho]
          have hbehind : behindScript (arg :: args) = behindScript args := by
            rw [behindScript, List.dropWhile_cons_of_pos harg, behindScript]
          have hown : ownOptions (arg :: args) = arg :: ownOptions args := by
            rw [ownOptions, List.takeWhile_cons_of_pos harg, hbehind, ownOptions, List.cons_append]
          have hscript : scriptArg (arg :: args) = scriptArg args :=
            List.find?_cons_of_neg (by simp [harg])
          rw [parseArgs, if_pos (of_decide_eq_true harg), ih ho', hown, Options.setOptions_cons,
            hscript, scriptArgs, scriptArgs, hbehind]
      | false =>
          have hscript : scriptArg (arg :: args) = some arg :=
            List.find?_cons_of_pos (by simp [harg])
          rw [parseArgs, if_neg (of_decide_eq_false harg), ho]
          rw [parseArgs_some (o := { o with scriptStringOrFile := some arg }) rfl,
            Options.setOptions_script, ownOptions_script harg, hscript, scriptArgs,
            behindScript_script harg]

/-- The variables of a command line that the loop is entered for. -/
theorem options_argvOf {env : LaunchEnv} {prog : Str16} {args : List Str16}
    (h : 1 < (argvOf env prog args).length) :
    options env (argvOf env prog args) = (askedOptions args, passed (scriptArgs args)) := by
  have hargs : (if env.shell then (argvOf env prog args).drop 1 else argvOf env prog args) =
      args := by
    unfold argvOf
    split_ifs <;> rfl
  have ha : (Options.initial.setOptions (ownOptions args)).isAsyncMode = asked 'a' args :=
    Options.setOptions_flag Options.isAsyncMode_setOption .initial _
  have hs : (Options.initial.setOptions (ownOptions args)).isShareMode = asked 's' args :=
    Options.setOptions_flag Options.isShareMode_setOption .initial _
  have hc : (!(Options.initial.setOptions (ownOptions args)).isScriptFile) = asked 'c' args :=
    Options.setOptions_flag (f := fun o => !o.isScriptFile) Options.isScriptFile_setOption
      .initial _
  have hi : ((Options.initial.setOptions (ownOptions args)).isAsyncMode ||
      (Options.initial.setOptions (ownOptions args)).isInteractiveMode) =
        (asked 'a' args || asked 'i' args) :=
    Options.setOptions_interactive .initial _
  -- each option is folded over the arguments in front of the script alone
  unfold options askedOptions
  rw [if_pos h, hargs, parseArgs_none rfl, ← ha, ← hs, ← hc]
  rw [← ha] at hi
  generalize Options.initial.setOptions (ownOptions args) = o at hi
  cases hasync : o.isAsyncMode with
  | true => simp [hasync]
  | false => simp_all

/-! ## What is done behind them -/

/-- What can be done with the variables, other than passing arguments on. -/
inductive Launched (env : LaunchEnv) (o : Options) : LaunchEvent → Prop
  | setSysPath (path : Str16) : Launched env o (.setSysPath path)
  | cannotOpen (path : Str16) (status : AppStatus) : Launched env o (.cannotOpen path status)
  | run {arg : Str16} {script : Script} (sharable : Bool)
      (harg : o.scriptStringOrFile = some arg)
      (hload : loadScript env o.isScriptFile arg = .ok script) :
      Launched env o (.run o.isAsyncMode script sharable)
  | interact (sharable : Bool) (h : o.isInteractiveMode = true) :
      Launched env o (.interact sharable)

theorem mem_callWhileStarted (call : LaunchEvent) (answers : List EfiStatus) :
    call ∈ (callWhileStarted call answers).1 := by
  unfold callWhileStarted
  split
  · exact List.mem_singleton_self call
  · split_ifs
    · exact List.mem_cons_self
    · exact List.mem_singleton_self call

/-- The loop does nothing else. -/
theorem eq_of_mem_callWhileStarted {call event : LaunchEvent} {answers : List EfiStatus}
    (h : event ∈ (callWhileStarted call answers).1) : event = call := by
  induction answers with
  | nil => exact List.mem_singleton.1 h
  | cons status answers ih =>
      unfold callWhileStarted at h
      split_ifs at h with hstarted
      · rcases List.mem_cons.1 h with hcall | hagain
        · exact hcall
        · exact ih hagain
      · exact List.mem_singleton.1 h

/-- What the interactive loop adds. -/
theorem executeInteractive_eq (o : Options)
    (executed : List LaunchEvent × Option (List EfiStatus)) :
    ∃ more, (executeInteractive o executed).1 = executed.1 ++ more ∧
      ∀ event ∈ more, event = .interact o.isShareMode ∧ o.isInteractiveMode = true := by
  obtain ⟨events, _ | answers⟩ := executed
  · exact ⟨[], (List.append_nil events).symm, List.forall_mem_nil _⟩
  · unfold executeInteractive
    split_ifs with hinteractive
    · exact ⟨_, rfl, fun event hevent => ⟨eq_of_mem_callWhileStarted hevent, hinteractive⟩⟩
    · exact ⟨[], (List.append_nil events).symm, List.forall_mem_nil _⟩

/-- A script that is not empty is executed. -/
theorem run_mem_executeScript {o : Options} {script : Script} (hlength : 0 < script.length)
    (answers : List EfiStatus) :
    ∃ sharable, .run o.isAsyncMode script sharable ∈ (executeScript o (some script) answers).1 := by
  rw [executeScript, if_pos hlength]
  exact ⟨_, mem_callWhileStarted _ answers⟩

/-- No other is. -/
theorem eq_of_mem_executeScript {o : Options} {script : Option Script} {answers : List EfiStatus}
    {event : LaunchEvent} (h : event ∈ (executeScript o script answers).1) :
    ∃ s sharable, script = some s ∧ event = .run o.isAsyncMode s sharable := by
  cases script with
  | none => exact absurd h List.not_mem_nil
  | some s =>
      by_cases hlength : 0 < s.length
      · rw [executeScript, if_pos hlength] at h
        exact ⟨s, _, rfl, eq_of_mem_callWhileStarted h⟩
      · rw [executeScript, if_neg hlength] at h
        exact absurd h List.not_mem_nil

theorem launched_of_mem_loadEvents {env : LaunchEnv} {o : Options} {isScriptFile : Bool}
    {arg : Str16} {loaded : Except AppStatus Script} {event : LaunchEvent}
    (h : event ∈ loadEvents isScriptFile arg loaded) : Launched env o event := by
  cases isScriptFile with
  | false => cases loaded <;> exact absurd h List.not_mem_nil
  | true =>
      cases loaded with
      | error status =>
          cases List.mem_singleton.1 h
          exact .cannotOpen arg status
      | ok script =>
          have hpath : event ∈ addSysPath arg := h
          dsimp only [addSysPath] at hpath
          split at hpath
          · exact absurd hpath List.not_mem_nil
          · cases List.mem_singleton.1 hpath
            exact .setSysPath _

/-- With an engine, the variables decide on everything that is done. -/
theorem runScript_spec {env : LaunchEnv} {argv : List Str16} {o : Options}
    {sys : List LaunchEvent} (hengine : findScriptProtocolByType env typeMicroPython = .ok ())
    (ho : options env argv = (o, sys)) (answers : List EfiStatus) :
    ∃ later, (runScript env argv answers).1 = sys ++ later ∧
      (∀ event ∈ later, Launched env o event) ∧
      (∀ arg script, o.scriptStringOrFile = some arg →
        loadScript env o.isScriptFile arg = .ok script → 0 < script.length →
        ∃ sharable, .run o.isAsyncMode script sharable ∈ later) := by
  unfold runScript
  cases harg : o.scriptStringOrFile with
  | none =>
      obtain ⟨more, hmore, hinteract⟩ := executeInteractive_eq o (executeScript o none answers)
      simp only [hengine, ho, harg, hmore]
      refine ⟨more, by simp [executeScript], fun event hevent => ?_, by simp⟩
      obtain ⟨rfl, h⟩ := hinteract event hevent
      exact .interact _ h
  | some arg =>
      cases hload : loadScript env o.isScriptFile arg with
      | error status =>
          -- neither of the loops is entered
          simp only [hengine, ho, harg, hload, Except.map]
          refine ⟨_, rfl, fun event hevent => launched_of_mem_loadEvents hevent, ?_⟩
          rintro arg' script ⟨⟩ hload' -
          cases hload.symm.trans hload'
      | ok script =>
          obtain ⟨more, hmore, hinteract⟩ :=
            executeInteractive_eq o (executeScript o (some script) answers)
          simp only [hengine, ho, harg, hload, Except.map, hmore, List.append_assoc]
          refine ⟨_, rfl, fun event hevent => ?_, ?_⟩
          · rcases List.mem_append.1 hevent with hevent | hevent
            · exact launched_of_mem_loadEvents hevent
            · rcases List.mem_append.1 hevent with hevent | hevent
              · obtain ⟨s, sharable, hs, rfl⟩ := eq_of_mem_executeScript hevent
                cases hs
                exact .run sharable harg hload
              · obtain ⟨rfl, h⟩ := hinteract event hevent
                exact .interact _ h
          · rintro arg' script' ⟨⟩ hload' hlength
            cases hload.symm.trans hload'
            obtain ⟨sharable, hrun⟩ := run_mem_executeScript (o := o) hlength answers
            exact ⟨sharable, List.mem_append_right _ (List.mem_append_left _ hrun)⟩

/-! ## Whether the arguments are followed -/

theorem LaunchKept.of_spec {env : LaunchEnv} {args : List Str16} {events later : List LaunchEvent}
    (hevents : events = passed (scriptArgs args) ++ later)
    (hlater : ∀ event ∈ later, Launched env (askedOptions args) event)
    (hruns : ∀ arg script, (askedOptions args).scriptStringOrFile = some arg →
      loadScript env (askedOptions args).isScriptFile arg = .ok script → 0 < script.length →
      ∃ sharable, .run (askedOptions args).isAsyncMode script sharable ∈ later) :
    LaunchKept env args events := by
  -- what is not in front is behind
  have hbehind : ∀ event ∈ events, (∀ args', event ≠ .setSysArgs args') →
      Launched env (askedOptions args) event := by
    intro event hevent hne
    rw [hevents] at hevent
    rcases List.mem_append.1 hevent with hpassed | hevent
    · unfold passed at hpassed
      split at hpassed
      · exact absurd hpassed List.not_mem_nil
      · exact absurd (List.mem_singleton.1 hpassed) (hne _)
    · exact hlater event hevent
  constructor
  case executes =>
    intro arg script harg hload hlength
    obtain ⟨sharable, hrun⟩ := hruns arg script harg hload hlength
    exact ⟨_, sharable, hevents ▸ List.mem_append_right _ hrun⟩
  case executes_only =>
    intro isAsync script sharable hrun
    cases hbehind _ hrun (by simp) with
    | run _ harg hload => exact ⟨_, harg, hload⟩
  case async =>
    intro isAsync script sharable hrun
    cases hbehind _ hrun (by simp) with
    | run _ harg hload => rfl
  case sysArgs =>
    refine ⟨later, hevents, fun args' hmem => ?_⟩
    cases hlater _ hmem
  case interactive =>
    intro sharable hinteract
    cases hbehind _ hinteract (by simp) with
    | interact _ h =>
        have hasked : asked 'i' args = true ∧ asked 'a' args = false := by
          simpa [askedOptions] using h
        exact ⟨hasked.1, by simp [hasked.2]⟩

/-- A single entry in `Argv` is not looked at. -/
theorem interact_of_single {env : LaunchEnv} {argv : List Str16}
    (hengine : findScriptProtocolByType env typeMicroPython = .ok ())
    (hargv : argv.length ≤ 1) (answers : List EfiStatus) :
    .interact false ∈ (runScript env argv answers).1 := by
  have ho : options env argv = ({ Options.initial with isInteractiveMode := true }, []) := by
    have hfew : ¬ 1 < argv.length := Nat.not_lt.2 hargv
    simp [options, hfew, Options.initial]
  unfold runScript
  rw [hengine, ho]
  exact mem_callWhileStarted _ answers

/-- With an engine, arguments that name a script are followed exactly if the Shell has put the name
of the program in front of them or there are at least two of them. -/
theorem launched_as_asked_iff (env : LaunchEnv) (prog : Str16) (args : List Str16)
    (answers : List EfiStatus) (hscript : ∃ arg ∈ args, isOption arg = false) :
    (findScriptProtocolByType env typeMicroPython = .ok () →
        LaunchKept env args (runScript env (argvOf env prog args) answers).1) ↔
      (findScriptProtocolByType env typeMicroPython = .ok () →
        env.shell = true ∨ 2 ≤ args.length) := by
  obtain ⟨script, hmem, hscript⟩ := hscript
  refine ⟨fun h hengine => ?_, fun h hengine => ?_⟩
  · -- a script alone, which the interactive loop is entered instead of
    by_contra hfew
    obtain ⟨hshell, hlength⟩ := not_or.1 hfew
    obtain ⟨arg, rfl⟩ : ∃ arg, args = [arg] :=
      List.length_eq_one_iff.1 (by have := List.length_pos_of_mem hmem; omega)
    cases List.mem_singleton.1 hmem
    have hargv : argvOf env prog [script] = [script] := if_neg hshell
    rw [hargv] at h
    have hinteract := (h hengine).interactive false (interact_of_single hengine le_rfl answers)
    simp [asked, ownOptions_script hscript] at hinteract
  · have hlength : 1 < (argvOf env prog args).length := by
      have hpos := List.length_pos_of_mem hmem
      unfold argvOf
      split
      · simpa using hpos
      · next hshell => exact (h hengine).resolve_left hshell
    obtain ⟨later, hevents, hlater, hruns⟩ :=
      runScript_spec hengine (options_argvOf hlength) answers
    exact .of_spec hevents hlater hruns

/-- What a boot manager starts the loader with: no Shell, one engine, and a file system where
every file is a script of one character. -/
def bootManager : LaunchEnv where
  engines := .ok [.ok typeMicroPython]
  shell := false
  sfp := .ok fun _ => .ok ⟨some false, .ok 1, fun _ => .ok [0x31]⟩
  pool _ := true
  unicodeStrToAsciiStrS str := .ok (str.map UInt16.toUInt8)

/-- `-c 7 -a m -i`: the code `7` is executed asynchronously, and `-i` is the script's. -/
theorem launched_from_boot_manager :
    LaunchKept bootManager
      [text ['-', 'c'], text ['7'], text ['-', 'a'], text ['m'], text ['-', 'i']]
      [.setSysArgs [text ['m'], text ['-', 'i']], .run true ⟨[0x37], 1⟩ false] :=
  (launched_as_asked_iff bootManager []
    [text ['-', 'c'], text ['7'], text ['-', 'a'], text ['m'], text ['-', 'i']] [.success]
    ⟨text ['7'], by decide, by decide⟩).2 (fun _ => .inr (by decide)) (by decide)

/-- Load options that are a script alone: the interactive loop is entered, and the script is not
executed. -/
theorem script_alone_not_executed :
    findScriptProtocolByType bootManager typeMicroPython = .ok () ∧
      isOption (text ['m']) = false ∧
      runScript bootManager (argvOf bootManager [] [text ['m']]) [.success] =
        ([.interact false], some .success) ∧
      ¬ LaunchKept bootManager [text ['m']]
        (runScript bootManager (argvOf bootManager [] [text ['m']]) [.success]).1 := by
  have hrun : runScript bootManager (argvOf bootManager [] [text ['m']]) [.success] =
      ([.interact false], some .success) := by
    rfl
  refine ⟨rfl, rfl, hrun, fun h => ?_⟩
  rw [hrun] at h
  obtain ⟨isAsync, sharable, hmem⟩ := h.executes (text ['m']) ⟨[0x31], 1⟩ rfl rfl (by decide)
  simp at hmem

end EfiLvgl.App
