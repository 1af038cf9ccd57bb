import EfiLvgl.Efi.Status
import EfiLvgl.Lib.Slots
import EfiLvgl.Repl.Vstr

/-!
# EfiLvgl.Repl.Model — the loop that reads a line

`ReplLoop` of `repl.c`, one key stroke at a time. A handler changes the line, the cursor
or the protected length and says how the line is to be drawn again; the redrawing moves
the cursor. What is passed on with a length or an offset is an event; the screen itself
is left out. UINTN arithmetic wraps around.
-/

namespace EfiLvgl.Repl

open EfiLvgl.CString EfiLvgl.Slots

/-! ## Numbers -/

/-- An integer as `UINTN`. -/
def uintn (z : Int) : Nat := (z % 2 ^ 64).toNat

/-- A `UINTN` as `INTN`. -/
def intn (n : Nat) : Int := if n < 2 ^ 63 then n else n - 2 ^ 64

theorem uintn_of_nonneg {z : Int} (h : 0 ≤ z) (hlt : z < 2 ^ 64) : uintn z = z.toNat := by
  rw [uintn, Int.emod_eq_of_lt h hlt]

theorem intn_of_lt {n : Nat} (h : n < 2 ^ 63) : intn n = n := if_pos h

/-! ## Data -/

/-- `REPL_MODE`. -/
inductive ReplMode where
  | normal
  | continue
  | paste
  deriving DecidableEq, Repr

/-- `MICROPY_REPL_HISTORY`, the size of `History`. -/
abbrev replHistSize : Nat := 64

instance : NeZero replHistSize := ⟨by decide⟩

/-- `mReplData`; the prompts are constants. -/
structure ReplData where
  line : Vstr
  origLineLength : Nat
  cursorPos : Nat
  history : Table (List UInt8) replHistSize
  historyIndex : Fin replHistSize

def prompt : ReplMode → List Char
  | .normal => ['>', '>', '>', ' ']
  | .continue => ['.', '.', '.', ' ']
  | .paste => ['=', '=', '=', ' ']

/-- `mReplData` and the variables of `ReplLoop` that are kept from key to key; what it
returns, when it has. -/
structure ReplState where
  data : ReplData
  replMode : ReplMode
  historyCursor : Fin replHistSize
  returned : Option Int

/-- What the rest of the program answers during one key stroke.
`mp_repl_autocomplete` counts no match as the empty completion, and many as none. -/
structure Environment where
  heap : Heap
  continueWithInput : List UInt8 → Bool
  autocomplete : List UInt8 → Option (List UInt8)

/-- What is passed on: texts, and lengths and offsets into the line. -/
inductive ReplEvent where
  | stdout (text : List Char)
  | stdoutLine (start length : Nat)
  | replPrint (start length : Nat)
  | autocomplete (start length : Nat)
  | pushHistory (start : Nat)
  | insByte (bytePos : Nat)
  | cutOutBytes (bytePos bytesToCut : Nat)
  | cutTailBytes (len : Nat)
  | moveCursorBack (pos : Nat)
  | eraseLineFromCursor (chars : Nat)
  deriving DecidableEq, Repr

/-- `MP_PARSE_SINGLE_INPUT`, `MP_PARSE_FILE_INPUT`. -/
def mpParseSingleInput : Int := 0
def mpParseFileInput : Int := 1

def newline : UInt8 := 0x0A

/-! ## Helpers -/

/-- `ReplLineStrip` shortens the line by these. -/
def isStripped (c : UInt8) : Bool := c = newline || c = 0x20 || c = 0x0D || c = 0x09

def replLineStrip (line : Vstr) : Vstr :=
  { line with len := (line.text.rdropWhile isStripped).length }

/-- `ReplClear`; what it writes to the screen is left out. -/
def replClear (data : ReplData) : ReplData :=
  { data with cursorPos := 0, origLineLength := 0, line := data.line.reset }

/-- `ReplPushHistory`. -/
def replPushHistory (heap : Heap) (data : ReplData) (line : List UInt8) : ReplData :=
  let last := data.historyIndex - 1
  if line ≠ [] ∧ data.history last ≠ some line then
    let history :=
      if heap.gets (line.length + 1) then put data.history data.historyIndex line else data.history
    { data with
      historyIndex := data.historyIndex + 1
      history := clear history (data.historyIndex + 1) }
  else data

/-- `ReplReset (NULL)`. -/
def replReset (data : ReplData) : ReplData :=
  { data with origLineLength := data.line.len, cursorPos := data.line.len }

/-- The start of `ReplLoop`. -/
def replLoop (data : ReplData) : ReplState where
  data := replReset data
  replMode := .normal
  historyCursor := data.historyIndex
  returned := none

/-! ## Keys -/

/-- `EFI_INPUT_KEY`. -/
structure InputKey where
  scanCode : UInt16
  unicodeChar : Char16
  deriving DecidableEq, Repr

/-- The cases of the two `switch` statements. -/
inductive KeyCase where
  | ctrlE
  | ctrlD
  | enter
  | backspace
  | tab
  | char (c : UInt8)
  | scanUp
  | scanDown
  | scanRight
  | scanLeft
  | scanEnd
  | scanHome
  | scanDelete
  | scanEsc
  | other
  deriving DecidableEq, Repr

def InputKey.case (key : InputKey) : KeyCase :=
  match key.scanCode.toNat with
  | 0x00 =>
      match key.unicodeChar.toNat with
      | 0x05 => .ctrlE
      | 0x04 => .ctrlD
      | 0x0D => .enter
      | 0x0A => .enter
      | 0x08 => .backspace
      | 0x09 => .tab
      | c => .char (UInt8.ofNat c)
  | 0x01 => .scanUp
  | 0x02 => .scanDown
  | 0x03 => .scanRight
  | 0x04 => .scanLeft
  | 0x05 => .scanHome
  | 0x06 => .scanEnd
  | 0x08 => .scanDelete
  | 0x17 => .scanEsc
  | _ => .other

/-- How the line is to be drawn again. -/
structure Redraw where
  stepBack : Int
  fromCursor : Bool
  stepForward : Int

def noRedraw : Redraw := ⟨0, false, 0⟩

/-- What a key comes to; a `MemoryError` has no result. -/
abbrev Handled := Option (ReplState × Redraw × List ReplEvent)

section Handlers

variable (env : Environment) (s : ReplState)

/-- The line is pushed to the history, from the protected length on, and returned. -/
def submit (line : Vstr) (evs : List ReplEvent) : Handled :=
  (line.nullTerminated env.heap).map fun line =>
    let data := { s.data with line := line }
    let input := cstr (line.buf.drop data.origLineLength)
    ({ s with data := replPushHistory env.heap data input, returned := some mpParseSingleInput },
      noRedraw, evs ++ [.pushHistory data.origLineLength])

def onCtrlE : Handled :=
  some ({ s with data := { s.data with line := s.data.line.reset }, replMode := .paste }, noRedraw,
    [.stdout "\r\nPaste mode; Ctrl-C to cancel, Ctrl-D to finish\r\n".toList,
      .stdout (prompt .paste)])

def onCtrlD : Handled :=
  match s.replMode with
  | .normal => some ({ s with returned := some (-1) }, noRedraw, [])
  | .continue => submit env s (replLineStrip s.data.line) [.stdout "\r\n".toList]
  | .paste => some ({ s with returned := some mpParseFileInput }, noRedraw, [.stdout "\r\n".toList])

/-- A new line at the cursor; all of the line is protected then. -/
def insertNewline (mode : ReplMode) (evs : List ReplEvent) : Handled :=
  (s.data.line.insByte env.heap s.data.cursorPos newline).map fun line =>
    ({ s with
        replMode := mode
        data := { s.data with
          line := line
          cursorPos := uintn ((s.data.cursorPos : Int) + 1)
          origLineLength := line.len } },
      noRedraw, evs ++ [.insByte s.data.cursorPos, .stdout (prompt mode)])

/-- Two blank lines in a row end the input. -/
def endsBlank (line : Vstr) : Bool :=
  2 ≤ line.len && line.text[line.len - 1]? = some newline && line.text[line.len - 2]? = some newline

def continueInput (evs : List ReplEvent) : Handled :=
  if endsBlank s.data.line then submit env s (replLineStrip s.data.line) evs
  else insertNewline env s .continue evs

def onEnter : Handled :=
  let evs := [.stdout "\r\n".toList]
  match s.replMode with
  | .normal =>
      (s.data.line.nullTerminated env.heap).bind fun line =>
        let s := { s with data := { s.data with line := line } }
        if env.continueWithInput (cstr line.buf) then continueInput env s evs
        else submit env s line evs
  | .continue => continueInput env s evs
  | .paste => insertNewline env s .paste evs

def onBackspace : Handled :=
  let data := s.data
  if data.origLineLength < data.cursorPos ∧
      data.line.buf[uintn ((data.cursorPos : Int) - 1)]? ≠ some newline then
    let pos := uintn ((data.cursorPos : Int) - 1)
    some ({ s with data := { data with line := data.line.cutOutBytes pos 1 } }, ⟨1, true, 0⟩,
      [.cutOutBytes pos 1])
  else some (s, noRedraw, [])

/-- The loop that inserts a completion. -/
def insertBytes (heap : Heap) (line : Vstr) (pos : Nat) : List UInt8 →
    Option (Vstr × List ReplEvent)
  | [] => some (line, [])
  | b :: bs =>
      (line.insByte heap pos b).bind fun line =>
        (insertBytes heap line (uintn ((pos : Int) + 1)) bs).map fun (line, evs) =>
          (line, .insByte pos :: evs)

def onTab : Handled :=
  let data := s.data
  let length := uintn ((data.cursorPos : Int) - data.origLineLength)
  let asked := [ReplEvent.autocomplete data.origLineLength length]
  match s.replMode with
  | .paste => some (s, noRedraw, [])
  | _ =>
      match env.autocomplete ((data.line.buf.drop data.origLineLength).take length) with
      | none =>
          some (s, ⟨0, true, 0⟩,
            asked ++ [.stdout (prompt .normal), .replPrint data.origLineLength length])
      | some [] => some (s, noRedraw, asked)
      | some completeString =>
          (insertBytes env.heap data.line data.cursorPos completeString).map fun (line, evs) =>
            ({ s with data := { data with line := line } },
              ⟨0, true, intn completeString.length⟩, asked ++ evs)

def onChar (c : UInt8) : Handled :=
  (s.data.line.insByte env.heap s.data.cursorPos c).map fun line =>
    ({ s with data := { s.data with line := line } }, ⟨0, true, 1⟩, [.insByte s.data.cursorPos])

/-- The line becomes an entry of the history, which `cut` makes room for. -/
def recallHistory (historyCursor : Fin replHistSize)
    (cut : ReplData → Vstr × List ReplEvent) : Handled :=
  match s.replMode, s.data.history historyCursor with
  | .normal, some entry =>
      let data := if 0 < s.data.line.len then replClear s.data else s.data
      let (line, evs) := cut data
      (line.addStr env.heap entry).map fun line =>
        ({ s with data := { data with line := line }, historyCursor := historyCursor },
          ⟨intn (uintn ((data.cursorPos : Int) - data.origLineLength)), true,
            intn (uintn ((line.len : Int) - data.origLineLength))⟩, evs)
  | _, _ => some (s, noRedraw, [])

/-- The entry before sets the length itself. -/
def onUp : Handled :=
  recallHistory env s (s.historyCursor - 1) fun data =>
    ({ data.line with len := data.origLineLength }, [])

/-- The entry behind cuts the tail off. -/
def onDown : Handled :=
  recallHistory env s (s.historyCursor + 1) fun data =>
    let cut := uintn ((data.line.len : Int) - data.origLineLength)
    (data.line.cutTailBytes cut, [.cutTailBytes cut])

def onRight : Handled :=
  some (s, if s.data.cursorPos < s.data.line.len then ⟨0, false, 1⟩ else noRedraw, [])

def onLeft : Handled :=
  some (s, if s.data.origLineLength < s.data.cursorPos then ⟨1, false, 0⟩ else noRedraw, [])

def onEnd : Handled :=
  some (s, ⟨0, false, intn (uintn ((s.data.line.len : Int) - s.data.cursorPos))⟩, [])

def onHome : Handled :=
  some (s, ⟨intn (uintn ((s.data.cursorPos : Int) - s.data.origLineLength)), false, 0⟩, [])

def onDelete : Handled :=
  if s.data.cursorPos < s.data.line.len then
    some ({ s with data := { s.data with line := s.data.line.cutOutBytes s.data.cursorPos 1 } },
      ⟨0, true, 0⟩, [.cutOutBytes s.data.cursorPos 1])
  else some (s, noRedraw, [])

def onEsc : Handled :=
  match s.replMode with
  | .paste =>
      some ({ s with
          data := { s.data with line := s.data.line.reset }
          returned := some mpParseSingleInput },
        noRedraw, [.stdout "\r\n".toList])
  | _ => some ({ s with data := replClear s.data, replMode := .normal }, noRedraw, [])

def onKey : KeyCase → Handled
  | .ctrlE => onCtrlE s
  | .ctrlD => onCtrlD env s
  | .enter => onEnter env s
  | .backspace => onBackspace s
  | .tab => onTab env s
  | .char c => onChar env s c
  | .scanUp => onUp env s
  | .scanDown => onDown env s
  | .scanRight => onRight s
  | .scanLeft => onLeft s
  | .scanEnd => onEnd s
  | .scanHome => onHome s
  | .scanDelete => onDelete s
  | .scanEsc => onEsc s
  | .other => some (s, noRedraw, [])

end Handlers

/-! ## Drawing the line again -/

/-- The cursor moved by a number of steps. -/
def ReplState.moveCursor (s : ReplState) (steps : Int) : ReplState :=
  { s with data := { s.data with cursorPos := uintn (s.data.cursorPos + steps) } }

/-- The end of the loop: a step back, the line from the cursor on, a step forward. -/
def redraw (oldLineLength : Nat) (s : ReplState) (r : Redraw) : ReplState × List ReplEvent :=
  let (s, back) :=
    if 0 < r.stepBack then (s.moveCursor (-r.stepBack), [.moveCursorBack (uintn r.stepBack)])
    else (s, [])
  let cursorPos := s.data.cursorPos
  let len := s.data.line.len
  if r.fromCursor then
    let erase : List ReplEvent :=
      if len < oldLineLength then [.eraseLineFromCursor (uintn ((oldLineLength : Int) - cursorPos))]
      else []
    (s.moveCursor r.stepForward,
      back ++ erase ++ [.replPrint cursorPos (uintn ((len : Int) - cursorPos)),
        .moveCursorBack (uintn ((len : Int) - (cursorPos + r.stepForward)))])
  else if 0 < r.stepForward then
    (s.moveCursor r.stepForward, back ++ [.stdoutLine cursorPos (uintn r.stepForward)])
  else (s, back)

/-- One round of `ReplLoop`; `ReadKeyStroke` may fail. A returned loop reads no more keys. -/
def replStep (s : ReplState) (stroke : Environment × Option InputKey) :
    Option (ReplState × List ReplEvent) :=
  match s.returned, stroke.2 with
  | some _, _ => none
  | none, none => some (s, [])
  | none, some key =>
      (onKey stroke.1 s key.case).map fun (s', r, evs) =>
        if s'.returned.isSome then (s', evs)
        else
          let (s'', evs') := redraw s.data.line.len s' r
          (s'', evs ++ evs')

end EfiLvgl.Repl
