import EfiLvgl.Efi.Status
import EfiLvgl.Lib.Memory

/-!
# EfiLvgl.Console.Model — the virtual console

`VirtualConOut.c`: the text output protocol of the virtual console and its `GetScreen`
and `ClearHistory`. The rows of the screen are buffers of the pool, and a line of the
history is a pointer to one. What a string does is read off the cursor alone
(`outputLoop`); the screen is then changed in that order (`ConsoleDev.apply`). A call
that touches a buffer that has been freed, or does not return, has no result.
-/

namespace EfiLvgl.Console

open EfiLvgl.Memory

/-! ## Data -/

/-- `VIRTUAL_CONSOLE_CHAR`. -/
structure ScreenChar where
  char : Char16
  attr : UInt64
  deriving DecidableEq, Repr

abbrev Row := List ScreenChar

/-- `VIRTUAL_CONSOLE_MODE_DATA`. -/
structure ModeData where
  columns : Nat
  rows : Nat
  deriving DecidableEq, Repr

/-- The cursor and the attribute of `EFI_SIMPLE_TEXT_OUTPUT_MODE`. A screen that fits in
memory has less than 2^31 columns and rows, and the attribute is never negative. -/
structure Cursor where
  column : Nat
  row : Nat
  attr : UInt64
  deriving DecidableEq, Repr

/-- `VIRTUAL_CONSOLE_DEV`; no mode is -1. -/
structure ConsoleDev where
  modeData : List ModeData
  mode : Option Nat
  cursor : Cursor
  screenHistory : List Ptr
  screenBuffer : List Ptr
  memory : Pool ScreenChar

def charNull : Char16 := 0x0000
def charBackspace : Char16 := 0x0008
def charLinefeed : Char16 := 0x000A
def charCarriageReturn : Char16 := 0x000D
def narrowChar : Char16 := 0xFFF0
def wideChar : Char16 := 0xFFF1

/-- `EFI_WIDE_ATTRIBUTE`. -/
def efiWideAttribute : UInt64 := 0x80

def mCrLfString : List Char16 := [charCarriageReturn, charLinefeed]

/-- The characters that the printing loop stops at. -/
def isControl (c : Char16) : Bool :=
  c = charNull || c = charBackspace || c = charLinefeed || c = charCarriageReturn ||
    c = wideChar || c = narrowChar

/-- What is done to the screen and to its history. -/
inductive ScreenOp where
  | erase (row column : Nat)
  | put (row column : Nat) (c : ScreenChar)
  | scroll (row : Nat)
  | clear (attr : UInt64)
  | clearHistory
  deriving DecidableEq, Repr

/-! ## `OutputString` -/

/-- The loop that prints characters: `Index`, what is left of `WString`, and the cells
that are written. -/
def printLoop (maxColumn : Nat) (cursor : Cursor) :
    Nat → List Char16 → Nat × List Char16 × List ScreenOp
  | index, [] => (index, [], [])
  | index, c :: wString =>
      if cursor.column + index < maxColumn ∧ ¬ isControl c then
        let put := ScreenOp.put cursor.row (cursor.column + index) ⟨c, cursor.attr⟩
        if cursor.attr &&& efiWideAttribute ≠ 0 then
          -- a wide character does not fit in the last column
          if maxColumn < cursor.column + index + 2 then (index + 2, c :: wString, [])
          else
            let (index, rest, ops) := printLoop maxColumn cursor (index + 2) wString
            (index, rest, put :: ops)
        else
          let (index, rest, ops) := printLoop maxColumn cursor (index + 1) wString
          (index, rest, put :: ops)
      else (index, c :: wString, [])

/-- A backspace at the left edge goes to the end of the row above. -/
def Cursor.back (cursor : Cursor) (maxColumn : Nat) : Cursor :=
  if cursor.column = 0 ∧ 0 < cursor.row then
    { cursor with row := cursor.row - 1, column := maxColumn - 1 }
  else if 0 < cursor.column then { cursor with column := cursor.column - 1 }
  else cursor

/-- One round of the loop of `OutputString`: the cursor, what is left of `WString`, and what
is done to the screen. `crLf` is `This->OutputString (This, mCrLfString)`. -/
def outputRound (maxColumn maxRow : Nat) (crLf : Cursor → Option (Cursor × List ScreenOp))
    (cursor : Cursor) (c : Char16) (wString : List Char16) :
    Option (Cursor × List Char16 × List ScreenOp) :=
  if c = charBackspace then
    let cursor := cursor.back maxColumn
    some (cursor, wString, [.erase cursor.row cursor.column])
  else if c = charLinefeed then
    if cursor.row = maxRow - 1 then some (cursor, wString, [.scroll cursor.row])
    else some ({ cursor with row := cursor.row + 1 }, wString, [])
  else if c = charCarriageReturn then some ({ cursor with column := 0 }, wString, [])
  else if c = wideChar then
    some ({ cursor with attr := cursor.attr ||| efiWideAttribute }, wString, [])
  else if c = narrowChar then
    some ({ cursor with attr := cursor.attr &&& ~~~efiWideAttribute }, wString, [])
  else
    let (index, wString, ops) := printLoop maxColumn cursor 0 (c :: wString)
    let cursor := { cursor with column := cursor.column + index }
    if maxColumn ≤ cursor.column then
      -- the recursive call puts its attribute back
      (crLf cursor).map fun (cursor', ops') =>
        ({ cursor' with attr := cursor.attr }, wString, ops ++ ops')
    else some (cursor, wString, ops)

/-- The loop of `OutputString`: the cursor behind the string, and what is done to the
screen. -/
def outputLoop (maxColumn maxRow : Nat) : Nat → Cursor → List Char16 →
    Option (Cursor × List ScreenOp)
  | 0, _, _ => none
  | _ + 1, cursor, [] => some (cursor, [])
  | fuel + 1, cursor, c :: wString =>
      if c = charNull then some (cursor, [])
      else do
        let crLf (cursor : Cursor) := outputLoop maxColumn maxRow fuel cursor mCrLfString
        let (cursor, wString, ops) ← outputRound maxColumn maxRow crLf cursor c wString
        let (cursor, ops') ← outputLoop maxColumn maxRow fuel cursor wString
        some (cursor, ops ++ ops')

/-- The mode data in use. -/
def ConsoleDev.current (dev : ConsoleDev) : Option ModeData :=
  dev.mode.bind fun mode => dev.modeData[mode]?

/-! ## The screen -/

/-- `ScreenBuffer[Row][Column]` is changed. -/
def ConsoleDev.modifyCell (dev : ConsoleDev) (row column : Nat) (f : ScreenChar → ScreenChar) :
    Option ConsoleDev := do
  let p ← dev.screenBuffer[row]?
  let line ← dev.memory.buffer p
  if column < line.length then
    let memory ← dev.memory.write p (line.modify column f)
    some { dev with memory := memory }
  else none

/-- The top row goes to the history, as a pointer; the rows move up and the last is
zeroed. -/
def ConsoleDev.scrollUp (dev : ConsoleDev) (columns row : Nat) : Option ConsoleDev := do
  let top ← dev.screenBuffer[0]?
  let memory ← dev.memory.copyUp (dev.screenBuffer.take (row + 1))
  let last ← dev.screenBuffer[row]?
  let memory ← memory.write last (List.replicate columns ⟨charNull, 0⟩)
  some { dev with screenHistory := dev.screenHistory ++ [top], memory := memory }

/-- `VirtualConsoleClearScreen`. -/
def virtualConsoleClearScreen (memory : Pool ScreenChar) (screen : List Ptr) (columns : Nat)
    (attr : UInt64) : Option (Pool ScreenChar) :=
  match screen with
  | [] => none
  | first :: rest =>
      (memory.write first (List.replicate columns ⟨charNull, attr⟩)).bind fun memory =>
        memory.copyAll first rest

/-- `VirtualConsoleClearHistory`. -/
def virtualConsoleClearHistory (memory : Pool ScreenChar) (history : List Ptr) :
    Option (Pool ScreenChar) :=
  memory.freeAll history

def ConsoleDev.apply (dev : ConsoleDev) (columns : Nat) : ScreenOp → Option ConsoleDev
  | .erase row column => dev.modifyCell row column fun c => { c with char := charNull }
  | .put row column c => dev.modifyCell row column fun _ => c
  | .scroll row => dev.scrollUp columns row
  | .clear attr => do
      let memory ← virtualConsoleClearScreen dev.memory dev.screenBuffer columns attr
      some { dev with memory := memory }
  | .clearHistory => do
      let memory ← virtualConsoleClearHistory dev.memory dev.screenHistory
      some { dev with screenHistory := [], memory := memory }

def ConsoleDev.applyAll (dev : ConsoleDev) (columns : Nat) : List ScreenOp → Option ConsoleDev
  | [] => some dev
  | op :: ops => (dev.apply columns op).bind fun dev => dev.applyAll columns ops

/-! ## The protocols -/

/-- What a call returns, the device after it, and what it did. -/
abbrev Result := Option (EfiStatus × ConsoleDev × List ScreenOp)

/-- Enough for every string that the loop comes to the end of. -/
def loopBound (wString : List Char16) : Nat := 2 * wString.length + 5

def outputString (dev : ConsoleDev) (wString : List Char16) : Result :=
  match dev.current with
  | none => some (.unsupported, dev, [])
  | some data => do
      let (cursor, ops) ← outputLoop data.columns data.rows (loopBound wString) dev.cursor wString
      let dev' ← dev.applyAll data.columns ops
      some (.success,
        { dev' with cursor := { cursor with attr := dev.cursor.attr } }, ops)

def queryMode (dev : ConsoleDev) (modeNumber : Option Nat) : Except EfiStatus ModeData :=
  -- `(UINTN) -1` is no mode either
  match modeNumber.bind fun mode => dev.modeData[mode]? with
  | none => .error .unsupported
  | some data => if data.columns = 0 ∨ data.rows = 0 then .error .unsupported else .ok data

/-- The new rows, with whatever the memory holds. -/
def allocRows (memory : Pool ScreenChar) (columns : Nat) : Nat → List Ptr × Pool ScreenChar
  | 0 => ([], memory)
  | rows + 1 =>
      let (p, memory) := memory.alloc (List.replicate columns ⟨charNull, 0⟩)
      let (ps, memory) := allocRows memory columns rows
      (p :: ps, memory)

/-- The old screen content is destroyed, if there is any. -/
def destroyScreen (dev : ConsoleDev) (memory : Pool ScreenChar) : Option (Pool ScreenChar) :=
  if dev.mode = none then some memory else memory.freeAll dev.screenBuffer

/-- `SetMode`, when the mode changes: the history and the old rows are freed, and the new
rows allocated. -/
def changeMode (dev : ConsoleDev) (modeNumber : Nat) (newMode : ModeData) : Option ConsoleDev := do
  let memory ← virtualConsoleClearHistory dev.memory dev.screenHistory
  let memory ← destroyScreen dev memory
  let (screenBuffer, memory) := allocRows memory newMode.columns newMode.rows
  some { dev with
    mode := some modeNumber
    cursor := { dev.cursor with column := 0, row := 0 }
    screenHistory := []
    screenBuffer := screenBuffer
    memory := memory }

def setMode (dev : ConsoleDev) (modeNumber : Nat) : Result :=
  match dev.modeData[modeNumber]? with
  | none => some (.unsupported, dev, [])
  | some newMode =>
      if newMode.columns = 0 ∧ newMode.rows = 0 then some (.unsupported, dev, [])
      else
        let changed :=
          if dev.mode = some modeNumber then some dev else changeMode dev modeNumber newMode
        changed.bind fun dev =>
          (dev.apply newMode.columns (.clear dev.cursor.attr)).bind fun dev =>
            some (.success, dev, [.clear dev.cursor.attr])

def setAttribute (dev : ConsoleDev) (attr : UInt64) : Result :=
  if attr ||| 0x7F ≠ 0x7F then some (.unsupported, dev, [])
  else some (.success, { dev with cursor := { dev.cursor with attr := attr } }, [])

def clearScreen (dev : ConsoleDev) : Result :=
  match dev.current with
  | none => some (.unsupported, dev, [])
  | some data => do
      let dev' ← dev.apply data.columns (.clear dev.cursor.attr)
      some (.success, { dev' with cursor := { dev.cursor with column := 0, row := 0 } },
        [.clear dev.cursor.attr])

def setCursorPosition (dev : ConsoleDev) (column row : Nat) : Result :=
  match dev.current with
  | none => some (.unsupported, dev, [])
  | some data =>
      if data.columns ≤ column ∨ data.rows ≤ row then some (.unsupported, dev, [])
      else
        some (.success, { dev with cursor := { dev.cursor with column := column, row := row } }, [])

def clearHistory (dev : ConsoleDev) : Result := do
  let dev ← dev.apply 0 .clearHistory
  some (.success, dev, [.clearHistory])

/-- `GetScreen`: the status, `*CharNum`, and what is copied to `ScreenBuffer`. -/
def getScreen (dev : ConsoleDev) (screenBuffer : Option Ptr) (charNum : Option Nat)
    (includingHistory : Bool) : Option (EfiStatus × Option Nat × List ScreenChar) :=
  match charNum with
  | none => some (.invalidParameter, none, [])
  | some charNum =>
      match queryMode dev dev.mode with
      | .error status => some (status, some charNum, [])
      | .ok data =>
          let history := if includingHistory then dev.screenHistory else []
          let needed := data.columns * (history.length + data.rows)
          if charNum < needed then some (.bufferTooSmall, some needed, [])
          else
            match screenBuffer with
            | none => some (.invalidParameter, some charNum, [])
            | some _ => do
                let lines ← history.mapM dev.memory.buffer
                let rows ← (dev.screenBuffer.take data.rows).mapM dev.memory.buffer
                some (.success, some needed, (lines ++ rows).flatten)

end EfiLvgl.Console
