import EfiLvgl.Console.Model
import EfiLvgl.Lib.Run

/-!
# EfiLvgl.Console.Rounds — `OutputString` round by round

The text output protocol with the integers of the machine: `CursorColumn` and `CursorRow` are
`INT32`, `Index`, `MaxColumn` and `MaxRow` are `UINTN`. A call of `OutputString` goes round by
round, and the call for the end of a line is on top of the one that makes it; what of
`ScreenBuffer` is touched is recorded, also in a call that does not return.

On modes of 2 to `2^31 - 1` columns the cursor is on the screen between calls, and what is touched
is on it (`onScreen`). On a mode of `2^31 - 1` columns a wide character in the last one takes the
column of the cursor to `-2^31`, and the call then goes on for ever without touching anything.
-/

namespace EfiLvgl.Console

open EfiLvgl.Run

/-! ## Integers -/

/-- A value as an `INT32`. -/
def int32 (x : Int) : Int := Int.bmod x 0x100000000

/-- An `INT32` in an expression of `UINTN`. -/
def uintn (x : Int) : Nat := (x % 0x10000000000000000).toNat

/-- The sum of two values of `UINTN`. -/
def addUintn (x y : Nat) : Nat := (x + y) % 0x10000000000000000

theorem int32_eq (x : Int) : int32 x =
    if x % 0x100000000 < 0x80000000 then x % 0x100000000 else x % 0x100000000 - 0x100000000 := by
  unfold int32 Int.bmod
  rfl

theorem int32_of_range {x : Int} (hlow : -0x80000000 ≤ x) (hhigh : x < 0x80000000) :
    int32 x = x := by
  rw [int32_eq]
  split
  · omega
  · omega

theorem int32_add_int32 (x y : Int) : int32 (x + int32 y) = int32 (x + y) := by
  rw [int32_eq, int32_eq, int32_eq]
  split_ifs <;> omega

theorem int32_range (x : Int) : -0x80000000 ≤ int32 x ∧ int32 x < 0x80000000 := by
  rw [int32_eq]
  split
  · omega
  · omega

theorem uintn_of_nonneg {x : Int} (hlow : 0 ≤ x) (hhigh : x < 0x80000000) :
    uintn x = x.toNat := by
  unfold uintn
  rw [Int.emod_eq_of_lt hlow (by omega)]

theorem uintn_of_neg {x : Int} (hlow : -0x80000000 ≤ x) (hhigh : x < 0) :
    (uintn x : Int) = x + 0x10000000000000000 := by
  unfold uintn
  omega

theorem addUintn_of_lt {x y : Nat} (h : x + y < 0x10000000000000000) : addUintn x y = x + y :=
  Nat.mod_eq_of_lt h

/-! ## The device -/

/-- What of `EFI_SIMPLE_TEXT_OUTPUT_MODE` the functions write, but the mode. -/
structure TextMode where
  cursorColumn : Int
  cursorRow : Int
  attr : UInt32
deriving DecidableEq, Repr

/-- A call of `OutputString`: the rest of `WString`, and `OriginAttribute`. -/
structure Activation where
  wString : List Char16
  originAttr : UInt32
deriving DecidableEq, Repr

/-- The device; the calls of `OutputString` that have not returned come last one first. -/
structure TextOutput where
  modeData : List ModeData
  mode : Option Nat
  textMode : TextMode
  calls : List Activation
deriving DecidableEq, Repr

/-- The mode data in use. -/
def TextOutput.current (dev : TextOutput) : Option ModeData :=
  dev.mode.bind fun mode => dev.modeData[mode]?

/-- What of `ScreenBuffer` is touched: a cell, or as many cells of a row from its first on. -/
inductive Touch where
  | cell (row column : Int)
  | cells (row : Int) (columns : Nat)
deriving DecidableEq, Repr

/-! ## One round -/

/-- `EFI_WIDE_ATTRIBUTE`. -/
def wideAttribute : UInt32 := 0x80

/-- The loop that prints characters: `Index`, what is left of `WString`, and the cells. -/
def printCells (maxColumn : Nat) (m : TextMode) :
    Nat → List Char16 → Nat × List Char16 × List Touch
  | index, [] => (index, [], [])
  | index, c :: wString =>
      if addUintn (uintn m.cursorColumn) index < maxColumn ∧ ¬ isControl c then
        let cell := Touch.cell m.cursorRow (addUintn (uintn m.cursorColumn) index)
        if m.attr &&& wideAttribute ≠ 0 then
          -- a wide character does not fit in the last column
          if maxColumn < addUintn (addUintn (uintn m.cursorColumn) index) 2 then
            (addUintn index 2, c :: wString, [])
          else
            let (index, rest, cells) := printCells maxColumn m (addUintn index 2) wString
            (index, rest, cell :: cells)
        else
          let (index, rest, cells) := printCells maxColumn m (addUintn index 1) wString
          (index, rest, cell :: cells)
      else (index, c :: wString, [])

/-- A backspace at the left edge goes to the end of the row above. -/
def TextMode.back (m : TextMode) (maxColumn : Nat) : TextMode :=
  if m.cursorColumn = 0 ∧ 0 < m.cursorRow then
    { m with cursorRow := int32 (m.cursorRow - 1), cursorColumn := int32 (maxColumn - 1) }
  else if 0 < m.cursorColumn then { m with cursorColumn := int32 (m.cursorColumn - 1) }
  else m

/-- The screen scrolls up by one row: the top row is put in the history, each row is copied to the
one above, and the last is zeroed. -/
def scrollTouches (maxColumn : Nat) (row : Int) : List Touch :=
  [.cells 0 0] ++
    (List.range (uintn row)).flatMap (fun index =>
      [.cells index maxColumn, .cells (index + 1) maxColumn]) ++ [.cells row maxColumn]

/-- A round that prints characters, up to the end of the line. -/
def printRound (data : ModeData) (m : TextMode) (call : Activation) :
    TextMode × List Activation × List Touch :=
  let (index, wString, cells) := printCells data.columns m 0 call.wString
  let m := { m with cursorColumn := int32 (m.cursorColumn + int32 index) }
  let next : Activation := { call with wString := wString }
  if int32 data.columns ≤ m.cursorColumn then
    -- `This->OutputString (This, mCrLfString)`
    (m, [⟨mCrLfString, m.attr⟩, next], cells)
  else (m, [next], cells)

/-- A round of the loop of a call of `OutputString`, and what is done behind the loop. The calls
are those that take the place of the call. -/
def outputRound32 (data : ModeData) (m : TextMode) (call : Activation) :
    TextMode × List Activation × List Touch :=
  match call.wString with
  | [] => ({ m with attr := call.originAttr }, [], [])
  | c :: wString =>
      let next : Activation := { call with wString := wString }
      if c = charNull then ({ m with attr := call.originAttr }, [], [])
      else if c = charBackspace then
        let m := m.back data.columns
        (m, [next], [.cell m.cursorRow m.cursorColumn])
      else if c = charLinefeed then
        if m.cursorRow = int32 (data.rows - 1) then
          (m, [next], scrollTouches data.columns m.cursorRow)
        else ({ m with cursorRow := int32 (m.cursorRow + 1) }, [next], [])
      else if c = charCarriageReturn then ({ m with cursorColumn := 0 }, [next], [])
      else if c = wideChar then
        ({ m with attr := m.attr ||| wideAttribute }, [next], [])
      else if c = narrowChar then
        ({ m with attr := m.attr &&& ~~~wideAttribute }, [next], [])
      else printRound data m call

/-! ## The system -/

/-- A call of the protocol, or the next round of `OutputString`. -/
inductive OutputLabel where
  | outputString (wString : List Char16)
  | setCursorPosition (column row : Nat)
  | setAttribute (attr : UInt64)
  | clearScreen
  | setMode (modeNumber : Nat)
  | round
deriving DecidableEq, Repr

/-- `SetCursorPosition`, on a mode. -/
def TextMode.place (m : TextMode) (data : ModeData) (column row : Nat) : TextMode :=
  if data.columns ≤ column ∨ data.rows ≤ row then m
  else { m with cursorColumn := int32 column, cursorRow := int32 row }

/-- The validity test of `SetMode`. -/
def modeAccepted (data : ModeData) : Bool := ¬ (data.columns = 0 ∧ data.rows = 0)

/-- `SetMode`: a mode that is set already leaves the cursor where it is. -/
def TextOutput.setMode (dev : TextOutput) (modeNumber : Nat) : TextOutput :=
  match dev.modeData[modeNumber]? with
  | none => dev
  | some data =>
      if modeAccepted data ∧ dev.mode ≠ some modeNumber then
        { dev with
          mode := some modeNumber
          textMode := { dev.textMode with cursorColumn := 0, cursorRow := 0 } }
      else dev

/-- What a call does until it returns, or `OutputString` until its first round. Without a mode
all but two of them do nothing. -/
def TextOutput.call (dev : TextOutput) : OutputLabel → TextOutput
  | .outputString wString =>
      match dev.current with
      | none => dev
      | some _ => { dev with calls := [⟨wString, dev.textMode.attr⟩] }
  | .setCursorPosition column row =>
      match dev.current with
      | none => dev
      | some data => { dev with textMode := dev.textMode.place data column row }
  | .setAttribute attr =>
      if attr ||| 0x7F ≠ 0x7F then dev
      else { dev with textMode := { dev.textMode with attr := attr.toUInt32 } }
  | .clearScreen =>
      match dev.current with
      | none => dev
      | some _ =>
          { dev with textMode := { dev.textMode with cursorColumn := 0, cursorRow := 0 } }
  | .setMode modeNumber => dev.setMode modeNumber
  | .round => dev

/-- One step: a round of the innermost call, or a call when the one before has returned. -/
def outputStep (dev : TextOutput) (label : OutputLabel) : Option (TextOutput × List Touch) :=
  match dev.calls with
  | [] => if label = .round then none else some (dev.call label, [])
  | call :: calls =>
      if label ≠ .round then none
      else dev.current.map fun data =>
        let r := outputRound32 data dev.textMode call
        ({ dev with textMode := r.1, calls := r.2.1 ++ calls }, r.2.2)

/-! ## Printing -/

/-- A mode of at least two columns and one row, which are `INT32`. -/
structure WellSized (data : ModeData) : Prop where
  columns : 2 ≤ data.columns
  columnsFit : data.columns < 0x80000000
  rows : 1 ≤ data.rows
  rowsFit : data.rows < 0x80000000

/-- A mode whose last column and last row are an `INT32`. -/
structure Addressable (data : ModeData) : Prop where
  columns : 2 ≤ data.columns
  columnsFit : data.columns ≤ 0x80000000
  rows : 1 ≤ data.rows
  rowsFit : data.rows ≤ 0x80000000

theorem WellSized.addressable {data : ModeData} (hd : WellSized data) : Addressable data :=
  ⟨hd.columns, Nat.le_of_lt hd.columnsFit, hd.rows, Nat.le_of_lt hd.rowsFit⟩

/-- What is touched is a part of the screen. -/
def Touch.Within (data : ModeData) : Touch → Prop
  | .cell row column => (0 ≤ row ∧ row < data.rows) ∧ 0 ≤ column ∧ column < data.columns
  | .cells row columns => (0 ≤ row ∧ row < data.rows) ∧ columns ≤ data.columns

section Printing

variable {data : ModeData} {m : TextMode}

/-- Cells are only touched in front of the right edge, wherever the cursor is. -/
theorem printCells_within (hrow : 0 ≤ m.cursorRow ∧ m.cursorRow < data.rows)
    (wString : List Char16) (index : Nat) :
    ∀ t ∈ (printCells data.columns m index wString).2.2, t.Within data := by
  induction wString generalizing index with
  | nil => simp [printCells]
  | cons c wString ih =>
      rw [printCells]
      split
      · next hprint =>
          have hcell : (Touch.cell m.cursorRow (addUintn (uintn m.cursorColumn) index)).Within
              data := ⟨hrow, by omega, by omega⟩
          dsimp only
          split
          · split
            · simp
            · rw [List.forall_mem_cons]
              exact ⟨hcell, ih _⟩
          · rw [List.forall_mem_cons]
            exact ⟨hcell, ih _⟩
      · simp

/-- The cursor comes to the right edge at most, but for a wide character that is left over. -/
theorem printCells_index (hcolumns : data.columns ≤ 0x80000000) {x : Nat}
    (hx : uintn m.cursorColumn = x) (wString : List Char16) {index : Nat}
    (hindex : x + index ≤ data.columns) :
    x + (printCells data.columns m index wString).1 ≤ data.columns ∨
      x + (printCells data.columns m index wString).1 = data.columns + 1 ∧
        ∃ c rest, (printCells data.columns m index wString).2.1 = c :: rest ∧
          isControl c = false := by
  have hadd : addUintn x index = x + index := addUintn_of_lt (by omega)
  have hone : addUintn index 1 = index + 1 := addUintn_of_lt (by omega)
  have htwo : addUintn index 2 = index + 2 := addUintn_of_lt (by omega)
  have hwide : addUintn (x + index) 2 = x + index + 2 := addUintn_of_lt (by omega)
  induction wString generalizing index with
  | nil => exact .inl hindex
  | cons c wString ih =>
      rw [printCells, hx, hadd]
      split
      · next hprint =>
          dsimp only
          rw [hone, htwo, hwide]
          split
          · split
            · exact .inr ⟨by dsimp only; omega, c, wString, rfl, by simpa using hprint.2⟩
            · exact ih (by omega) (addUintn_of_lt (by omega)) (addUintn_of_lt (by omega))
                (addUintn_of_lt (by omega)) (addUintn_of_lt (by omega))
          · exact ih (by omega) (addUintn_of_lt (by omega)) (addUintn_of_lt (by omega))
              (addUintn_of_lt (by omega)) (addUintn_of_lt (by omega))
      · exact .inl hindex

/-- Behind the right edge nothing is printed. -/
theorem printCells_outside (h : data.columns ≤ uintn m.cursorColumn) (c : Char16)
    (wString : List Char16) :
    printCells data.columns m 0 (c :: wString) = (0, c :: wString, []) := by
  have hadd : addUintn (uintn m.cursorColumn) 0 = uintn m.cursorColumn := by
    refine addUintn_of_lt ?_
    unfold uintn
    omega
  rw [printCells, hadd, if_neg (by omega)]

end Printing

/-! ## Where the cursor is -/

/-- The row of the cursor is one of the screen. -/
def RowOn (data : ModeData) (m : TextMode) : Prop := 0 ≤ m.cursorRow ∧ m.cursorRow < data.rows

/-- The column of the cursor is one of the screen. -/
def ColumnOn (data : ModeData) (m : TextMode) : Prop :=
  0 ≤ m.cursorColumn ∧ m.cursorColumn < data.columns

/-- Where the column is while calls have not returned. It leaves the screen at the end of a line
only: there is a call to bring it back, unless the `INT32` has overflowed. -/
inductive Column (data : ModeData) : List Activation → TextMode → Prop where
  | none {m : TextMode} : ColumnOn data m → Column data [] m
  | outer {m : TextMode} {call : Activation} : ColumnOn data m → Column data [call] m
  | lost {m : TextMode} {c : Char16} {wString : List Char16} {attr : UInt32} :
      data.columns = 0x7FFFFFFF → m.cursorColumn = -0x80000000 → isControl c = false →
      Column data [⟨c :: wString, attr⟩] m
  | crLf {m : TextMode} {attr : UInt32} {call : Activation} :
      Column data [⟨mCrLfString, attr⟩, call] m
  | back {m : TextMode} {wString : List Char16} {attr : UInt32} {call : Activation} :
      wString = [charLinefeed] ∨ wString = [] → m.cursorColumn = 0 →
      Column data [⟨wString, attr⟩, call] m

section Rounds

variable {data : ModeData} (hd : Addressable data) {m : TextMode}
include hd

theorem back_onScreen (hrow : RowOn data m) (hcolumn : ColumnOn data m) :
    RowOn data (m.back data.columns) ∧ ColumnOn data (m.back data.columns) := by
  rcases hd with ⟨hcolumns, hcolumnsFit, hrows, hrowsFit⟩
  unfold RowOn ColumnOn at *
  unfold TextMode.back
  split
  · dsimp only
    rw [int32_of_range (by omega) (by omega), int32_of_range (by omega) (by omega)]
    omega
  · split
    · dsimp only
      rw [int32_of_range (by omega) (by omega)]
      omega
    · exact ⟨hrow, hcolumn⟩

/-- A line feed goes to the next row, and on the last one scrolls the screen. -/
theorem lineFeed_onScreen (hrow : RowOn data m) (wString : List Char16) (attr : UInt32) :
    ∃ m' touches, outputRound32 data m ⟨charLinefeed :: wString, attr⟩ =
        (m', [⟨wString, attr⟩], touches) ∧
      m'.cursorColumn = m.cursorColumn ∧ m'.attr = m.attr ∧ RowOn data m' ∧
      ∀ t ∈ touches, t.Within data := by
  rcases hd with ⟨hcolumns, hcolumnsFit, hrows, hrowsFit⟩
  have hlast : int32 (data.rows - 1) = data.rows - 1 := int32_of_range (by omega) (by omega)
  unfold RowOn at *
  by_cases hrow' : m.cursorRow = int32 (data.rows - 1)
  · -- at the last row the screen scrolls, and the rows it touches are those on it
    refine ⟨m, scrollTouches data.columns m.cursorRow, ?_, rfl, rfl, hrow, ?_⟩
    · exact if_pos hrow'
    · have huintn := uintn_of_nonneg hrow.1 (by omega)
      unfold scrollTouches
      intro t ht
      rw [List.mem_append, List.mem_append, List.mem_singleton, List.mem_singleton,
        List.mem_flatMap] at ht
      rcases ht with (rfl | ⟨index, hindex, ht⟩) | rfl
      · exact ⟨⟨by omega, by omega⟩, by omega⟩
      · rw [List.mem_range, huintn] at hindex
        simp only [List.mem_cons, List.not_mem_nil, or_false] at ht
        rcases ht with rfl | rfl
        · exact ⟨⟨by omega, by omega⟩, Nat.le_refl _⟩
        · exact ⟨⟨by omega, by omega⟩, Nat.le_refl _⟩
      · exact ⟨hrow, Nat.le_refl _⟩
  · refine ⟨{ m with cursorRow := int32 (m.cursorRow + 1) }, [], ?_, rfl, rfl, ?_, by simp⟩
    · exact if_neg hrow'
    · dsimp only
      rw [int32_of_range (by omega) (by omega)]
      omega

theorem print_onScreen (hrow : RowOn data m) (hcolumn : ColumnOn data m) (call : Activation) :
    RowOn data (printRound data m call).1 ∧
      Column data (printRound data m call).2.1 (printRound data m call).1 ∧
      ∀ t ∈ (printRound data m call).2.2, t.Within data := by
  rcases hd with ⟨hcolumns, hcolumnsFit, hrows, hrowsFit⟩
  have hx := uintn_of_nonneg hcolumn.1 (by have := hcolumn.2; omega)
  have hmin := (int32_range (m.cursorColumn + (printCells data.columns m 0 call.wString).1)).1
  have hindex := @printCells_index data m hcolumnsFit _ hx call.wString 0
    (by have := hcolumn.2; omega)
  have hcells := printCells_within hrow call.wString 0
  have hlow := hcolumn.1
  -- the edge of the widest screen is the least `INT32`, and no column is in front of it
  have hedge : int32 data.columns = data.columns ∧ data.columns < 0x80000000 ∨
      int32 data.columns = -0x80000000 := by
    by_cases hwidest : data.columns = 0x80000000
    · right
      rw [hwidest]
      decide
    · left
      exact ⟨int32_of_range (by omega) (by omega), by omega⟩
  unfold printRound
  generalize printCells data.columns m 0 call.wString = printed at hindex hcells hmin
  rcases printed with ⟨index, rest, cells⟩
  dsimp only at hindex hcells hmin ⊢
  rw [int32_add_int32]
  split
  · exact ⟨hrow, .crLf, hcells⟩
  · next hinside =>
      obtain ⟨hedge, hnarrow⟩ : int32 data.columns = data.columns ∧ data.columns < 0x80000000 := by
        rcases hedge with hedge | hedge
        · exact hedge
        · omega
      rw [hedge] at hinside
      refine ⟨hrow, ?_, hcells⟩
      rcases hindex with hfits | ⟨hover, c, w, rfl, hc⟩
      · -- the line is not full
        rw [int32_of_range (by omega) (by omega)] at hinside
        refine .outer ⟨?_, ?_⟩
        · dsimp only
          rw [int32_of_range (by omega) (by omega)]
          omega
        · dsimp only
          rw [int32_of_range (by omega) (by omega)]
          omega
      · -- there is no call for the end of the line: the sum is no `INT32`
        have hlast : data.columns = 0x7FFFFFFF := by
          by_contra hne
          rw [int32_of_range (by omega) (by omega)] at hinside
          omega
        refine .lost hlast ?_ hc
        dsimp only
        have hsum : m.cursorColumn + (index : Int) = 0x80000000 := by omega
        rw [hsum]
        decide

/-- A round of the call that was made from outside, with the cursor on the screen. -/
theorem outer_round (hrow : RowOn data m) (hcolumn : ColumnOn data m) (call : Activation) :
    RowOn data (outputRound32 data m call).1 ∧
      Column data (outputRound32 data m call).2.1 (outputRound32 data m call).1 ∧
      ∀ t ∈ (outputRound32 data m call).2.2, t.Within data := by
  rcases call with ⟨wString, attr⟩
  cases wString with
  | nil => exact ⟨hrow, .none hcolumn, by simp [outputRound32]⟩
  | cons c wString =>
      unfold outputRound32
      dsimp only
      split
      · exact ⟨hrow, .none hcolumn, by simp⟩
      · split
        · -- backspace
          rcases back_onScreen hd hrow hcolumn with ⟨hrow', hcolumn'⟩
          refine ⟨hrow', .outer hcolumn', ?_⟩
          rw [List.forall_mem_singleton]
          exact ⟨hrow', hcolumn'⟩
        · split
          · -- line feed
            rename_i hlinefeed
            rcases lineFeed_onScreen hd hrow wString attr with
              ⟨m', touches, hround, hcol', -, hrow', htouches⟩
            have hcolumn' : ColumnOn data m' := by
              unfold ColumnOn
              rw [hcol']
              exact hcolumn
            have heq : (if m.cursorRow = int32 (data.rows - 1) then
                (m, [(⟨wString, attr⟩ : Activation)], scrollTouches data.columns m.cursorRow)
              else ({ m with cursorRow := int32 (m.cursorRow + 1) }, [⟨wString, attr⟩], [])) =
                (m', [⟨wString, attr⟩], touches) := hround
            rw [heq]
            exact ⟨hrow', .outer hcolumn', htouches⟩
          · split
            · -- carriage return
              have hcolumns := hd.columns
              exact ⟨hrow, .outer ⟨Int.le_refl 0, by dsimp only; omega⟩, by simp⟩
            · split
              · -- the two width attributes
                exact ⟨hrow, .outer hcolumn, by simp⟩
              · split
                · exact ⟨hrow, .outer hcolumn, by simp⟩
                · exact print_onScreen hd hrow hcolumn _

omit hd in
theorem outputRound32_print {c : Char16} (hc : isControl c = false) (wString : List Char16)
    (attr : UInt32) :
    outputRound32 data m ⟨c :: wString, attr⟩ = printRound data m ⟨c :: wString, attr⟩ := by
  simp only [isControl, Bool.or_eq_false_iff, decide_eq_false_iff_not] at hc
  rcases hc with ⟨⟨⟨⟨⟨hnull, hbackspace⟩, hlinefeed⟩, hreturn⟩, hwide⟩, hnarrow⟩
  unfold outputRound32
  dsimp only
  rw [if_neg hnull, if_neg hbackspace, if_neg hlinefeed, if_neg hreturn, if_neg hwide,
    if_neg hnarrow]

omit hd in
/-- Nothing is printed behind the right edge, and without a call for the end of the line the round
changes nothing. -/
theorem stuck_round (hlow : -0x80000000 ≤ m.cursorColumn) (hhigh : m.cursorColumn < 0x80000000)
    (houtside : data.columns ≤ uintn m.cursorColumn)
    (hnoCall : m.cursorColumn < int32 data.columns) {c : Char16} (hc : isControl c = false)
    (wString : List Char16) (attr : UInt32) :
    outputRound32 data m ⟨c :: wString, attr⟩ = (m, [⟨c :: wString, attr⟩], []) := by
  have hsame : int32 (m.cursorColumn + int32 (0 : Nat)) = m.cursorColumn := by
    rw [int32_add_int32, Int.natCast_zero, Int.add_zero, int32_of_range hlow hhigh]
  rw [outputRound32_print hc, printRound]
  dsimp only
  rw [printCells_outside houtside]
  dsimp only
  rw [hsame, if_neg (by omega)]

/-- A round of the innermost call. -/
theorem round_onScreen (hrow : RowOn data m) {call : Activation} {calls : List Activation}
    (hcolumn : Column data (call :: calls) m) :
    RowOn data (outputRound32 data m call).1 ∧
      Column data ((outputRound32 data m call).2.1 ++ calls) (outputRound32 data m call).1 ∧
      ∀ t ∈ (outputRound32 data m call).2.2, t.Within data := by
  cases hcolumn with
  | outer hcolumn =>
      rw [List.append_nil]
      exact outer_round hd hrow hcolumn call
  | lost hlast hlost hc =>
      -- the column is outside, so a round prints nothing and leaves all as it is
      have houtside : data.columns ≤ uintn m.cursorColumn := by
        have hneg := uintn_of_neg (x := m.cursorColumn) (by omega) (by omega)
        omega
      have hnoCall : m.cursorColumn < int32 data.columns := by
        rw [int32_of_range (by omega) (by omega)]
        omega
      rw [stuck_round (by omega) (by omega) houtside hnoCall hc]
      exact ⟨hrow, .lost hlast hlost hc, by simp⟩
  | crLf => exact ⟨hrow, .back (.inl rfl) rfl, by simp [outputRound32, mCrLfString,
      charCarriageReturn, charNull, charBackspace, charLinefeed]⟩
  | @back _ wString attr _ hwString hzero =>
      have hcolumns := hd.columns
      rcases hwString with rfl | rfl
      · -- behind the carriage return the line feed is left, and then nothing
        rcases lineFeed_onScreen hd hrow [] attr with
          ⟨m', touches, hround, hcol', -, hrow', htouches⟩
        rw [hround]
        exact ⟨hrow', .back (.inr rfl) (hcol'.trans hzero), htouches⟩
      · exact ⟨hrow, .outer ⟨hzero.ge, by show m.cursorColumn < _; omega⟩, by simp [outputRound32]⟩

end Rounds

/-! ## Runs -/

/-- The modes that are set are well-sized. -/
def OnWellSized (dev : TextOutput) : OutputLabel → Prop
  | .setMode modeNumber => ∀ data, dev.modeData[modeNumber]? = some data → WellSized data
  | _ => True

/-- The device before a mode is set. -/
def noMode (modeData : List ModeData) (m : TextMode) : TextOutput := ⟨modeData, none, m, []⟩

/-- Without a mode nothing is printed; with one, the cursor is where it should be. -/
structure OutputInv (dev : TextOutput) : Prop where
  idle : dev.current = none → dev.calls = []
  known : ∀ data, dev.current = some data →
    WellSized data ∧ RowOn data dev.textMode ∧ Column data dev.calls dev.textMode

/-- Between calls the cursor is on the screen. -/
def CursorOnScreen (dev : TextOutput) : Prop :=
  dev.calls = [] → ∀ data, dev.current = some data →
    (0 ≤ dev.textMode.cursorColumn ∧ dev.textMode.cursorColumn < data.columns) ∧
      0 ≤ dev.textMode.cursorRow ∧ dev.textMode.cursorRow < data.rows

/-- What a step touches is on the screen. -/
def TouchesScreen (dev : TextOutput) : Prop :=
  ∀ label dev' touches, outputStep dev label = some (dev', touches) →
    ∀ t ∈ touches, ∃ data, dev.current = some data ∧ t.Within data

theorem place_onScreen {data : ModeData} (hd : WellSized data) {m : TextMode}
    (hrow : RowOn data m) (hcolumn : ColumnOn data m) (column row : Nat) :
    RowOn data (m.place data column row) ∧ ColumnOn data (m.place data column row) := by
  rcases hd with ⟨hcolumns, hcolumnsFit, hrows, hrowsFit⟩
  unfold RowOn ColumnOn at *
  unfold TextMode.place
  split
  · exact ⟨hrow, hcolumn⟩
  · dsimp only
    rw [int32_of_range (by omega) (by omega), int32_of_range (by omega) (by omega)]
    omega

theorem OutputInv.round {dev dev' : TextOutput} (hinv : OutputInv dev) {call : Activation}
    {calls : List Activation} (hcalls : dev.calls = call :: calls) {label : OutputLabel}
    {touches : List Touch} (h : outputStep dev label = some (dev', touches)) :
    OutputInv dev' ∧ ∀ t ∈ touches, ∃ data, dev.current = some data ∧ t.Within data := by
  unfold outputStep at h
  rw [hcalls] at h
  dsimp only at h
  split at h
  · cases h
  · rcases Option.map_eq_some_iff.mp h with ⟨data, hdata, heq⟩
    rcases hinv.known data hdata with ⟨hd, hrow, hcolumn⟩
    rw [hcalls] at hcolumn
    rcases round_onScreen hd.addressable hrow hcolumn with ⟨hrow', hcolumn', htouches⟩
    cases heq
    constructor
    · constructor
      · intro hnone
        rw [show dev.current = none from hnone] at hdata
        cases hdata
      · intro data' hdata'
        rw [show dev.current = some data' from hdata'] at hdata
        cases hdata
        exact ⟨hd, hrow', hcolumn'⟩
    · exact fun t ht => ⟨data, hdata, htouches t ht⟩

/-- A device with a mode and the cursor on the screen. -/
theorem OutputInv.of_onScreen {dev : TextOutput} {data : ModeData} (hdata : dev.current = some data)
    (hd : WellSized data) (hrow : RowOn data dev.textMode) (hcolumn : ColumnOn data dev.textMode)
    (hcalls : dev.calls.length ≤ 1) : OutputInv dev := by
  constructor
  · intro hnone
    rw [hnone] at hdata
    cases hdata
  · intro data' hdata'
    rw [hdata'] at hdata
    cases hdata
    refine ⟨hd, hrow, ?_⟩
    cases hcase : dev.calls with
    | nil => exact .none hcolumn
    | cons call calls =>
        cases calls with
        | nil => exact .outer hcolumn
        | cons call' calls =>
            rw [hcase, List.length_cons, List.length_cons] at hcalls
            omega

theorem OutputInv.onScreen {dev : TextOutput} (hinv : OutputInv dev) (hcalls : dev.calls = [])
    {data : ModeData} (hdata : dev.current = some data) :
    WellSized data ∧ RowOn data dev.textMode ∧ ColumnOn data dev.textMode := by
  rcases hinv.known data hdata with ⟨hd, hrow, hcolumn⟩
  rw [hcalls] at hcolumn
  cases hcolumn with
  | none hcolumn => exact ⟨hd, hrow, hcolumn⟩

/-- A mode that is set anew has its cursor in the upper left corner. -/
theorem OutputInv.setMode {dev : TextOutput} (hinv : OutputInv dev) (hcalls : dev.calls = [])
    {modeNumber : Nat} (hok : OnWellSized dev (.setMode modeNumber)) :
    OutputInv (dev.setMode modeNumber) := by
  unfold TextOutput.setMode
  cases hdata : dev.modeData[modeNumber]? with
  | none => exact hinv
  | some data =>
      dsimp only
      split
      · have hd := hok data hdata
        have hcolumns := hd.columns
        have hrows := hd.rows
        refine .of_onScreen hdata hd ⟨Int.le_refl 0, ?_⟩ ⟨Int.le_refl 0, ?_⟩ ?_
        · dsimp only
          omega
        · dsimp only
          omega
        · rw [hcalls]
          exact Nat.zero_le _
      · exact hinv

theorem OutputInv.call {dev : TextOutput} (hinv : OutputInv dev) (hcalls : dev.calls = [])
    {label : OutputLabel} (hok : OnWellSized dev label) : OutputInv (dev.call label) := by
  have hfew : dev.calls.length ≤ 1 := by
    rw [hcalls]
    exact Nat.zero_le _
  cases label with
  | round => exact hinv
  | setMode modeNumber => exact hinv.setMode hcalls hok
  | outputString wString =>
      simp only [TextOutput.call]
      cases hdata : dev.current with
      | none => exact hinv
      | some data =>
          rcases hinv.onScreen hcalls hdata with ⟨hd, hrow, hcolumn⟩
          exact .of_onScreen hdata hd hrow hcolumn (Nat.le_refl 1)
  | setCursorPosition column row =>
      simp only [TextOutput.call]
      cases hdata : dev.current with
      | none => exact hinv
      | some data =>
          rcases hinv.onScreen hcalls hdata with ⟨hd, hrow, hcolumn⟩
          rcases place_onScreen hd hrow hcolumn column row with ⟨hrow', hcolumn'⟩
          exact .of_onScreen hdata hd hrow' hcolumn' hfew
  | setAttribute attr =>
      simp only [TextOutput.call]
      split
      · exact hinv
      · cases hdata : dev.current with
        | none =>
            refine ⟨fun _ => hcalls, fun data hsome => ?_⟩
            rw [show dev.current = some data from hsome] at hdata
            cases hdata
        | some data =>
            rcases hinv.onScreen hcalls hdata with ⟨hd, hrow, hcolumn⟩
            exact .of_onScreen hdata hd hrow hcolumn hfew
  | clearScreen =>
      simp only [TextOutput.call]
      cases hdata : dev.current with
      | none => exact hinv
      | some data =>
          rcases hinv.onScreen hcalls hdata with ⟨hd, -, -⟩
          have hcolumns := hd.columns
          have hrows := hd.rows
          refine .of_onScreen hdata hd ⟨Int.le_refl 0, ?_⟩ ⟨Int.le_refl 0, ?_⟩ hfew
          · dsimp only
            omega
          · dsimp only
            omega

theorem OutputInv.step {dev dev' : TextOutput} (hinv : OutputInv dev) {label : OutputLabel}
    (hok : OnWellSized dev label) {touches : List Touch}
    (h : outputStep dev label = some (dev', touches)) : OutputInv dev' := by
  cases hcalls : dev.calls with
  | cons call calls => exact (hinv.round hcalls h).1
  | nil =>
      unfold outputStep at h
      rw [hcalls] at h
      dsimp only at h
      split at h
      · cases h
      · cases h
        exact hinv.call hcalls hok

theorem OutputInv.touchesScreen {dev : TextOutput} (hinv : OutputInv dev) : TouchesScreen dev := by
  intro label dev' touches h
  cases hcalls : dev.calls with
  | cons call calls => exact (hinv.round hcalls h).2
  | nil =>
      unfold outputStep at h
      rw [hcalls] at h
      dsimp only at h
      split at h
      · cases h
      · cases h
        simp

/-- In every run on well-sized modes the cursor is on the screen between calls, and what is
touched is on it. -/
theorem cursor_onScreen {modeData : List ModeData} {m : TextMode} {dev : TextOutput}
    {h : List Touch} (hr : Reach outputStep OnWellSized (noMode modeData m) dev h) :
    CursorOnScreen dev ∧ TouchesScreen dev := by
  have hinit : OutputInv (noMode modeData m) := ⟨fun _ => rfl, fun _ h => nomatch h⟩
  have hinv : OutputInv dev := hr.invariant (fun dev _ => OutputInv dev) hinit
    fun _ _ _ _ _ hinv hok hstep => hinv.step hok hstep
  refine ⟨?_, hinv.touchesScreen⟩
  intro hcalls data hdata
  rcases hinv.onScreen hcalls hdata with ⟨-, hrow, hcolumn⟩
  exact ⟨hcolumn, hrow⟩

/-- A wide character that is left over for the next line. -/
def wideRun : List OutputLabel :=
  [.setMode 0, .setCursorPosition 2 0, .outputString [wideChar, 0x4E2D], .round, .round, .round,
    .round, .round]

theorem wide_character_onScreen : ∃ dev h,
    run outputStep (noMode [⟨3, 1⟩] ⟨0, 0, 7⟩) wideRun = some (dev, h) ∧
      dev.calls = [⟨[0x4E2D], 7⟩] ∧ CursorOnScreen dev ∧ TouchesScreen dev := by
  have hrun : ∃ dev h, run outputStep (noMode [⟨3, 1⟩] ⟨0, 0, 7⟩) wideRun = some (dev, h) ∧
      dev.calls = [⟨[0x4E2D], 7⟩] := ⟨_, _, rfl, rfl⟩
  rcases hrun with ⟨dev, h, hrun, hcalls⟩
  have hok : Guarded outputStep OnWellSized (noMode [⟨3, 1⟩] ⟨0, 0, 7⟩) wideRun := by
    refine ⟨?_, fun _ _ _ => ⟨trivial, fun _ _ _ => ⟨trivial, fun _ _ _ => ⟨trivial, fun _ _ _ =>
      ⟨trivial, fun _ _ _ => ⟨trivial, fun _ _ _ => ⟨trivial, fun _ _ _ => ⟨trivial, fun _ _ _ =>
        trivial⟩⟩⟩⟩⟩⟩⟩⟩
    intro data hdata
    cases hdata
    exact ⟨by decide, by decide, by decide, by decide⟩
  exact ⟨dev, h, hrun, hcalls, cursor_onScreen (Reach.of_run hok hrun)⟩

end EfiLvgl.Console
