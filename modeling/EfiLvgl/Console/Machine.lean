import EfiLvgl.Console.Scrollback
import EfiLvgl.Console.Rounds

/-!
# EfiLvgl.Console.Machine — the console with the integers of the machine

`outputString` reads off the cursor what a string does to the screen, with natural numbers; the
rounds of `OutputString` have the integers of the machine. On a mode that the cursor cannot leave
by an overflow they come to the same: in every run of the console the machine reaches the same
cursor, and touches of the screen what is changed, in the same order (`reach_of_run`).
-/

namespace EfiLvgl.Console

open EfiLvgl.Run

/-! ## What the two have in common -/

/-- What of `ScreenBuffer` `OutputString` touches for it; it makes no use of the other two. -/
def ScreenOp.touches (columns : Nat) : ScreenOp → List Touch
  | .erase row column => [.cell row column]
  | .put row column _ => [.cell row column]
  | .scroll row => scrollTouches columns row
  | .clear _ => []
  | .clearHistory => []

/-- What is touched for one after the other. -/
def allTouches (columns : Nat) (ops : List ScreenOp) : List Touch :=
  ops.flatMap (ScreenOp.touches columns)

@[simp] theorem allTouches_nil (columns : Nat) : allTouches columns [] = [] := rfl

@[simp] theorem allTouches_cons (columns : Nat) (op : ScreenOp) (ops : List ScreenOp) :
    allTouches columns (op :: ops) = op.touches columns ++ allTouches columns ops := rfl

@[simp] theorem allTouches_append (columns : Nat) (ops ops' : List ScreenOp) :
    allTouches columns (ops ++ ops') = allTouches columns ops ++ allTouches columns ops' :=
  List.flatMap_append

/-- The cursor and the attribute as the machine has them. -/
def Cursor.textMode (cursor : Cursor) : TextMode :=
  ⟨cursor.column, cursor.row, cursor.attr.toUInt32⟩

/-- The device as the machine has it, with calls that have not returned. -/
def ConsoleDev.printing (dev : ConsoleDev) (m : TextMode) (calls : List Activation) : TextOutput :=
  ⟨dev.modeData, dev.mode, m, calls⟩

/-- The device as the machine has it between calls. -/
def ConsoleDev.textOutput (dev : ConsoleDev) : TextOutput := dev.printing dev.cursor.textMode []

/-- A mode whose cursor stays an `INT32` wherever the loop takes it. -/
structure RoomyMode (data : ModeData) : Prop extends WellSized data where
  edge : data.columns < 0x7FFFFFFF

/-! ## The attribute -/

/-- The bit for wide characters is one of those that the machine has. -/
theorem wide_iff (attr : UInt64) :
    attr.toUInt32 &&& wideAttribute ≠ 0 ↔ attr &&& efiWideAttribute ≠ 0 := by
  have hle : (attr &&& efiWideAttribute).toNat ≤ 0x80 := by
    rw [UInt64.toNat_and]
    exact Nat.and_le_right
  have htoUInt32 : attr.toUInt32 &&& wideAttribute = (attr &&& efiWideAttribute).toUInt32 := by
    rw [UInt64.toUInt32_and]
    rfl
  rw [not_iff_not, htoUInt32, ← UInt32.toNat_inj, ← UInt64.toNat_inj, UInt64.toNat_toUInt32,
    Nat.mod_eq_of_lt (by omega)]
  rfl

theorem toUInt32_or_wide (attr : UInt64) :
    (attr ||| efiWideAttribute).toUInt32 = attr.toUInt32 ||| wideAttribute := by
  rw [UInt64.toUInt32_or]
  rfl

theorem toUInt32_and_narrow (attr : UInt64) :
    (attr &&& ~~~efiWideAttribute).toUInt32 = attr.toUInt32 &&& ~~~wideAttribute := by
  rw [UInt64.toUInt32_and, UInt64.toUInt32_not]
  rfl

/-! ## One round -/

/-- The cells that are written. -/
theorem printCells_eq {data : ModeData} (hd : RoomyMode data) (cursor : Cursor)
    (wString : List Char16) {index : Nat} (hindex : cursor.column + index ≤ data.columns) :
    printCells data.columns cursor.textMode index wString =
      ((printLoop data.columns cursor index wString).1,
        (printLoop data.columns cursor index wString).2.1,
        allTouches data.columns (printLoop data.columns cursor index wString).2.2) := by
  have hedge := hd.edge
  induction wString generalizing index with
  | nil => rfl
  | cons c wString ih =>
      have hcolumn : uintn (cursor.column : Int) = cursor.column := by
        rw [uintn_of_nonneg (by omega) (by omega), Int.toNat_natCast]
      have hadd : addUintn cursor.column index = cursor.column + index :=
        addUintn_of_lt (by omega)
      have hone : addUintn index 1 = index + 1 := addUintn_of_lt (by omega)
      have htwo : addUintn index 2 = index + 2 := addUintn_of_lt (by omega)
      -- on a mode of this size none of the sums of UINTNs wraps
      have hover : addUintn (cursor.column + index) 2 = cursor.column + index + 2 :=
        addUintn_of_lt (by omega)
      have hwide : (cursor.textMode.attr &&& wideAttribute ≠ 0) =
          (cursor.attr &&& efiWideAttribute ≠ 0) := propext (wide_iff cursor.attr)
      have htextMode : cursor.textMode.cursorColumn = cursor.column := rfl
      rw [printCells, printLoop, htextMode, hcolumn, hadd]
      split
      · dsimp only
        rw [hone, htwo, hover]
        simp only [hwide]
        split
        · split
          · rfl
          · rw [ih (by omega)]
            rfl
        · rw [ih (by omega)]
          rfl
      · rfl

/-- A backspace. -/
theorem textMode_back {data : ModeData} (hd : RoomyMode data) {cursor : Cursor}
    (hcursor : cursor.OnScreen data) :
    cursor.textMode.back data.columns = (cursor.back data.columns).textMode := by
  rcases hd with ⟨⟨hcolumns, -, hrows, hrowsFit⟩, hedge⟩
  rcases hcursor with ⟨hcolumn, hrow⟩
  have htextColumn : cursor.textMode.cursorColumn = cursor.column := rfl
  have htextRow : cursor.textMode.cursorRow = cursor.row := rfl
  unfold TextMode.back Cursor.back
  rw [htextColumn, htextRow]
  by_cases hleft : cursor.column = 0 ∧ 0 < cursor.row
  · rw [if_pos hleft, if_pos (by omega), int32_of_range (by omega) (by omega),
      int32_of_range (by omega) (by omega)]
    unfold Cursor.textMode
    rw [TextMode.mk.injEq]
    dsimp only
    refine ⟨by omega, by omega, rfl⟩
  · rw [if_neg hleft, if_neg (by omega)]
    by_cases hright : 0 < cursor.column
    · rw [if_pos hright, if_pos (by omega), int32_of_range (by omega) (by omega)]
      unfold Cursor.textMode
      rw [TextMode.mk.injEq]
      dsimp only
      exact ⟨by omega, rfl, rfl⟩
    · rw [if_neg hright, if_neg (by omega)]

/-- A line feed. -/
theorem linefeed_round {data : ModeData} (hd : RoomyMode data) {cursor : Cursor}
    (hrow : cursor.row < data.rows) (wString : List Char16) (attr : UInt32) :
    outputRound32 data cursor.textMode ⟨charLinefeed :: wString, attr⟩ =
      if cursor.row = data.rows - 1 then
        (cursor.textMode, [⟨wString, attr⟩], scrollTouches data.columns cursor.row)
      else (Cursor.textMode { cursor with row := cursor.row + 1 }, [⟨wString, attr⟩], []) := by
  rcases hd with ⟨⟨-, -, hrows, hrowsFit⟩, -⟩
  have hlast : int32 (data.rows - 1) = data.rows - 1 := int32_of_range (by omega) (by omega)
  have hround : outputRound32 data cursor.textMode ⟨charLinefeed :: wString, attr⟩ =
      if (cursor.row : Int) = int32 (data.rows - 1) then
        (cursor.textMode, [⟨wString, attr⟩], scrollTouches data.columns cursor.row)
      else
        ({ cursor.textMode with cursorRow := int32 (cursor.row + 1) }, [⟨wString, attr⟩], []) := rfl
  rw [hround, hlast]
  by_cases hrow' : cursor.row = data.rows - 1
  · rw [if_pos hrow', if_pos (by omega)]
  · rw [if_neg hrow', if_neg (by omega), int32_of_range (by omega) (by omega)]
    rfl

/-- A round of the loop that prints, as `outputRound32_print`. -/
theorem outputRound_print {maxColumn maxRow : Nat} {crLf : Cursor → Option (Cursor × List ScreenOp)}
    {cursor : Cursor} {c : Char16} (hc : isControl c = false) (wString : List Char16)
    {index : Nat} {rest : List Char16} {ops : List ScreenOp}
    (hprinted : printLoop maxColumn cursor 0 (c :: wString) = (index, rest, ops)) :
    outputRound maxColumn maxRow crLf cursor c wString =
      if maxColumn ≤ cursor.column + index then
        (crLf { cursor with column := cursor.column + index }).map fun p =>
          ({ p.1 with attr := cursor.attr }, rest, ops ++ p.2)
      else some ({ cursor with column := cursor.column + index }, rest, ops) := by
  simp only [isControl, Bool.or_eq_false_iff, decide_eq_false_iff_not] at hc
  rcases hc with ⟨⟨⟨⟨⟨hnull, hbackspace⟩, hlinefeed⟩, hreturn⟩, hwide⟩, hnarrow⟩
  unfold outputRound
  rw [if_neg hbackspace, if_neg hlinefeed, if_neg hreturn, if_neg hwide, if_neg hnarrow, hprinted]

/-- What the machine does in such a round. -/
theorem print_round {data : ModeData} (hd : RoomyMode data) {cursor : Cursor}
    (hcursor : cursor.OnScreen data) {c : Char16} (hc : isControl c = false)
    (wString : List Char16) {index : Nat} {rest : List Char16} {ops : List ScreenOp}
    (hprinted : printLoop data.columns cursor 0 (c :: wString) = (index, rest, ops))
    (attr : UInt32) :
    outputRound32 data cursor.textMode ⟨c :: wString, attr⟩ =
      (Cursor.textMode { cursor with column := cursor.column + index },
        if data.columns ≤ cursor.column + index then
          [⟨mCrLfString, cursor.textMode.attr⟩, ⟨rest, attr⟩]
        else [⟨rest, attr⟩], allTouches data.columns ops) := by
  rcases hd with ⟨⟨hcolumns, hfit, hrows, hrowsFit⟩, hedge⟩
  rcases hcursor with ⟨hcolumn, hrow⟩
  have hinside : cursor.column + 0 ≤ data.columns := by omega
  have hcells := printCells_eq ⟨⟨hcolumns, hfit, hrows, hrowsFit⟩, hedge⟩ cursor (c :: wString)
    hinside
  have huintn : uintn cursor.textMode.cursorColumn = cursor.column := by
    show uintn (cursor.column : Int) = cursor.column
    rw [uintn_of_nonneg (by omega) (by omega), Int.toNat_natCast]
  have hindex := printCells_index (Nat.le_of_lt hfit) huintn (c :: wString) hinside
  rw [hcells, hprinted] at hindex
  rw [hprinted] at hcells
  dsimp only at hcells hindex
  have hbound : cursor.column + index ≤ data.columns + 1 := by
    rcases hindex with hfits | ⟨hover, -⟩
    · omega
    · omega
  -- the column is beyond the right edge by one at most, which is an `INT32`
  have hsum : int32 ((cursor.column : Int) + int32 index) = (cursor.column + index : Nat) := by
    rw [int32_add_int32, int32_of_range (by omega) (by omega)]
    omega
  have hright : int32 data.columns = data.columns := int32_of_range (by omega) (by omega)
  have htextColumn : cursor.textMode.cursorColumn = cursor.column := rfl
  rw [outputRound32_print hc]
  simp only [printRound, hcells, htextColumn, hsum, hright]
  by_cases hwraps : data.columns ≤ cursor.column + index
  · rw [if_pos hwraps, if_pos (by omega)]
    rfl
  · rw [if_neg hwraps, if_neg (by omega)]
    rfl

/-- A round that does not print. -/
theorem control_round32 {data : ModeData} (hd : RoomyMode data)
    {crLf : Cursor → Option (Cursor × List ScreenOp)} {cursor next : Cursor}
    (hcursor : cursor.OnScreen data) {c : Char16} (hnull : c ≠ charNull) (hc : isControl c = true)
    {wString rest : List Char16} {ops : List ScreenOp}
    (h : outputRound data.columns data.rows crLf cursor c wString = some (next, rest, ops))
    (attr : UInt32) :
    outputRound32 data cursor.textMode ⟨c :: wString, attr⟩ =
      (next.textMode, [⟨rest, attr⟩], allTouches data.columns ops) := by
  by_cases hlinefeed : c = charLinefeed
  · subst hlinefeed
    rw [outputRound_lf] at h
    rw [linefeed_round hd hcursor.2]
    split at h
    · next hlast =>
        cases h
        rw [if_pos hlast]
        simp [ScreenOp.touches]
    · next hlast =>
        cases h
        rw [if_neg hlast]
        rfl
  · unfold outputRound at h
    unfold outputRound32
    dsimp only
    rw [if_neg hnull, if_neg hlinefeed]
    rw [if_neg hlinefeed] at h
    split at h
    · next hbackspace =>
        cases h
        rw [if_pos hbackspace, textMode_back hd hcursor]
        rfl
    · next hbackspace =>
        rw [if_neg hbackspace]
        split at h
        · next hreturn =>
            cases h
            rw [if_pos hreturn]
            rfl
        · next hreturn =>
            rw [if_neg hreturn]
            split at h
            · next hwide =>
                -- the two width attributes
                cases h
                rw [if_pos hwide]
                unfold Cursor.textMode
                rw [toUInt32_or_wide]
                rfl
            · next hwide =>
                rw [if_neg hwide]
                split at h
                · next hnarrow =>
                    cases h
                    rw [if_pos hnarrow]
                    unfold Cursor.textMode
                    rw [toUInt32_and_narrow]
                    rfl
                · next hnarrow =>
                    simp [isControl, hnull, hbackspace, hlinefeed, hreturn, hwide, hnarrow] at hc

section Rounds

variable {data : ModeData} {dev : ConsoleDev} (hdata : dev.current = some data)
include hdata

/-- A round of the innermost call. -/
theorem reach_round {m m' : TextMode} {call : Activation} {inner : List Activation}
    {touches : List Touch} (h : outputRound32 data m call = (m', inner, touches))
    (calls : List Activation) :
    Reach outputStep OnWellSized (dev.printing m (call :: calls)) (dev.printing m' (inner ++ calls))
      touches := by
  have hcurrent : (dev.printing m (call :: calls)).current = some data := hdata
  have hcalls : (dev.printing m (call :: calls)).calls = call :: calls := rfl
  have htextMode : (dev.printing m (call :: calls)).textMode = m := rfl
  have hround : OnWellSized (dev.printing m (call :: calls)) .round := trivial
  refine .single hround ?_
  unfold outputStep
  rw [hcalls]
  dsimp only
  rw [if_neg (not_not.mpr rfl), hcurrent, Option.map_some, htextMode, h]
  rfl

/-- The call for the end of a line, wherever the column is. -/
theorem reach_crLf (hd : RoomyMode data) {crLf : Cursor → Option (Cursor × List ScreenOp)}
    (hcrLf : CrLf data.rows crLf) {cursor cursor' : Cursor} (hrow : cursor.row < data.rows)
    {ops : List ScreenOp} (h : crLf cursor = some (cursor', ops)) (calls : List Activation) :
    Reach outputStep OnWellSized
      (dev.printing cursor.textMode (⟨mCrLfString, cursor.textMode.attr⟩ :: calls))
      (dev.printing (Cursor.textMode { cursor' with attr := cursor.attr }) calls)
      (allTouches data.columns ops) := by
  have hfirst : Cursor.OnScreen data { cursor with column := 0 } :=
    ⟨by have := hd.columns; dsimp only; omega, hrow⟩
  have hreturn : outputRound32 data cursor.textMode ⟨mCrLfString, cursor.textMode.attr⟩ =
      (Cursor.textMode { cursor with column := 0 }, [⟨[charLinefeed], cursor.textMode.attr⟩], []) :=
    rfl
  have hlinefeed := linefeed_round hd hfirst.2 [] cursor.textMode.attr
  have hend : ∀ cursor₁ : Cursor, cursor₁.attr = cursor.attr →
      outputRound32 data cursor₁.textMode ⟨[], cursor.textMode.attr⟩ =
        (cursor₁.textMode, [], []) := by
    intro cursor₁ hattr
    unfold Cursor.textMode outputRound32
    rw [hattr]
  rcases hcrLf cursor cursor' ops h with ⟨hcolumn, hcases⟩
  -- three rounds: the carriage return, the line feed, and the end of the string
  rcases hcases with ⟨hlast, hrow', rfl⟩ | ⟨hlast, hrow', rfl⟩
  · rw [if_pos hlast] at hlinefeed
    have hcursor' : ({ cursor' with attr := cursor.attr } : Cursor) =
        { cursor with column := 0 } := by
      rw [Cursor.mk.injEq]
      exact ⟨hcolumn, hrow', rfl⟩
    rw [hcursor']
    have hlast' := reach_round hdata (hend ⟨0, cursor.row, cursor.attr⟩ rfl) calls
    have hreach := ((reach_round hdata hreturn calls).trans
      (reach_round hdata hlinefeed calls)).trans hlast'
    simpa [ScreenOp.touches] using hreach
  · rw [if_neg hlast] at hlinefeed
    have hcursor' : ({ cursor' with attr := cursor.attr } : Cursor) =
        { cursor with column := 0, row := cursor.row + 1 } := by
      rw [Cursor.mk.injEq]
      exact ⟨hcolumn, hrow', rfl⟩
    rw [hcursor']
    have hlast' := reach_round hdata (hend ⟨0, cursor.row + 1, cursor.attr⟩ rfl) calls
    have hreach := ((reach_round hdata hreturn calls).trans
      (reach_round hdata hlinefeed calls)).trans hlast'
    simpa using hreach

/-- A round that prints. -/
theorem reach_print (hd : RoomyMode data) {crLf : Cursor → Option (Cursor × List ScreenOp)}
    (hcrLf : CrLf data.rows crLf) {cursor next : Cursor} (hcursor : cursor.OnScreen data)
    {c : Char16} (hc : isControl c = false) {wString rest : List Char16} {ops : List ScreenOp}
    (h : outputRound data.columns data.rows crLf cursor c wString = some (next, rest, ops))
    (attr : UInt32) (calls : List Activation) :
    Reach outputStep OnWellSized (dev.printing cursor.textMode (⟨c :: wString, attr⟩ :: calls))
      (dev.printing next.textMode (⟨rest, attr⟩ :: calls)) (allTouches data.columns ops) := by
  rcases hprinted : printLoop data.columns cursor 0 (c :: wString) with ⟨index, left, puts⟩
  have hround := print_round hd hcursor hc wString hprinted attr
  rw [outputRound_print hc wString hprinted] at h
  by_cases hwraps : data.columns ≤ cursor.column + index
  · -- the line is full: the call for its end is on top of this one
    rw [if_pos hwraps] at h hround
    rcases Option.map_eq_some_iff.mp h with ⟨⟨cursor', feeds⟩, hcall, heq⟩
    cases heq
    have hrow : Cursor.row { cursor with column := cursor.column + index } < data.rows := hcursor.2
    have hcrLfReach := reach_crLf hdata hd hcrLf hrow hcall (⟨rest, attr⟩ :: calls)
    rw [allTouches_append]
    exact (reach_round hdata hround calls).trans hcrLfReach
  · rw [if_neg hwraps] at h hround
    cases h
    exact reach_round hdata hround calls

/-- A round. -/
theorem reach_outputRound (hd : RoomyMode data)
    {crLf : Cursor → Option (Cursor × List ScreenOp)} (hcrLf : CrLf data.rows crLf)
    {cursor next : Cursor} (hcursor : cursor.OnScreen data) {c : Char16} (hnull : c ≠ charNull)
    {wString rest : List Char16} {ops : List ScreenOp}
    (h : outputRound data.columns data.rows crLf cursor c wString = some (next, rest, ops))
    (attr : UInt32) (calls : List Activation) :
    Reach outputStep OnWellSized (dev.printing cursor.textMode (⟨c :: wString, attr⟩ :: calls))
      (dev.printing next.textMode (⟨rest, attr⟩ :: calls)) (allTouches data.columns ops) := by
  cases hc : isControl c with
  | false => exact reach_print hdata hd hcrLf hcursor hc h attr calls
  | true => exact reach_round hdata (control_round32 hd hcursor hnull hc h attr) calls

/-- A string: the attribute is put back behind it. -/
theorem reach_outputLoop (hd : RoomyMode data) {fuel : Nat} :
    ∀ {cursor cursor' : Cursor} {wString : List Char16} {ops : List ScreenOp},
      cursor.OnScreen data →
      outputLoop data.columns data.rows fuel cursor wString = some (cursor', ops) →
      ∀ (attr : UInt64) (calls : List Activation),
        Reach outputStep OnWellSized
          (dev.printing cursor.textMode (⟨wString, attr.toUInt32⟩ :: calls))
          (dev.printing (Cursor.textMode { cursor' with attr := attr }) calls)
          (allTouches data.columns ops) := by
  have hend : ∀ (cursor : Cursor) (attr : UInt64), outputRound32 data cursor.textMode
      ⟨[], attr.toUInt32⟩ = (Cursor.textMode { cursor with attr := attr }, [], []) :=
    fun _ _ => rfl
  induction fuel with
  | zero =>
      intro cursor cursor' wString ops _ h
      cases h
  | succ fuel ih =>
      intro cursor cursor' wString ops hcursor h attr calls
      cases wString with
      | nil =>
          rcases outputLoop_nil h with ⟨rfl, rfl⟩
          exact reach_round hdata (hend _ attr) calls
      | cons c wString =>
          by_cases hnull : c = charNull
          · -- the string ends here
            subst hnull
            rw [outputLoop, if_pos rfl] at h
            cases h
            have hstop : outputRound32 data cursor.textMode
                ⟨charNull :: wString, attr.toUInt32⟩ =
                  (Cursor.textMode { cursor with attr := attr }, [], []) := rfl
            exact reach_round hdata hstop calls
          · rcases outputLoop_cons h with ⟨hzero, -⟩ | ⟨next, rest, ops₁, ops₂, hround, hloop, rfl⟩
            · exact absurd hzero hnull
            · have hcrLf := crLf_outputLoop data.columns data.rows fuel
              have hnext := (outputRound_onScreen hcrLf hcursor hround).1
              have hfirst :=
                reach_outputRound hdata hd hcrLf hcursor hnull hround attr.toUInt32 calls
              have hrest := ih hnext hloop attr calls
              rw [allTouches_append]
              exact hfirst.trans hrest

end Rounds

/-! ## Calls -/

section Calls

variable {data : ModeData} {dev dev' : ConsoleDev}

theorem SameMode.current (h : SameMode dev dev') : dev'.current = dev.current := by
  unfold ConsoleDev.current
  rw [h.modeData, h.mode]

theorem SameMode.printing (h : SameMode dev dev') (m : TextMode) (calls : List Activation) :
    dev'.printing m calls = dev.printing m calls := by
  unfold ConsoleDev.printing
  rw [h.modeData, h.mode]

/-- A call of the protocol that sets no mode. -/
theorem reach_call {label : OutputLabel} (hround : label ≠ .round)
    (hok : OnWellSized dev.textOutput label) :
    Reach outputStep OnWellSized dev.textOutput (dev.textOutput.call label) [] :=
  .single hok (if_neg hround)

theorem reach_outputString (hd : RoomyMode data) (hdata : dev.current = some data)
    (hcursor : dev.cursor.OnScreen data) {wString : List Char16} {cursor : Cursor}
    {ops : List ScreenOp}
    (h : outputLoop data.columns data.rows (loopBound wString) dev.cursor wString =
      some (cursor, ops)) :
    Reach outputStep OnWellSized dev.textOutput
      (dev.printing (Cursor.textMode { cursor with attr := dev.cursor.attr }) [])
      (allTouches data.columns ops) := by
  have hcall : dev.textOutput.call (.outputString wString) =
      dev.printing dev.cursor.textMode [⟨wString, dev.cursor.attr.toUInt32⟩] := by
    have hcurrent : dev.textOutput.current = some data := hdata
    simp only [TextOutput.call, hcurrent]
    rfl
  have hfirst : Reach outputStep OnWellSized dev.textOutput
      (dev.textOutput.call (.outputString wString)) [] := reach_call (by simp) trivial
  rw [hcall] at hfirst
  exact hfirst.trans (reach_outputLoop hdata hd hcursor h dev.cursor.attr [])

theorem reach_setCursorPosition (hd : RoomyMode data) (hdata : dev.current = some data)
    (column row : Nat) :
    Reach outputStep OnWellSized dev.textOutput
      (if data.columns ≤ column ∨ data.rows ≤ row then dev.textOutput
        else dev.printing (Cursor.textMode { dev.cursor with column := column, row := row }) [])
      [] := by
  have hedge := hd.edge
  have hrowsFit := hd.rowsFit
  have hcurrent : dev.textOutput.current = some data := hdata
  have hreach : Reach outputStep OnWellSized dev.textOutput
      (dev.textOutput.call (.setCursorPosition column row)) [] := reach_call (by simp) trivial
  have hcall : dev.textOutput.call (.setCursorPosition column row) =
      if data.columns ≤ column ∨ data.rows ≤ row then dev.textOutput
      else dev.printing (Cursor.textMode { dev.cursor with column := column, row := row }) [] := by
    simp only [TextOutput.call, hcurrent, TextMode.place]
    split
    · rfl
    · next hinside =>
        rw [int32_of_range (by omega) (by omega), int32_of_range (by omega) (by omega)]
        rfl
  rw [hcall] at hreach
  exact hreach

theorem reach_clearScreen (hdata : dev.current = some data) :
    Reach outputStep OnWellSized dev.textOutput
      (dev.printing (Cursor.textMode { dev.cursor with column := 0, row := 0 }) []) [] := by
  have hcurrent : dev.textOutput.current = some data := hdata
  have hreach : Reach outputStep OnWellSized dev.textOutput
      (dev.textOutput.call .clearScreen) [] := reach_call (by simp) trivial
  simp only [TextOutput.call, hcurrent] at hreach
  exact hreach

/-- A call, and what of the console is known behind it. -/
theorem reach_consoleStep (hd : RoomyMode data) (hdata : dev.current = some data)
    (hcursor : dev.cursor.OnScreen data) {call : ConsoleCall} {ops : List ScreenOp}
    (h : consoleStep dev call = some (dev', ops)) :
    Reach outputStep OnWellSized dev.textOutput dev'.textOutput (allTouches data.columns ops) ∧
      dev'.current = some data ∧ dev'.cursor.OnScreen data := by
  rcases Option.map_eq_some_iff.mp h with ⟨⟨status, dev₁, ops₁⟩, hresult, heq⟩
  cases heq
  cases call with
  | outputString wString =>
      simp only [callResult, outputString, hdata] at hresult
      rcases Option.bind_eq_some_iff.mp hresult with ⟨⟨cursor, ops₁⟩, hloop, hresult⟩
      rcases Option.bind_eq_some_iff.mp hresult with ⟨dev₂, happly, hresult⟩
      cases hresult
      have hmode := applyAll_sameMode happly
      refine ⟨?_, hmode.current.trans hdata, (outputLoop_onScreen hcursor hloop).1⟩
      have hreach := reach_outputString hd hdata hcursor hloop
      rw [← hmode.printing] at hreach
      exact hreach
  | setCursorPosition column row =>
      have hreach := reach_setCursorPosition hd hdata column row
      simp only [callResult, setCursorPosition, hdata] at hresult
      split at hresult
      · next houtside =>
          cases hresult
          exact ⟨.init, hdata, hcursor⟩
      · next hinside =>
          cases hresult
          rw [if_neg hinside] at hreach
          refine ⟨hreach, hdata, ?_, ?_⟩
          · dsimp only
            omega
          · dsimp only
            omega
  | setAttribute attr =>
      simp only [callResult, setAttribute] at hresult
      split at hresult
      · cases hresult
        exact ⟨.init, hdata, hcursor⟩
      · next hvalid =>
          cases hresult
          refine ⟨?_, hdata, hcursor⟩
          have hreach : Reach outputStep OnWellSized dev.textOutput
              (dev.textOutput.call (.setAttribute attr)) [] := reach_call (by simp) trivial
          simp only [TextOutput.call, if_neg hvalid] at hreach
          exact hreach
  | clearScreen =>
      simp only [callResult, clearScreen, hdata] at hresult
      rcases Option.bind_eq_some_iff.mp hresult with ⟨dev₂, happly, hresult⟩
      cases hresult
      have hmode := apply_sameMode happly
      have hcolumns := hd.columns
      have hrows := hd.rows
      refine ⟨?_, hmode.current.trans hdata, ?_, ?_⟩
      · have htextOutput : ConsoleDev.textOutput
            { dev₂ with cursor := { dev.cursor with column := 0, row := 0 } } =
              dev.printing (Cursor.textMode { dev.cursor with column := 0, row := 0 }) [] :=
          hmode.printing _ _
        rw [htextOutput]
        exact reach_clearScreen hdata
      · dsimp only
        omega
      · dsimp only
        omega
  | clearHistory =>
      simp only [callResult, clearHistory] at hresult
      rcases Option.bind_eq_some_iff.mp hresult with ⟨dev₂, happly, hresult⟩
      cases hresult
      have hmode := apply_sameMode happly
      -- the machine keeps no history
      have htextOutput : dev'.textOutput = dev.textOutput := by
        unfold ConsoleDev.textOutput
        rw [hmode.cursor, hmode.printing]
      rw [htextOutput, hmode.cursor]
      exact ⟨.init, hmode.current.trans hdata, hcursor⟩

/-- In every run of the console the machine reaches the same cursor, and what it touches is what
is changed of the screen, in the same order. -/
theorem reach_of_run (hd : RoomyMode data) :
    ∀ {calls : List ConsoleCall} {dev dev' : ConsoleDev} {ops : List ScreenOp},
      dev.current = some data → dev.cursor.OnScreen data →
      run consoleStep dev calls = some (dev', ops) →
        Reach outputStep OnWellSized dev.textOutput dev'.textOutput (allTouches data.columns ops)
  | [], dev, dev', ops, _, _, h => by
      cases h
      exact .init
  | call :: calls, dev, dev', ops, hdata, hcursor, h => by
      rcases run_cons h with ⟨dev₁, ops₁, ops₂, hcall, hrest, rfl⟩
      rcases reach_consoleStep hd hdata hcursor hcall with ⟨hreach, hdata₁, hcursor₁⟩
      rw [allTouches_append]
      exact hreach.trans (reach_of_run hd hdata₁ hcursor₁ hrest)

end Calls

end EfiLvgl.Console
