import EfiLvgl.Console.Rounds
import EfiLvgl.Lib.Halt

/-!
# EfiLvgl.Console.Returns — whether `OutputString` returns

A round may print nothing: the cursor is behind the right edge, or there is a wide character to
print in the last column. Then the end of a line has to bring the cursor to the first column, and
the character has to fit there. `SetMode` only turns down a mode without columns and rows, so that
neither is certain. And the cursor that `SetCursorPosition` leaves need not be one of the screen
where that has too many columns or rows, or none: what is touched then is no cell. `returns_iff`
says on which modes every call returns.
-/

namespace EfiLvgl.Console

/-- The next round of the calls that have not returned. -/
def nextRound (dev : TextOutput) : Option TextOutput := (outputStep dev .round).map Prod.fst

/-- The next round touches what is not on the screen: a fault. -/
def Faults (data : ModeData) (dev : TextOutput) : Prop :=
  ∃ dev' touches, outputStep dev .round = some (dev', touches) ∧ ∃ t ∈ touches, ¬ t.Within data

/-- The cursor is where `SetMode` or `SetCursorPosition` puts it. -/
structure Placed (data : ModeData) (m : TextMode) : Prop where
  column : m.cursorColumn = 0 ∨ ∃ column < data.columns, m.cursorColumn = int32 column
  row : m.cursorRow = 0 ∨ ∃ row < data.rows, m.cursorRow = int32 row

/-- The device when `OutputString` is called on a mode. -/
def called (data : ModeData) (m : TextMode) (wString : List Char16) : TextOutput :=
  TextOutput.call ⟨[data], some 0, m, []⟩ (.outputString wString)

/-- A call of `OutputString` on a mode returns: its rounds come to an end, and none is a fault. -/
structure Returns (data : ModeData) (m : TextMode) (wString : List Char16) : Prop where
  halts : Halts nextRound (called data m wString)
  noFault : ∀ dev, Halts.Leads nextRound (called data m wString) dev → ¬ Faults data dev

/-- All calls on a mode return. -/
def AllReturn (data : ModeData) : Prop := ∀ m wString, Placed data m → Returns data m wString

/-- There are two columns, and the cursor gets beyond the right edge: that is an `INT32` with two
more above it, or cut to the least of them. There is a row, and the last one is an `INT32`. -/
structure Roomy (data : ModeData) : Prop where
  columns : 2 ≤ data.columns ∧ data.columns < 0x7FFFFFFF ∨ data.columns = 0x80000000
  rows : 1 ≤ data.rows ∧ data.rows ≤ 0x80000000

theorem Roomy.addressable {data : ModeData} (hroomy : Roomy data) : Addressable data := by
  rcases hroomy with ⟨hcolumns, hrows, hrowsFit⟩
  exact ⟨by omega, by omega, hrows, hrowsFit⟩

/-! ## Rounds -/

/-- The device while calls on a mode have not returned. -/
def busy (data : ModeData) (m : TextMode) (calls : List Activation) : TextOutput :=
  ⟨[data], some 0, m, calls⟩

theorem nextRound_busy {data : ModeData} {m m' : TextMode} {call : Activation}
    {inner : List Activation} {touches : List Touch}
    (h : outputRound32 data m call = (m', inner, touches)) (calls : List Activation) :
    nextRound (busy data m (call :: calls)) = some (busy data m' (inner ++ calls)) := by
  show some (busy data (outputRound32 data m call).1
    ((outputRound32 data m call).2.1 ++ calls)) = _
  rw [h]

theorem halts_idle (data : ModeData) (m : TextMode) : Halts nextRound (busy data m []) := .stop rfl

section Rounds

variable {data : ModeData} {m : TextMode}

/-- The call for the end of a line takes the cursor to the first column. -/
theorem leads_crLf (attr : UInt32) (calls : List Activation) :
    ∃ m', Halts.Leads nextRound (busy data m (⟨mCrLfString, attr⟩ :: calls)) (busy data m' calls) ∧
      m'.cursorColumn = 0 ∧ m'.attr = attr ∧
      (Addressable data → RowOn data m → RowOn data m') := by
  have hreturn : outputRound32 data m ⟨mCrLfString, attr⟩ =
      ({ m with cursorColumn := 0 }, [⟨[charLinefeed], attr⟩], []) := rfl
  have hfeed : ∃ m' touches, outputRound32 data { m with cursorColumn := 0 }
      ⟨[charLinefeed], attr⟩ = (m', [⟨[], attr⟩], touches) ∧ m'.cursorColumn = 0 ∧
      (Addressable data → RowOn data m → RowOn data m') := by
    by_cases hrow : m.cursorRow = int32 (data.rows - 1)
    · exact ⟨_, _, if_pos hrow, rfl, fun _ hon => hon⟩
    · refine ⟨_, _, if_neg hrow, rfl, ?_⟩
      rintro ⟨-, -, hrows, hrowsFit⟩ ⟨hzero, hlt⟩
      rw [int32_of_range (by omega) (by omega)] at hrow
      refine ⟨?_, ?_⟩
      · dsimp only
        rw [int32_of_range (by omega) (by omega)]
        omega
      · dsimp only
        rw [int32_of_range (by omega) (by omega)]
        omega
  rcases hfeed with ⟨m', touches, hfeed, hzero, hrow⟩
  have hend : outputRound32 data m' ⟨[], attr⟩ = ({ m' with attr := attr }, [], []) := rfl
  refine ⟨{ m' with attr := attr }, ?_, hzero, rfl, hrow⟩
  exact .step (nextRound_busy hreturn calls) (.step (nextRound_busy hfeed calls)
    (.step (nextRound_busy hend calls) (.refl _)))

theorem printCells_length (wString : List Char16) (index : Nat) :
    (printCells data.columns m index wString).2.1.length ≤ wString.length := by
  induction wString generalizing index with
  | nil => exact Nat.le_refl 0
  | cons c wString ih =>
      rw [printCells]
      split
      · dsimp only
        split
        · split
          · exact Nat.le_refl _
          · exact Nat.le_succ_of_le (ih _)
        · exact Nat.le_succ_of_le (ih _)
      · exact Nat.le_refl _

theorem uintn_lt (x : Int) : uintn x < 0x10000000000000000 := by
  unfold uintn
  omega

/-- The first character is printed, or the cursor goes on by as much as its width. -/
theorem printCells_cons {c : Char16} (hc : isControl c = false) (wString : List Char16) :
    ((printCells data.columns m 0 (c :: wString)).2.1.length ≤ wString.length ∧
        uintn m.cursorColumn < data.columns ∧ (m.attr &&& wideAttribute = 0 ∨
          addUintn (uintn m.cursorColumn) 2 ≤ data.columns)) ∨
      (data.columns ≤ uintn m.cursorColumn ∧
        printCells data.columns m 0 (c :: wString) = (0, c :: wString, [])) ∨
      (m.attr &&& wideAttribute ≠ 0 ∧ uintn m.cursorColumn < data.columns ∧
        data.columns < addUintn (uintn m.cursorColumn) 2 ∧
        printCells data.columns m 0 (c :: wString) = (2, c :: wString, [])) := by
  have hadd : addUintn (uintn m.cursorColumn) 0 = uintn m.cursorColumn :=
    addUintn_of_lt (uintn_lt _)
  by_cases hinside : uintn m.cursorColumn < data.columns
  · have hprint : addUintn (uintn m.cursorColumn) 0 < data.columns ∧ ¬ isControl c := by
      rw [hadd]
      exact ⟨hinside, by simp [hc]⟩
    rw [printCells, if_pos hprint, hadd]
    dsimp only
    split
    · next hwide =>
        split
        · next hover => exact .inr (.inr ⟨hwide, hinside, hover, rfl⟩)
        · exact .inl ⟨printCells_length wString _, hinside, .inr (by omega)⟩
    · next hnarrow =>
        exact .inl ⟨printCells_length wString _, hinside, .inl (not_not.mp hnarrow)⟩
  · exact .inr (.inl ⟨by omega, printCells_outside (by omega) c wString⟩)

/-- A round for a printable character either takes it off the string, or leaves the string as it
is and the cursor where it is or by two columns further. -/
theorem print_cases {c : Char16} (hc : isControl c = false) (wString : List Char16)
    (attr : UInt32) :
    ((∃ index rest cells, rest.length ≤ wString.length ∧
        printCells data.columns m 0 (c :: wString) = (index, rest, cells)) ∧
      uintn m.cursorColumn < data.columns ∧ (m.attr &&& wideAttribute = 0 ∨
        addUintn (uintn m.cursorColumn) 2 ≤ data.columns)) ∨
    ∃ index, (index = 0 ∧ data.columns ≤ uintn m.cursorColumn ∨
        index = 2 ∧ m.attr &&& wideAttribute ≠ 0 ∧ uintn m.cursorColumn < data.columns ∧
          data.columns < addUintn (uintn m.cursorColumn) 2) ∧
      outputRound32 data m ⟨c :: wString, attr⟩ =
        if int32 data.columns ≤ int32 (m.cursorColumn + index) then
          ({ m with cursorColumn := int32 (m.cursorColumn + index) },
            [⟨mCrLfString, m.attr⟩, ⟨c :: wString, attr⟩], [])
        else
          ({ m with cursorColumn := int32 (m.cursorColumn + index) },
            [⟨c :: wString, attr⟩], []) := by
  -- the character is printed, or nothing is: outside the row, or too wide for its last cell
  rcases printCells_cons hc wString with ⟨hprinted, hroom⟩ | ⟨houtside, heq⟩ |
    ⟨hwide, hinside, hover, heq⟩
  · exact .inl ⟨⟨_, _, _, hprinted, rfl⟩, hroom⟩
  · refine .inr ⟨0, .inl ⟨rfl, houtside⟩, ?_⟩
    rw [outputRound32_print hc, printRound]
    dsimp only
    rw [heq]
    dsimp only
    rw [int32_add_int32]
    rfl
  · refine .inr ⟨2, .inr ⟨rfl, hwide, hinside, hover⟩, ?_⟩
    rw [outputRound32_print hc, printRound]
    dsimp only
    rw [heq]
    dsimp only
    rw [int32_add_int32]
    rfl

end Rounds

/-! ## Modes with room -/

theorem edge_of_roomy {data : ModeData} (hroomy : Roomy data) :
    int32 data.columns = data.columns ∧ data.columns < 0x7FFFFFFF ∨
      int32 data.columns = -0x80000000 := by
  rcases hroomy.columns with ⟨htwo, hfits⟩ | hwidest
  · exact .inl ⟨int32_of_range (by omega) (by omega), hfits⟩
  · right
    rw [hwidest]
    decide

section Room

variable {data : ModeData} (hroomy : Roomy data) {m : TextMode}
include hroomy

/-- Where nothing is printed, there was a wide character in the last column, and the end of the line
is reached. -/
theorem edge_reached (hon : ColumnOn data m) {index : Int}
    (h : index = 0 ∧ data.columns ≤ uintn m.cursorColumn ∨
      index = 2 ∧ m.attr &&& wideAttribute ≠ 0 ∧ uintn m.cursorColumn < data.columns ∧
        data.columns < addUintn (uintn m.cursorColumn) 2) :
    int32 data.columns ≤ int32 (m.cursorColumn + index) := by
  rcases hon with ⟨hzero, hinside⟩
  have hfits := hroomy.addressable.columnsFit
  have hmin := (int32_range (m.cursorColumn + index)).1
  have huintn := uintn_of_nonneg hzero (by omega)
  rcases edge_of_roomy hroomy with ⟨hedge, hnarrow⟩ | hedge
  · rcases h with ⟨rfl, houtside⟩ | ⟨rfl, -, -, hover⟩
    · omega
    · rw [addUintn_of_lt (by omega)] at hover
      rw [hedge, int32_of_range (by omega) (by omega)]
      omega
  · omega

/-- In the first column a character is printed. -/
theorem printed_in_first (hzero : m.cursorColumn = 0) :
    ¬ ∃ index : Int, (index = 0 ∧ data.columns ≤ uintn m.cursorColumn ∨
      index = 2 ∧ m.attr &&& wideAttribute ≠ 0 ∧ uintn m.cursorColumn < data.columns ∧
        data.columns < addUintn (uintn m.cursorColumn) 2) := by
  have htwo := hroomy.addressable.columns
  have huintn : uintn m.cursorColumn = 0 := by rw [hzero]; rfl
  have hadd : addUintn 0 2 = 2 := rfl
  rintro ⟨index, ⟨-, houtside⟩ | ⟨-, -, -, hover⟩⟩
  · omega
  · rw [huintn, hadd] at hover
    omega

theorem columnOn_zero (hzero : m.cursorColumn = 0) : ColumnOn data m := by
  have htwo := hroomy.addressable.columns
  exact ⟨by omega, by omega⟩

/-- A round of a call from outside leaves the cursor on the screen, if no other call is made. -/
theorem columnOn_of_outer (hrow : RowOn data m) (hon : ColumnOn data m) {call call' : Activation}
    {m' : TextMode} {touches : List Touch}
    (hround : outputRound32 data m call = (m', [call'], touches)) :
    RowOn data m' ∧ ColumnOn data m' := by
  have houter := outer_round hroomy.addressable hrow hon call
  rw [hround] at houter
  refine ⟨houter.1, ?_⟩
  have hcolumn : Column data [call'] m' := houter.2.1
  cases hcolumn with
  | outer hon' => exact hon'
  | lost hlast _ _ =>
      have hcolumns := hroomy.columns
      omega

/-- A round that takes characters off the string. -/
theorem leads_printed (hrow : RowOn data m) (hon : ColumnOn data m) {c : Char16}
    (hc : isControl c = false) {wString rest : List Char16} {attr : UInt32} {index : Nat}
    {cells : List Touch} (h : printCells data.columns m 0 (c :: wString) = (index, rest, cells)) :
    ∃ m', Halts.Leads nextRound (busy data m [⟨c :: wString, attr⟩]) (busy data m' [⟨rest, attr⟩]) ∧
      RowOn data m' ∧ ColumnOn data m' := by
  have hround : outputRound32 data m ⟨c :: wString, attr⟩ =
      if int32 data.columns ≤ int32 (m.cursorColumn + index) then
        ({ m with cursorColumn := int32 (m.cursorColumn + index) },
          [⟨mCrLfString, m.attr⟩, ⟨rest, attr⟩], cells)
      else
        ({ m with cursorColumn := int32 (m.cursorColumn + index) }, [⟨rest, attr⟩], cells) := by
    rw [outputRound32_print hc, printRound]
    dsimp only
    rw [h]
    dsimp only
    rw [int32_add_int32]
  split at hround
  · rcases leads_crLf (m := { m with cursorColumn := int32 (m.cursorColumn + index) })
      m.attr [⟨rest, attr⟩] with ⟨m', hleads, hzero, -, hrow'⟩
    exact ⟨m', .step (nextRound_busy hround []) hleads, hrow' hroomy.addressable hrow,
      columnOn_zero hroomy hzero⟩
  · exact ⟨_, .step (nextRound_busy hround []) (.refl _), columnOn_of_outer hroomy hrow hon hround⟩

/-- A printable character is printed in the end, perhaps on the next line. -/
theorem leads_print (hrow : RowOn data m) (hon : ColumnOn data m) {c : Char16}
    (hc : isControl c = false) (wString : List Char16) (attr : UInt32) :
    ∃ m' rest, Halts.Leads nextRound (busy data m [⟨c :: wString, attr⟩])
        (busy data m' [⟨rest, attr⟩]) ∧ rest.length ≤ wString.length ∧
      RowOn data m' ∧ ColumnOn data m' := by
  rcases print_cases (m := m) hc wString attr with ⟨⟨index, rest, cells, hrest, h⟩, -⟩ |
    ⟨index, hindex, hround⟩
  · rcases leads_printed hroomy hrow hon hc h with ⟨m', hleads, honScreen⟩
    exact ⟨m', rest, hleads, hrest, honScreen⟩
  · rw [if_pos (edge_reached hroomy hon hindex)] at hround
    rcases leads_crLf (m := { m with cursorColumn := int32 (m.cursorColumn + index) })
      m.attr [⟨c :: wString, attr⟩] with ⟨m₁, hleads, hzero, -, hrow₁⟩
    rcases print_cases (m := m₁) hc wString attr with
      ⟨⟨index', rest, cells, hrest, h⟩, -⟩ | ⟨index', hindex', -⟩
    · rcases leads_printed hroomy (hrow₁ hroomy.addressable hrow) (columnOn_zero hroomy hzero) hc h
        with ⟨m', hleads', honScreen⟩
      exact ⟨m', rest, .step (nextRound_busy hround []) (hleads.trans hleads'), hrest, honScreen⟩
    · exact absurd ⟨index', hindex'⟩ (printed_in_first hroomy hzero)

omit hroomy in
/-- A control character but the terminator is taken off the string. -/
theorem control_round {c : Char16} (hnull : c ≠ charNull) (hc : isControl c = true)
    (wString : List Char16) (attr : UInt32) :
    ∃ m' touches, outputRound32 data m ⟨c :: wString, attr⟩ = (m', [⟨wString, attr⟩], touches) := by
  unfold outputRound32
  dsimp only
  rw [if_neg hnull]
  split
  · exact ⟨_, _, rfl⟩
  · split
    · split
      · exact ⟨_, _, rfl⟩
      · exact ⟨_, _, rfl⟩
    · split
      · exact ⟨_, _, rfl⟩
      · split
        · exact ⟨_, _, rfl⟩
        · split
          · exact ⟨_, _, rfl⟩
          · next hbackspace hlinefeed hreturn hwide hnarrow =>
              simp [isControl, hnull, hbackspace, hlinefeed, hreturn, hwide, hnarrow] at hc

theorem halts_of_onScreen (hrow : RowOn data m) (hon : ColumnOn data m) (wString : List Char16)
    (attr : UInt32) : Halts nextRound (busy data m [⟨wString, attr⟩]) := by
  -- each character is taken off in the end, so the string gets shorter
  induction hn : wString.length using Nat.strongRecOn generalizing m wString with
  | ind n ih =>
      cases wString with
      | nil => exact .step (nextRound_busy rfl []) (halts_idle _ _)
      | cons c wString =>
          rw [List.length_cons] at hn
          by_cases hnull : c = charNull
          · have hround : outputRound32 data m ⟨c :: wString, attr⟩ =
              ({ m with attr := attr }, [], []) := if_pos hnull
            exact .step (nextRound_busy hround []) (halts_idle _ _)
          · cases hc : isControl c with
            | true =>
                rcases @control_round data m c hnull hc wString attr with ⟨m', touches, hround⟩
                rcases columnOn_of_outer hroomy hrow hon hround with ⟨hrow', hon'⟩
                exact .step (nextRound_busy hround []) (ih _ (by omega) hrow' hon' wString rfl)
            | false =>
                rcases leads_print hroomy hrow hon hc wString attr with
                  ⟨m', rest, hleads, hrest, hrow', hon'⟩
                rw [Halts.of_leads hleads]
                exact ih _ (by omega) hrow' hon' rest rfl

/-- The cursor is where it should be in every round, so what is touched is on the screen. -/
theorem noFault_of_onScreen (hrow : RowOn data m) (hon : ColumnOn data m) {call : Activation}
    {dev : TextOutput} (hleads : Halts.Leads nextRound (busy data m [call]) dev) :
    ¬ Faults data dev := by
  have hinv : ∃ m' calls, dev = busy data m' calls ∧ RowOn data m' ∧ Column data calls m' := by
    refine hleads.invariant (fun dev => ∃ m' calls, dev = busy data m' calls ∧
      RowOn data m' ∧ Column data calls m') ?_ ⟨m, [call], rfl, hrow, .outer hon⟩
    rintro _ dev' ⟨m', calls, rfl, hrow', hcolumn⟩ hnext
    cases calls with
    | nil => cases hnext
    | cons call' calls =>
        rw [nextRound_busy rfl calls] at hnext
        cases hnext
        have hround := round_onScreen hroomy.addressable hrow' hcolumn
        exact ⟨_, _, rfl, hround.1, hround.2.1⟩
  obtain ⟨m', calls, rfl, hrow', hcolumn⟩ := hinv
  rintro ⟨dev', touches, hstep, t, ht, hout⟩
  cases calls with
  | nil => cases hstep
  | cons call' calls =>
      have hround := round_onScreen hroomy.addressable hrow' hcolumn
      cases hstep
      exact hout (hround.2.2 t ht)

theorem onScreen_of_placed (hplaced : Placed data m) : RowOn data m ∧ ColumnOn data m := by
  obtain ⟨hcolumns, hcolumnsFit, hrows, hrowsFit⟩ := hroomy.addressable
  constructor
  · rcases hplaced.row with hzero | ⟨row, hlt, hrow⟩
    · exact ⟨by omega, by omega⟩
    · rw [int32_of_range (by omega) (by omega)] at hrow
      exact ⟨by omega, by omega⟩
  · rcases hplaced.column with hzero | ⟨column, hlt, hcolumn⟩
    · exact ⟨by omega, by omega⟩
    · rw [int32_of_range (by omega) (by omega)] at hcolumn
      exact ⟨by omega, by omega⟩

end Room

/-! ## Modes without -/

section NoRoom

variable {data : ModeData}

/-- A printable character is never taken off the string when the cursor is so far to the left that
the end of the line is not reached, and is not on the screen either. -/
theorem not_halts_of_stuck {m : TextMode} (hlow : -0x80000000 ≤ m.cursorColumn)
    (hhigh : m.cursorColumn < 0x80000000) (houtside : data.columns ≤ uintn m.cursorColumn)
    (hnoCall : m.cursorColumn < int32 data.columns) {c : Char16} (hc : isControl c = false)
    (wString : List Char16) (attr : UInt32) :
    ¬ Halts nextRound (busy data m [⟨c :: wString, attr⟩]) := by
  refine not_halts_of_recurrent (fun dev => dev = busy data m [⟨c :: wString, attr⟩]) ?_ rfl
  rintro _ rfl
  exact ⟨_, _, nextRound_busy (stuck_round hlow hhigh houtside hnoCall hc wString attr) [],
    .refl _, rfl⟩

/-- A wide character is not printed on a mode of one column: it is always left over. -/
theorem not_halts_of_narrow (hcolumns : data.columns ≤ 1) {m : TextMode}
    (hwide : m.attr &&& wideAttribute ≠ 0) {c : Char16} (hc : isControl c = false)
    (wString : List Char16) (attr : UInt32) :
    ¬ Halts nextRound (busy data m [⟨c :: wString, attr⟩]) := by
  refine not_halts_of_recurrent (fun dev => ∃ m : TextMode, m.attr &&& wideAttribute ≠ 0 ∧
    dev = busy data m [⟨c :: wString, attr⟩]) ?_ ⟨m, hwide, rfl⟩
  rintro _ ⟨m, hwide, rfl⟩
  rcases @print_cases data m c hc wString attr with ⟨-, hinside, hnarrow | hfits⟩ |
    ⟨index, -, hround⟩
  · exact absurd hnarrow hwide
  · have hzero : uintn m.cursorColumn = 0 := by omega
    have hadd : addUintn 0 2 = 2 := rfl
    rw [hzero, hadd] at hfits
    omega
  · split at hround
    · rcases leads_crLf
        (m := { m with cursorColumn := int32 (m.cursorColumn + index) }) m.attr
        [⟨c :: wString, attr⟩] with ⟨m', hleads, -, hattr, -⟩
      exact ⟨_, _, nextRound_busy hround [], hleads, m', by rw [hattr]; exact hwide, rfl⟩
    · exact ⟨_, _, nextRound_busy hround [], .refl _,
        { m with cursorColumn := int32 (m.cursorColumn + index) }, hwide, rfl⟩

end NoRoom

/-! ## All modes -/

/-- A wide character after the attribute for it. -/
def wideString : List Char16 := [wideChar, 0x4E2D]

theorem leads_wide (data : ModeData) (m : TextMode) (attr : UInt32) :
    nextRound (busy data m [⟨wideString, attr⟩]) =
      some (busy data { m with attr := m.attr ||| wideAttribute } [⟨[0x4E2D], attr⟩]) :=
  nextRound_busy rfl []

theorem not_returns_of_narrow {data : ModeData} (hcolumns : data.columns ≤ 1) :
    ¬ Returns data ⟨0, 0, 7⟩ wideString := by
  intro hreturns
  have hhalts : Halts nextRound (busy data ⟨0, 0, 7⟩ [⟨wideString, 7⟩]) := hreturns.halts
  rw [Halts.iff_of_next (leads_wide data ⟨0, 0, 7⟩ 7)] at hhalts
  exact not_halts_of_narrow hcolumns (by decide) (by decide) [] 7 hhalts

/-- In the last column of the widest mode, a wide character takes the column out of the range of an
`INT32`. -/
theorem not_returns_of_widest {data : ModeData} (hcolumns : data.columns = 0x7FFFFFFF) :
    ¬ Returns data ⟨0x7FFFFFFE, 0, 7⟩ wideString := by
  intro hreturns
  have hhalts : Halts nextRound (busy data ⟨0x7FFFFFFE, 0, 7⟩ [⟨wideString, 7⟩]) := hreturns.halts
  have hedge : int32 data.columns = 0x7FFFFFFF := by
    rw [hcolumns]
    decide
  have hlast : uintn 0x7FFFFFFE = 0x7FFFFFFE := by decide
  have hbeyond : addUintn 0x7FFFFFFE 2 = 0x80000000 := by decide
  -- the column wraps to a negative one, which is outside for ever
  have hsum : int32 (0x7FFFFFFE + 2) = -0x80000000 := by decide
  have hround : outputRound32 data ⟨0x7FFFFFFE, 0, 7 ||| wideAttribute⟩ ⟨[0x4E2D], 7⟩ =
      (⟨-0x80000000, 0, 7 ||| wideAttribute⟩, [⟨[0x4E2D], 7⟩], []) := by
    have hwide : (7 ||| wideAttribute) &&& wideAttribute ≠ 0 := by decide
    rcases @print_cases data ⟨0x7FFFFFFE, 0, 7 ||| wideAttribute⟩ 0x4E2D (by decide) [] 7 with
        ⟨-, -, hnarrow | hfits⟩ |
        ⟨index, ⟨rfl, houtside⟩ | ⟨rfl, -, -, -⟩, hround⟩
    · exact absurd hnarrow hwide
    · rw [hlast, hbeyond] at hfits
      omega
    · rw [hlast] at houtside
      omega
    · rw [hedge, hsum, if_neg (by decide)] at hround
      exact hround
  rw [Halts.iff_of_next (leads_wide data _ 7), Halts.iff_of_next (nextRound_busy hround [])]
    at hhalts
  have hneg : uintn (-0x80000000) = 0xFFFFFFFF80000000 := by decide
  refine not_halts_of_stuck (Int.le_refl _) ?_ ?_ ?_ (by decide) [] 7 hhalts
  · dsimp only
    omega
  · dsimp only
    omega
  · rw [hedge]
    decide

/-- A cursor that is not on the screen, and that a backspace does not move. -/
theorem not_returns_of_outside {data : ModeData} {column row : Int} (hcolumn : column ≤ 0)
    (hcorner : column = 0 → row ≤ 0) (hout : ¬ (Touch.cell row column).Within data) :
    ¬ Returns data ⟨column, row, 7⟩ [charBackspace] := by
  intro hreturns
  have hback : TextMode.back ⟨column, row, 7⟩ data.columns = ⟨column, row, 7⟩ := by
    unfold TextMode.back
    rw [if_neg (by dsimp only; omega), if_neg (by dsimp only; omega)]
  have hround : outputRound32 data ⟨column, row, 7⟩ ⟨[charBackspace], 7⟩ =
      (⟨column, row, 7⟩, [⟨[], 7⟩], [.cell row column]) := by
    unfold outputRound32
    dsimp only
    rw [if_neg (by decide), if_pos rfl, hback]
  have hstep : outputStep (called data ⟨column, row, 7⟩ [charBackspace]) .round =
      some (busy data ⟨column, row, 7⟩ [⟨[], 7⟩], [.cell row column]) := by
    show some (busy data (outputRound32 data ⟨column, row, 7⟩ ⟨[charBackspace], 7⟩).1
      ((outputRound32 data ⟨column, row, 7⟩ ⟨[charBackspace], 7⟩).2.1 ++ []),
      (outputRound32 data ⟨column, row, 7⟩ ⟨[charBackspace], 7⟩).2.2) = _
    rw [hround]
    rfl
  exact hreturns.noFault _ (.refl _) ⟨_, _, hstep, _, List.mem_singleton_self _, hout⟩

/-- Every call returns exactly on the modes with room for every character and every cursor. -/
theorem returns_iff (data : ModeData) : AllReturn data ↔ Roomy data := by
  constructor
  · intro hall
    by_contra hnot
    have hcases : data.columns ≤ 1 ∨ data.columns = 0x7FFFFFFF ∨ 0x80000000 < data.columns ∨
        data.rows = 0 ∨ 0x80000000 < data.rows := by
      by_contra hnone
      exact hnot ⟨by omega, by omega⟩
    have hleast : int32 (0x80000000 : Nat) = -0x80000000 := by decide
    rcases hcases with hnarrow | hwidest | hwider | hempty | hlong
    · exact not_returns_of_narrow hnarrow (hall _ _ ⟨.inl rfl, .inl rfl⟩)
    · refine not_returns_of_widest hwidest (hall _ _ ⟨.inr ⟨0x7FFFFFFE, ?_, rfl⟩, .inl rfl⟩)
      omega
    · -- the column that `SetCursorPosition` stores is negative
      refine not_returns_of_outside (by omega) (by omega) ?_
        (hall ⟨-0x80000000, 0, 7⟩ _ ⟨.inr ⟨0x80000000, hwider, hleast.symm⟩, .inl rfl⟩)
      rintro ⟨-, hzero, -⟩
      omega
    · refine not_returns_of_outside (Int.le_refl 0) (fun _ => Int.le_refl 0) ?_
        (hall ⟨0, 0, 7⟩ _ ⟨.inl rfl, .inl rfl⟩)
      rintro ⟨⟨-, hlt⟩, -⟩
      omega
    · refine not_returns_of_outside (Int.le_refl 0) (by omega) ?_
        (hall ⟨0, -0x80000000, 7⟩ _ ⟨.inl rfl, .inr ⟨0x80000000, hlong, hleast.symm⟩⟩)
      rintro ⟨⟨hzero, -⟩, -⟩
      omega
  · intro hroomy m wString hplaced
    obtain ⟨hrow, hon⟩ := onScreen_of_placed hroomy hplaced
    exact ⟨halts_of_onScreen hroomy hrow hon wString m.attr,
      fun dev hleads => noFault_of_onScreen hroomy hrow hon hleads⟩

/-- `OutputString` returns on every mode that `SetMode` accepts. -/
def AcceptedReturn : Prop :=
  ∀ data : ModeData, data.columns < 0x10000000000000000 → modeAccepted data = true → AllReturn data

/-- A mode without columns is accepted for its rows. -/
theorem accepted_mode_hangs : ¬ AcceptedReturn := by
  intro h
  have hall := h ⟨0, 25⟩ (by decide) (by decide) ⟨0, 0, 7⟩ wideString ⟨.inl rfl, .inl rfl⟩
  exact not_returns_of_narrow (by decide) hall

end EfiLvgl.Console
