import EfiLvgl.Console.Model
import EfiLvgl.Lib.Run

/-!
# EfiLvgl.Console.Scrollback — what has scrolled off the screen

A `Terminal` is what the console is for: rows of characters, and the rows that have
scrolled off since the history was last cleared, each as it was at that moment. The
screen of the console is that of the terminal in every run (`Shows`). Its history is
not: a line of it is a pointer to the buffer of the top row, which goes on being the
top row, and which clearing the history frees.

`scrollback_iff`: exactly when `GetScreen` returns the history all the same.
-/

namespace EfiLvgl.Console

open EfiLvgl.Memory EfiLvgl.Run

/-! ## The terminal -/

/-- The rows that have scrolled off, oldest first, and those on the screen. -/
structure Terminal where
  history : List Row
  rows : List Row
  deriving DecidableEq, Repr

def Terminal.apply (t : Terminal) (columns : Nat) : ScreenOp → Terminal
  | .erase row column =>
      { t with rows := t.rows.modify row fun line =>
          line.modify column fun c => { c with char := charNull } }
  | .put row column c => { t with rows := t.rows.modify row fun line => line.modify column fun _ => c }
  | .scroll _ =>
      { history := t.history ++ t.rows.take 1
        rows := t.rows.tail ++ [List.replicate columns ⟨charNull, 0⟩] }
  | .clear attr => { t with rows := t.rows.map fun _ => List.replicate columns ⟨charNull, attr⟩ }
  | .clearHistory => { t with history := [] }

def Terminal.applyAll (t : Terminal) (columns : Nat) (ops : List ScreenOp) : Terminal :=
  ops.foldl (fun t op => t.apply columns op) t

/-- Blank rows of one attribute, and no history. -/
def freshTerminal (data : ModeData) (attr : UInt64) : Terminal :=
  ⟨[], List.replicate data.rows (List.replicate data.columns ⟨charNull, attr⟩)⟩

theorem Terminal.applyAll_append (t : Terminal) (columns : Nat) (ops : List ScreenOp)
    (op : ScreenOp) :
    t.applyAll columns (ops ++ [op]) = (t.applyAll columns ops).apply columns op := by
  simp [Terminal.applyAll]

/-! ## The cursor stays on the screen -/

/-- The operation is one on the screen, and stays there; only the last row is scrolled at. -/
def ScreenOp.OnScreen (data : ModeData) : ScreenOp → Prop
  | .erase row column => row < data.rows ∧ column < data.columns
  | .put row column _ => row < data.rows ∧ column < data.columns
  | .scroll row => row + 1 = data.rows
  | .clear _ => True
  | .clearHistory => False

def Cursor.OnScreen (data : ModeData) (cursor : Cursor) : Prop :=
  cursor.column < data.columns ∧ cursor.row < data.rows

theorem Cursor.OnScreen.back {data : ModeData} {cursor : Cursor} (h : cursor.OnScreen data) :
    (cursor.back data.columns).OnScreen data := by
  obtain ⟨hcolumn, hrow⟩ := h
  rw [Cursor.back]
  split
  · constructor
    · simp only
      omega
    · simp only
      omega
  · split
    · exact ⟨by simp only; omega, hrow⟩
    · exact ⟨hcolumn, hrow⟩

theorem printLoop_onScreen {data : ModeData} {cursor : Cursor} (hrow : cursor.row < data.rows)
    (wString : List Char16) (index : Nat) :
    ∀ op ∈ (printLoop data.columns cursor index wString).2.2, op.OnScreen data := by
  induction wString generalizing index with
  | nil => simp [printLoop]
  | cons c wString ih =>
      intro op hop
      rw [printLoop] at hop
      split at hop
      · next hprint =>
          simp only at hop
          split at hop
          · split at hop
            · cases hop
            · rcases List.mem_cons.mp hop with rfl | hop
              · exact ⟨hrow, hprint.1⟩
              · exact ih _ op hop
          · rcases List.mem_cons.mp hop with rfl | hop
            · exact ⟨hrow, hprint.1⟩
            · exact ih _ op hop
      · cases hop

/-- What a recursive call does: it puts the cursor at the start of the next row, for which
the screen is scrolled at the last. -/
def CrLf (maxRow : Nat) (crLf : Cursor → Option (Cursor × List ScreenOp)) : Prop :=
  ∀ cursor cursor' ops, crLf cursor = some (cursor', ops) →
    cursor'.column = 0 ∧
      (cursor.row = maxRow - 1 ∧ cursor'.row = cursor.row ∧ ops = [.scroll cursor.row] ∨
        cursor.row ≠ maxRow - 1 ∧ cursor'.row = cursor.row + 1 ∧ ops = [])

theorem outputLoop_cons {maxColumn maxRow fuel : Nat} {cursor cursor' : Cursor} {c : Char16}
    {wString : List Char16} {ops : List ScreenOp}
    (h : outputLoop maxColumn maxRow (fuel + 1) cursor (c :: wString) = some (cursor', ops)) :
    c = charNull ∧ cursor' = cursor ∧ ops = [] ∨
      ∃ next rest ops₁ ops₂,
        outputRound maxColumn maxRow (fun cursor => outputLoop maxColumn maxRow fuel cursor mCrLfString)
          cursor c wString = some (next, rest, ops₁) ∧
        outputLoop maxColumn maxRow fuel next rest = some (cursor', ops₂) ∧ ops = ops₁ ++ ops₂ := by
  rw [outputLoop] at h
  split at h
  · next hnull =>
      cases h
      exact Or.inl ⟨hnull, rfl, rfl⟩
  · obtain ⟨⟨next, rest, ops₁⟩, hround, h⟩ := Option.bind_eq_some_iff.mp h
    obtain ⟨⟨cursor₂, ops₂⟩, hloop, h⟩ := Option.bind_eq_some_iff.mp h
    cases h
    exact Or.inr ⟨next, rest, ops₁, ops₂, hround, hloop, rfl⟩

theorem outputLoop_nil {maxColumn maxRow fuel : Nat} {cursor cursor' : Cursor}
    {ops : List ScreenOp} (h : outputLoop maxColumn maxRow fuel cursor [] = some (cursor', ops)) :
    cursor' = cursor ∧ ops = [] := by
  cases fuel with
  | zero => cases h
  | succ fuel =>
      cases h
      exact ⟨rfl, rfl⟩

theorem outputRound_cr (maxColumn maxRow : Nat)
    (crLf : Cursor → Option (Cursor × List ScreenOp)) (cursor : Cursor) (wString : List Char16) :
    outputRound maxColumn maxRow crLf cursor charCarriageReturn wString =
      some ({ cursor with column := 0 }, wString, []) := rfl

theorem outputRound_lf (maxColumn maxRow : Nat)
    (crLf : Cursor → Option (Cursor × List ScreenOp)) (cursor : Cursor) (wString : List Char16) :
    outputRound maxColumn maxRow crLf cursor charLinefeed wString =
      if cursor.row = maxRow - 1 then some (cursor, wString, [.scroll cursor.row])
      else some ({ cursor with row := cursor.row + 1 }, wString, []) := rfl

theorem crLf_outputLoop (maxColumn maxRow fuel : Nat) :
    CrLf maxRow (fun cursor => outputLoop maxColumn maxRow fuel cursor mCrLfString) := by
  intro cursor cursor' ops h
  cases fuel with
  | zero => cases h
  | succ fuel =>
      -- first the carriage return, then the line feed
      rcases outputLoop_cons h with ⟨hnull, -⟩ | ⟨next, rest, ops₁, ops₂, hround, hloop, rfl⟩
      · exact absurd hnull (by decide)
      rw [outputRound_cr] at hround
      cases hround
      cases fuel with
      | zero => cases hloop
      | succ fuel =>
          rcases outputLoop_cons hloop with ⟨hnull, -⟩ | ⟨next, rest, ops₁, ops₂, hround, hend, rfl⟩
          · exact absurd hnull (by decide)
          rw [outputRound_lf] at hround
          split at hround
          · next hlast =>
              cases hround
              obtain ⟨rfl, rfl⟩ := outputLoop_nil hend
              exact ⟨rfl, Or.inl ⟨hlast, rfl, rfl⟩⟩
          · next hlast =>
              cases hround
              obtain ⟨rfl, rfl⟩ := outputLoop_nil hend
              exact ⟨rfl, Or.inr ⟨hlast, rfl, rfl⟩⟩

theorem outputRound_onScreen {data : ModeData} {crLf : Cursor → Option (Cursor × List ScreenOp)}
    (hcrLf : CrLf data.rows crLf) {cursor next : Cursor} (hcursor : cursor.OnScreen data)
    {c : Char16} {wString rest : List Char16} {ops : List ScreenOp}
    (h : outputRound data.columns data.rows crLf cursor c wString = some (next, rest, ops)) :
    next.OnScreen data ∧ ∀ op ∈ ops, op.OnScreen data := by
  have hcolumns := Nat.zero_lt_of_lt hcursor.1
  have hrow := hcursor.2
  have hscroll : cursor.row = data.rows - 1 → (ScreenOp.scroll cursor.row).OnScreen data := by
    intro hlast
    rw [ScreenOp.OnScreen]
    omega
  unfold outputRound at h
  split at h
  · -- backspace
    cases h
    exact ⟨hcursor.back, by simpa using ⟨hcursor.back.2, hcursor.back.1⟩⟩
  · split at h
    · -- line feed: on the last row the screen scrolls
      split at h
      · next hlast =>
          cases h
          exact ⟨hcursor, by simpa using hscroll hlast⟩
      · next hlast =>
          cases h
          refine ⟨⟨hcursor.1, ?_⟩, by simp⟩
          simp only
          omega
    · split at h
      · -- carriage return
        cases h
        exact ⟨⟨hcolumns, hrow⟩, by simp⟩
      · split at h
        · -- the two width attributes
          cases h
          exact ⟨hcursor, by simp⟩
        · split at h
          · cases h
            exact ⟨hcursor, by simp⟩
          · have hputs := printLoop_onScreen hrow (c :: wString) 0
            simp only at h
            split at h
            · -- the line wraps
              obtain ⟨⟨cursor', ops'⟩, hcall, hnext⟩ := Option.map_eq_some_iff.mp h
              cases hnext
              obtain ⟨hcolumn, hcases⟩ := hcrLf _ _ _ hcall
              rcases hcases with ⟨hlast, hrow', rfl⟩ | ⟨hlast, hrow', rfl⟩
              · refine ⟨⟨by simp only; omega, by simp only at hrow' ⊢; omega⟩, ?_⟩
                intro op hop
                rcases List.mem_append.mp hop with hop | hop
                · exact hputs op hop
                · cases List.mem_singleton.mp hop
                  exact hscroll hlast
              · refine ⟨⟨by simp only; omega, by simp only at hrow' hlast ⊢; omega⟩, ?_⟩
                simpa using hputs
            · next hfits =>
                -- the characters fit the rest of the line
                cases h
                exact ⟨⟨Nat.lt_of_not_le hfits, hrow⟩, hputs⟩

theorem outputLoop_onScreen {data : ModeData} {fuel : Nat} :
    ∀ {cursor cursor' : Cursor} {wString : List Char16} {ops : List ScreenOp},
      cursor.OnScreen data →
      outputLoop data.columns data.rows fuel cursor wString = some (cursor', ops) →
        cursor'.OnScreen data ∧ ∀ op ∈ ops, op.OnScreen data := by
  induction fuel with
  | zero =>
      intro cursor cursor' wString ops _ h
      cases h
  | succ fuel ih =>
      intro cursor cursor' wString ops hcursor h
      cases wString with
      | nil =>
          obtain ⟨rfl, rfl⟩ := outputLoop_nil h
          exact ⟨hcursor, by simp⟩
      | cons c wString =>
          rcases outputLoop_cons h with ⟨-, rfl, rfl⟩ | ⟨next, rest, ops₁, ops₂, hround, hloop, rfl⟩
          · exact ⟨hcursor, by simp⟩
          · obtain ⟨hnext, hops₁⟩ :=
              outputRound_onScreen (crLf_outputLoop data.columns data.rows fuel) hcursor hround
            obtain ⟨hcursor', hops₂⟩ := ih hnext hloop
            refine ⟨hcursor', ?_⟩
            intro op hop
            rcases List.mem_append.mp hop with hop | hop
            · exact hops₁ op hop
            · exact hops₂ op hop

/-! ## The screen of the console is that of the terminal -/

/-- The console shows the rows of the terminal. Of its history it has the number of lines
only: each points to the top row. -/
structure Shows (data : ModeData) (dev : ConsoleDev) (t : Terminal) : Prop where
  nodup : dev.screenBuffer.Nodup
  holds : dev.memory.Holds dev.screenBuffer t.rows
  rows : t.rows.length = data.rows
  rowLength : ∀ line ∈ t.rows, line.length = data.columns
  lineLength : ∀ line ∈ t.history, line.length = data.columns
  top : ∃ p, dev.screenBuffer[0]? = some p ∧
    dev.screenHistory = List.replicate t.history.length p

/-- The buffer of the top row has been freed. -/
def Freed (dev : ConsoleDev) : Prop :=
  ∃ p, dev.screenBuffer[0]? = some p ∧ dev.memory.buffer p = none

/-- What no operation changes. -/
structure SameMode (dev dev' : ConsoleDev) : Prop where
  modeData : dev'.modeData = dev.modeData
  mode : dev'.mode = dev.mode
  cursor : dev'.cursor = dev.cursor
  screenBuffer : dev'.screenBuffer = dev.screenBuffer

theorem forall_modify {P : Row → Prop} {f : Row → Row} (hf : ∀ line, P line → P (f line))
    {rows : List Row} (h : ∀ line ∈ rows, P line) (i : Nat) : ∀ line ∈ rows.modify i f, P line := by
  intro line hline
  obtain ⟨j, hj⟩ := List.mem_iff_getElem?.mp hline
  rw [List.getElem?_modify] at hj
  obtain ⟨line', hline', rfl⟩ := Option.map_eq_some_iff.mp hj
  have hP := h line' (List.mem_of_getElem? hline')
  split
  · exact hf line' hP
  · exact hP

section Operations

variable {data : ModeData} {dev dev' : ConsoleDev} {t : Terminal}

/-- A row that the screen has. -/
theorem Shows.row (h : Shows data dev t) {row : Nat} (hrow : row < data.rows) :
    ∃ p line, dev.screenBuffer[row]? = some p ∧ t.rows[row]? = some line ∧
      dev.memory.buffer p = some line := by
  have hlt : row < dev.screenBuffer.length := by
    rw [h.holds.length_eq, h.rows]
    exact hrow
  obtain ⟨line, hline, hbuffer⟩ := h.holds.getElem? (List.getElem?_eq_getElem hlt)
  exact ⟨_, line, List.getElem?_eq_getElem hlt, hline, hbuffer⟩

theorem Shows.modifyCell (h : Shows data dev t) {row column : Nat} (hrow : row < data.rows)
    (hcolumn : column < data.columns) (f : ScreenChar → ScreenChar) :
    ∃ dev', dev.modifyCell row column f = some dev' ∧
      Shows data dev' { t with rows := t.rows.modify row fun line => line.modify column f } := by
  obtain ⟨p, line, hp, hline, hbuffer⟩ := h.row hrow
  have hlength : column < line.length := by
    rw [h.rowLength line (List.mem_of_getElem? hline)]
    exact hcolumn
  obtain ⟨m, hwrite⟩ := Pool.exists_write hbuffer (line.modify column f)
  refine ⟨{ dev with memory := m },
    by simp [ConsoleDev.modifyCell, hp, hbuffer, hlength, hwrite], ?_⟩
  constructor
  · exact h.nodup
  · exact h.holds.write h.nodup hp hline (f := fun line => line.modify column f) hwrite
  · simpa using h.rows
  · exact forall_modify (fun line hline => by simpa using hline) h.rowLength row
  · exact h.lineLength
  · exact h.top

theorem modify_last (f : Row → Row) (line : Row) :
    ∀ rows : List Row, (rows ++ [line]).modify rows.length f = rows ++ [f line]
  | [] => rfl
  | l :: rows => by
      rw [List.cons_append, List.length_cons, List.modify_succ_cons, modify_last f line rows,
        List.cons_append]

/-- The top row, and the others. -/
theorem Shows.split (h : Shows data dev t) :
    ∃ p ps line lines, dev.screenBuffer = p :: ps ∧ t.rows = line :: lines ∧
      dev.memory.buffer p = some line ∧ dev.memory.Holds ps lines ∧
      dev.screenHistory = List.replicate t.history.length p := by
  obtain ⟨p, hp, hhistory⟩ := h.top
  obtain ⟨ps, hps⟩ := List.head?_eq_some_iff.mp (List.head?_eq_getElem? ▸ hp)
  have hholds := h.holds
  rw [hps] at hholds
  generalize t.rows = rows at hholds
  cases hholds with
  | @cons _ line _ lines hline hlines =>
      exact ⟨p, ps, line, lines, hps, rfl, hline, hlines, hhistory⟩

theorem Shows.scrollUp (h : Shows data dev t) {row : Nat} (hrow : row + 1 = data.rows) :
    ∃ dev', dev.scrollUp data.columns row = some dev' ∧
      Shows data dev' (t.apply data.columns (.scroll row)) := by
  obtain ⟨p, ps, line, lines, hps, hlines, hline, hrest, hhistory⟩ := h.split
  have hnodup := h.nodup
  have hrows := h.rows
  rw [hps] at hnodup
  rw [hlines, List.length_cons] at hrows
  have hlength : lines.length = row := by omega
  have htake : dev.screenBuffer.take (row + 1) = p :: ps := by
    rw [← hps]
    refine List.take_of_length_le ?_
    rw [h.holds.length_eq, h.rows]
    omega
  -- the rows move up by one, and the last is blanked
  obtain ⟨m, hcopy, hholds, -⟩ := Pool.Holds.copyUp (List.Forall₂.cons hline hrest) hnodup
  obtain ⟨q, -, hq, -, -⟩ := h.row (show row < data.rows by omega)
  obtain ⟨last, hlast, hbuffer⟩ := hholds.getElem? (hps ▸ hq)
  obtain ⟨m', hwrite⟩ := Pool.exists_write hbuffer (List.replicate data.columns ⟨charNull, 0⟩)
  have hholds' := hholds.write hnodup (hps ▸ hq) hlast
    (f := fun _ => List.replicate data.columns ⟨charNull, 0⟩) hwrite
  rw [← hlength, modify_last] at hholds'
  refine ⟨{ dev with screenHistory := dev.screenHistory ++ [p], memory := m' }, ?_, ?_⟩
  · have hp : dev.screenBuffer[0]? = some p := by simp [hps]
    simp [ConsoleDev.scrollUp, hp, htake, hcopy, hq, hwrite]
  · constructor
    · exact h.nodup
    · simp only [Terminal.apply, hlines, List.tail_cons, hps]
      exact hholds'
    · simp [Terminal.apply, hlines]
      omega
    · intro l hl
      simp only [Terminal.apply, hlines, List.tail_cons, List.mem_append, List.mem_singleton] at hl
      rcases hl with hl | rfl
      · exact h.rowLength l (by simp [hlines, hl])
      · simp
    · intro l hl
      simp only [Terminal.apply, hlines, List.take_succ_cons, List.take_zero, List.mem_append,
        List.mem_singleton] at hl
      rcases hl with hl | rfl
      · exact h.lineLength l hl
      · exact h.rowLength l (by simp [hlines])
    · -- the line that is added to the history is the top row itself
      refine ⟨p, by simp [hps], ?_⟩
      simp [Terminal.apply, hlines, hhistory, List.replicate_succ']

theorem Shows.clear (h : Shows data dev t) (attr : UInt64) :
    ∃ dev', dev.apply data.columns (.clear attr) = some dev' ∧
      Shows data dev' (t.apply data.columns (.clear attr)) := by
  obtain ⟨p, ps, line, lines, hps, hlines, hline, hrest, hhistory⟩ := h.split
  have hnodup := h.nodup
  rw [hps] at hnodup
  obtain ⟨m', hwrite⟩ := Pool.exists_write hline (List.replicate data.columns ⟨charNull, attr⟩)
  have hholds := Pool.Holds.write (List.Forall₂.cons hline hrest) hnodup (i := 0) rfl rfl
    (f := fun _ => List.replicate data.columns ⟨charNull, attr⟩) hwrite
  -- the first row is blanked, and copied to the others
  obtain ⟨hp, hrest'⟩ := List.forall₂_cons.mp hholds
  obtain ⟨m, hcopy, hp', hholds', -⟩ := Pool.Holds.copyAll hp hrest' hnodup
  refine ⟨{ dev with memory := m }, ?_, ?_⟩
  · simp [ConsoleDev.apply, virtualConsoleClearScreen, hps, hwrite, hcopy]
  · constructor
    · exact h.nodup
    · simp only [Terminal.apply, hlines, hps, List.map_cons]
      exact List.Forall₂.cons hp' hholds'
    · simpa [Terminal.apply] using h.rows
    · intro l hl
      obtain ⟨-, -, rfl⟩ := List.mem_map.mp hl
      simp
    · exact h.lineLength
    · exact h.top

/-- An empty history is cleared. -/
theorem Shows.clearHistory (h : Shows data dev t) (hnil : t.history = []) :
    ∃ dev', dev.apply data.columns .clearHistory = some dev' ∧
      Shows data dev' (t.apply data.columns .clearHistory) := by
  obtain ⟨p, hp, hhistory⟩ := h.top
  rw [hnil] at hhistory
  refine ⟨{ dev with screenHistory := [] }, ?_, ?_⟩
  · simp only [ConsoleDev.apply, virtualConsoleClearHistory, hhistory]
    rfl
  · exact ⟨h.nodup, h.holds, h.rows, h.rowLength, by simp [Terminal.apply], ⟨p, hp, rfl⟩⟩

/-- Any other, if the call returns, takes the top row with it. -/
theorem Shows.freed (h : Shows data dev t) (hne : t.history ≠ [])
    (happly : dev.apply data.columns .clearHistory = some dev') : Freed dev' := by
  obtain ⟨p, hp, hhistory⟩ := h.top
  obtain ⟨n, hn⟩ := Nat.exists_eq_succ_of_ne_zero (mt List.length_eq_zero_iff.mp hne)
  -- the first line of the history that is freed is the top row
  obtain ⟨m, hfree, hdev⟩ := Option.bind_eq_some_iff.mp happly
  rw [virtualConsoleClearHistory, hhistory, hn, List.replicate_succ] at hfree
  cases hdev
  exact ⟨p, hp, Pool.freeAll_head hfree⟩

/-- One operation on the screen. -/
theorem Shows.apply (h : Shows data dev t) {op : ScreenOp} (hop : op.OnScreen data) :
    ∃ dev', dev.apply data.columns op = some dev' ∧ Shows data dev' (t.apply data.columns op) := by
  cases op with
  | erase row column => exact h.modifyCell hop.1 hop.2 _
  | put row column c => exact h.modifyCell hop.1 hop.2 _
  | scroll row => exact h.scrollUp hop
  | clear attr => exact h.clear attr
  | clearHistory => cases hop

theorem Shows.applyAll : ∀ {ops : List ScreenOp} {dev : ConsoleDev} {t : Terminal},
    Shows data dev t → (∀ op ∈ ops, op.OnScreen data) →
      ∃ dev', dev.applyAll data.columns ops = some dev'
  | [], dev, _, _, _ => ⟨dev, rfl⟩
  | op :: ops, dev, t, h, hops => by
      obtain ⟨dev₁, hfirst, h₁⟩ := h.apply (hops op List.mem_cons_self)
      obtain ⟨dev', hrest⟩ := h₁.applyAll fun op hop => hops op (List.mem_cons_of_mem _ hop)
      exact ⟨dev', by rw [ConsoleDev.applyAll, hfirst, Option.bind_some, hrest]⟩

theorem modifyCell_cases {row column : Nat} {f : ScreenChar → ScreenChar}
    (h : dev.modifyCell row column f = some dev') :
    ∃ p contents memory, dev.memory.write p contents = some memory ∧
      dev' = { dev with memory := memory } := by
  simp only [ConsoleDev.modifyCell, Option.bind_eq_bind, Option.bind_eq_some_iff] at h
  obtain ⟨p, -, line, -, h⟩ := h
  split at h
  · obtain ⟨memory, hwrite, h⟩ := Option.bind_eq_some_iff.mp h
    cases h
    exact ⟨p, _, memory, hwrite, rfl⟩
  · cases h

theorem scrollUp_cases {columns row : Nat} (h : dev.scrollUp columns row = some dev') :
    ∃ top m q contents memory, dev.memory.copyUp (dev.screenBuffer.take (row + 1)) = some m ∧
      m.write q contents = some memory ∧
      dev' = { dev with screenHistory := dev.screenHistory ++ [top], memory := memory } := by
  simp only [ConsoleDev.scrollUp, Option.bind_eq_bind, Option.bind_eq_some_iff] at h
  obtain ⟨top, -, m, hcopy, q, -, memory, hwrite, h⟩ := h
  cases h
  exact ⟨top, m, q, _, memory, hcopy, hwrite, rfl⟩

theorem clear_cases {columns : Nat} {attr : UInt64}
    (h : dev.apply columns (.clear attr) = some dev') :
    ∃ p ps contents m memory, dev.screenBuffer = p :: ps ∧
      dev.memory.write p contents = some m ∧ m.copyAll p ps = some memory ∧
      dev' = { dev with memory := memory } := by
  obtain ⟨memory, hclear, h⟩ := Option.bind_eq_some_iff.mp h
  cases h
  unfold virtualConsoleClearScreen at hclear
  split at hclear
  · cases hclear
  · next p ps hscreen =>
      obtain ⟨m, hwrite, hcopy⟩ := Option.bind_eq_some_iff.mp hclear
      exact ⟨p, ps, _, m, memory, hscreen, hwrite, hcopy, rfl⟩

theorem clearHistory_cases {columns : Nat} (h : dev.apply columns .clearHistory = some dev') :
    ∃ memory, dev.memory.freeAll dev.screenHistory = some memory ∧
      dev' = { dev with screenHistory := [], memory := memory } := by
  obtain ⟨memory, hfree, h⟩ := Option.bind_eq_some_iff.mp h
  cases h
  exact ⟨memory, hfree, rfl⟩

theorem apply_sameMode {columns : Nat} {op : ScreenOp} (h : dev.apply columns op = some dev') :
    SameMode dev dev' := by
  cases op with
  | erase row column =>
      obtain ⟨p, contents, memory, -, rfl⟩ := modifyCell_cases h
      exact ⟨rfl, rfl, rfl, rfl⟩
  | put row column c =>
      obtain ⟨p, contents, memory, -, rfl⟩ := modifyCell_cases h
      exact ⟨rfl, rfl, rfl, rfl⟩
  | scroll row =>
      obtain ⟨top, m, q, contents, memory, -, -, rfl⟩ := scrollUp_cases h
      exact ⟨rfl, rfl, rfl, rfl⟩
  | clear attr =>
      obtain ⟨p, ps, contents, m, memory, -, -, -, rfl⟩ := clear_cases h
      exact ⟨rfl, rfl, rfl, rfl⟩
  | clearHistory =>
      obtain ⟨memory, -, rfl⟩ := clearHistory_cases h
      exact ⟨rfl, rfl, rfl, rfl⟩

/-- The top row does not come back. -/
theorem Freed.apply (hfreed : Freed dev) {columns : Nat} {op : ScreenOp}
    (h : dev.apply columns op = some dev') : Freed dev' := by
  obtain ⟨p, hp, hnone⟩ := hfreed
  cases op with
  | erase row column =>
      obtain ⟨q, contents, memory, hwrite, rfl⟩ := modifyCell_cases h
      exact ⟨p, hp, Pool.write_freed hnone hwrite⟩
  | put row column c =>
      obtain ⟨q, contents, memory, hwrite, rfl⟩ := modifyCell_cases h
      exact ⟨p, hp, Pool.write_freed hnone hwrite⟩
  | scroll row =>
      obtain ⟨top, m, q, contents, memory, hcopy, hwrite, rfl⟩ := scrollUp_cases h
      exact ⟨p, hp, Pool.write_freed (Pool.copyUp_freed hnone hcopy) hwrite⟩
  | clear attr =>
      -- the top row is written first
      obtain ⟨q, ps, contents, m, memory, hscreen, hwrite, -, rfl⟩ := clear_cases h
      have hq : q = p := by
        rw [hscreen] at hp
        exact Option.some.inj hp
      obtain ⟨hsome, -⟩ := Pool.write_eq_some hwrite
      rw [hq, hnone] at hsome
      cases hsome
  | clearHistory =>
      obtain ⟨memory, hfree, rfl⟩ := clearHistory_cases h
      exact ⟨p, hp, Pool.freeAll_freed hnone hfree⟩

end Operations

/-! ## Runs -/

/-- The history is cleared after a row has scrolled off. -/
def ClearedLate (h : List ScreenOp) : Prop :=
  ∃ h₁ h₂ row, h = h₁ ++ .clearHistory :: h₂ ∧ .scroll row ∈ h₁

theorem clearedLate_append {h : List ScreenOp} {op : ScreenOp} :
    ClearedLate (h ++ [op]) ↔
      ClearedLate h ∨ op = .clearHistory ∧ ∃ row, .scroll row ∈ h := by
  constructor
  · rintro ⟨h₁, h₂, row, heq, hrow⟩
    rcases List.eq_nil_or_concat h₂ with rfl | ⟨h₂, last, rfl⟩
    · obtain ⟨rfl, hop⟩ := List.append_inj' heq rfl
      exact Or.inr ⟨List.singleton_inj.mp hop, row, hrow⟩
    · rw [List.concat_eq_append, ← List.cons_append, ← List.append_assoc] at heq
      obtain ⟨rfl, -⟩ := List.append_inj' heq rfl
      exact Or.inl ⟨h₁, h₂, row, rfl, hrow⟩
  · rintro (⟨h₁, h₂, row, rfl, hrow⟩ | ⟨rfl, row, hrow⟩)
    · exact ⟨h₁, h₂ ++ [op], row, by simp, hrow⟩
    · exact ⟨h, [], row, rfl, hrow⟩

/-- The console shows the terminal, or its top row has been freed. -/
def ScreenInv (data : ModeData) (t₀ : Terminal) (dev : ConsoleDev) (h : List ScreenOp) : Prop :=
  ¬ ClearedLate h ∧ Shows data dev (t₀.applyAll data.columns h) ∧
      ((t₀.applyAll data.columns h).history = [] ↔ ∀ row, .scroll row ∉ h) ∨
    ClearedLate h ∧ Freed dev

/-- A scroll makes the history grow, and nothing else on the screen does. -/
theorem history_apply {t : Terminal} {data : ModeData} {op : ScreenOp} (hrows : t.rows ≠ [])
    (hop : op.OnScreen data) :
    (t.apply data.columns op).history = [] ↔ t.history = [] ∧ ∀ row, op ≠ .scroll row := by
  cases op with
  | erase row column => simp [Terminal.apply]
  | put row column c => simp [Terminal.apply]
  | scroll row => simp [Terminal.apply, hrows]
  | clear attr => simp [Terminal.apply]
  | clearHistory => cases hop

theorem ScreenInv.apply {data : ModeData} {t₀ : Terminal} {dev dev' : ConsoleDev}
    {h : List ScreenOp} (hinv : ScreenInv data t₀ dev h) {op : ScreenOp} (hop : op.OnScreen data)
    (happly : dev.apply data.columns op = some dev') : ScreenInv data t₀ dev' (h ++ [op]) := by
  rcases hinv with ⟨hnot, hshows, hhistory⟩ | ⟨hlate, hfreed⟩
  · left
    obtain ⟨dev₁, happly₁, hshows'⟩ := hshows.apply hop
    rw [happly] at happly₁
    cases happly₁
    rw [Terminal.applyAll_append]
    refine ⟨?_, hshows', ?_⟩
    · rw [clearedLate_append, not_or]
      refine ⟨hnot, ?_⟩
      rintro ⟨rfl, -⟩
      exact hop
    · obtain ⟨p, ps, line, lines, -, hlines, -⟩ := hshows.split
      rw [history_apply (by simp [hlines]) hop, hhistory]
      simp only [List.mem_append, List.mem_singleton, not_or]
      constructor
      · rintro ⟨hnone, hop⟩ row
        exact ⟨hnone row, fun heq => hop row heq.symm⟩
      · intro hnone
        exact ⟨fun row => (hnone row).1, fun row heq => (hnone row).2 heq.symm⟩
  · exact Or.inr ⟨clearedLate_append.mpr (Or.inl hlate), hfreed.apply happly⟩

theorem ScreenInv.clearHistory {data : ModeData} {t₀ : Terminal} {dev dev' : ConsoleDev}
    {h : List ScreenOp} (hinv : ScreenInv data t₀ dev h)
    (happly : dev.apply data.columns .clearHistory = some dev') :
    ScreenInv data t₀ dev' (h ++ [.clearHistory]) := by
  rcases hinv with ⟨hnot, hshows, hhistory⟩ | ⟨hlate, hfreed⟩
  · by_cases hnil : (t₀.applyAll data.columns h).history = []
    · -- nothing has scrolled off
      left
      obtain ⟨dev₁, happly₁, hshows'⟩ := hshows.clearHistory hnil
      rw [happly] at happly₁
      cases happly₁
      have hnone := hhistory.mp hnil
      rw [Terminal.applyAll_append]
      refine ⟨?_, hshows', ?_⟩
      · rw [clearedLate_append, not_or]
        refine ⟨hnot, ?_⟩
        rintro ⟨-, row, hrow⟩
        exact hnone row hrow
      · simpa [Terminal.apply] using hnone
    · -- the top row goes
      right
      refine ⟨clearedLate_append.mpr (Or.inr ⟨rfl, ?_⟩), hshows.freed hnil happly⟩
      by_contra hnone
      exact hnil (hhistory.mpr (not_exists.mp hnone))
  · exact Or.inr ⟨clearedLate_append.mpr (Or.inl hlate), hfreed.apply happly⟩

/-- The cursor may be put elsewhere. -/
theorem ScreenInv.moved {data : ModeData} {t₀ : Terminal} {dev : ConsoleDev} {h : List ScreenOp}
    (hinv : ScreenInv data t₀ dev h) (cursor : Cursor) :
    ScreenInv data t₀ { dev with cursor := cursor } h := by
  rcases hinv with ⟨hnot, hshows, hhistory⟩ | ⟨hlate, hfreed⟩
  · exact Or.inl ⟨hnot, ⟨hshows.nodup, hshows.holds, hshows.rows, hshows.rowLength,
      hshows.lineLength, hshows.top⟩, hhistory⟩
  · exact Or.inr ⟨hlate, hfreed⟩

theorem SameMode.trans {dev dev₁ dev₂ : ConsoleDev} (h : SameMode dev dev₁)
    (h' : SameMode dev₁ dev₂) : SameMode dev dev₂ :=
  ⟨h'.modeData.trans h.modeData, h'.mode.trans h.mode, h'.cursor.trans h.cursor,
    h'.screenBuffer.trans h.screenBuffer⟩

theorem applyAll_sameMode {columns : Nat} {dev' : ConsoleDev} :
    ∀ {ops : List ScreenOp} {dev : ConsoleDev}, dev.applyAll columns ops = some dev' →
      SameMode dev dev'
  | [], _, happly => by
      cases happly
      exact ⟨rfl, rfl, rfl, rfl⟩
  | op :: ops, dev, happly => by
      rcases Option.bind_eq_some_iff.mp happly with ⟨dev₁, hfirst, hrest⟩
      exact (apply_sameMode hfirst).trans (applyAll_sameMode hrest)

theorem ScreenInv.applyAll {data : ModeData} {t₀ : Terminal} {dev' : ConsoleDev} :
    ∀ {ops : List ScreenOp} {dev : ConsoleDev} {h : List ScreenOp}, ScreenInv data t₀ dev h →
      (∀ op ∈ ops, op.OnScreen data) → dev.applyAll data.columns ops = some dev' →
        SameMode dev dev' ∧ ScreenInv data t₀ dev' (h ++ ops)
  | [], dev, h, hinv, _, happly => by
      cases happly
      exact ⟨⟨rfl, rfl, rfl, rfl⟩, by simpa using hinv⟩
  | op :: ops, dev, h, hinv, hops, happly => by
      obtain ⟨dev₁, hfirst, hrest⟩ := Option.bind_eq_some_iff.mp happly
      have hinv₁ := hinv.apply (hops op List.mem_cons_self) hfirst
      obtain ⟨hmode, hinv'⟩ :=
        ScreenInv.applyAll hinv₁ (fun op hop => hops op (List.mem_cons_of_mem _ hop)) hrest
      exact ⟨(apply_sameMode hfirst).trans hmode, by simpa using hinv'⟩

inductive ConsoleCall where
  | outputString (wString : List Char16)
  | setCursorPosition (column row : Nat)
  | setAttribute (attr : UInt64)
  | clearScreen
  | clearHistory
  deriving DecidableEq, Repr

def callResult (dev : ConsoleDev) : ConsoleCall → Result
  | .outputString wString => outputString dev wString
  | .setCursorPosition column row => setCursorPosition dev column row
  | .setAttribute attr => setAttribute dev attr
  | .clearScreen => clearScreen dev
  | .clearHistory => clearHistory dev

/-- One call; the history of a run is what the calls have done to the screen. -/
def consoleStep (dev : ConsoleDev) (call : ConsoleCall) : Option (ConsoleDev × List ScreenOp) :=
  (callResult dev call).map Prod.snd

/-- In the mode, with the cursor on the screen. -/
structure Inv (data : ModeData) (t₀ : Terminal) (dev : ConsoleDev) (h : List ScreenOp) : Prop where
  known : queryMode dev dev.mode = .ok data
  cursor : dev.cursor.OnScreen data
  screen : ScreenInv data t₀ dev h

theorem queryMode_ok_iff {dev : ConsoleDev} {modeNumber : Option Nat} {data : ModeData} :
    queryMode dev modeNumber = .ok data ↔
      modeNumber.bind (fun mode => dev.modeData[mode]?) = some data ∧ 0 < data.columns ∧
        0 < data.rows := by
  rw [queryMode]
  cases modeNumber.bind (fun mode => dev.modeData[mode]?) with
  | none => simp
  | some found =>
      simp only [Option.some.injEq]
      split
      · next hzero =>
          constructor
          · intro h
            cases h
          · rintro ⟨rfl, hcolumns, hrows⟩
            omega
      · next hzero =>
          rw [Except.ok.injEq]
          constructor
          · rintro rfl
            exact ⟨rfl, by omega, by omega⟩
          · exact fun h => h.1

theorem SameMode.queryMode {dev dev' : ConsoleDev} (h : SameMode dev dev') :
    queryMode dev' dev'.mode = Console.queryMode dev dev.mode := by
  rw [Console.queryMode, Console.queryMode, h.mode, h.modeData]

/-- One call. -/
theorem Inv.step {data : ModeData} {t₀ : Terminal} {dev dev' : ConsoleDev}
    {h ops : List ScreenOp} (hinv : Inv data t₀ dev h) {call : ConsoleCall}
    (hstep : consoleStep dev call = some (dev', ops)) : Inv data t₀ dev' (h ++ ops) := by
  obtain ⟨hcurrent, hcolumns, hrows⟩ := queryMode_ok_iff.mp hinv.known
  obtain ⟨⟨status, dev₁, ops₁⟩, hresult, heq⟩ := Option.map_eq_some_iff.mp hstep
  cases heq
  cases call with
  | outputString wString =>
      simp only [callResult, outputString, ConsoleDev.current, hcurrent] at hresult
      obtain ⟨⟨cursor, ops₁⟩, hloop, hresult⟩ := Option.bind_eq_some_iff.mp hresult
      obtain ⟨dev₂, happly, hresult⟩ := Option.bind_eq_some_iff.mp hresult
      cases hresult
      obtain ⟨hcursor, hops⟩ := outputLoop_onScreen hinv.cursor hloop
      obtain ⟨hmode, hscreen⟩ := hinv.screen.applyAll hops happly
      have hknown := hmode.queryMode.trans hinv.known
      exact ⟨hknown, hcursor, hscreen.moved _⟩
  | setCursorPosition column row =>
      simp only [callResult, setCursorPosition, ConsoleDev.current, hcurrent] at hresult
      split at hresult
      · -- a position that is not on the screen is refused
        cases hresult
        simpa using hinv
      · next hfits =>
          cases hresult
          refine ⟨hinv.known, ?_, by simpa using hinv.screen.moved _⟩
          constructor
          · simp only
            omega
          · simp only
            omega
  | setAttribute attr =>
      simp only [callResult, setAttribute] at hresult
      split at hresult
      · cases hresult
        simpa using hinv
      · cases hresult
        exact ⟨hinv.known, hinv.cursor, by simpa using hinv.screen.moved _⟩
  | clearScreen =>
      simp only [callResult, clearScreen, ConsoleDev.current, hcurrent] at hresult
      obtain ⟨dev₂, happly, hresult⟩ := Option.bind_eq_some_iff.mp hresult
      cases hresult
      have hscreen := hinv.screen.apply (show ScreenOp.OnScreen data (.clear _) from trivial) happly
      have hknown := (apply_sameMode happly).queryMode.trans hinv.known
      exact ⟨hknown, ⟨hcolumns, hrows⟩, hscreen.moved _⟩
  | clearHistory =>
      simp only [callResult, clearHistory] at hresult
      obtain ⟨dev₂, happly, hresult⟩ := Option.bind_eq_some_iff.mp hresult
      cases hresult
      have hscreen := hinv.screen.clearHistory happly
      have hmode := apply_sameMode happly
      exact ⟨hmode.queryMode.trans hinv.known, by rw [hmode.cursor]; exact hinv.cursor, hscreen⟩

/-! ## Where a run starts -/

theorem allocRows_holds (columns : Nat) : ∀ (rows : Nat) (m : Pool ScreenChar),
    (∀ p ∈ (allocRows m columns rows).1, m.next ≤ p) ∧ (allocRows m columns rows).1.Nodup ∧
      (allocRows m columns rows).2.Holds (allocRows m columns rows).1
        (List.replicate rows (List.replicate columns ⟨charNull, 0⟩)) ∧
      ∀ p < m.next, (allocRows m columns rows).2.buffer p = m.buffer p
  | 0, m => ⟨by simp [allocRows], List.nodup_nil, List.Forall₂.nil, fun _ _ => rfl⟩
  | rows + 1, m => by
      have hfirst : (m.alloc (List.replicate columns (ScreenChar.mk charNull 0))).2.next =
          m.next + 1 := rfl
      obtain ⟨hfresh, hnodup, hholds, hkept⟩ :=
        allocRows_holds columns rows (m.alloc (List.replicate columns ⟨charNull, 0⟩)).2
      rw [hfirst] at hfresh hkept
      simp only [allocRows]
      refine ⟨?_, ?_, ?_, ?_⟩
      · intro p hp
        rcases List.mem_cons.mp hp with rfl | hp
        · exact Nat.le_refl _
        · exact Nat.le_of_succ_le (hfresh p hp)
      · refine List.nodup_cons.mpr ⟨fun hmem => ?_, hnodup⟩
        exact absurd (hfresh _ hmem) (Nat.not_succ_le_self _)
      · refine List.Forall₂.cons ?_ hholds
        exact (hkept m.next (Nat.lt_succ_self _)).trans (Function.update_self _ _ _)
      · intro p hp
        rw [hkept p (Nat.lt_succ_of_lt hp)]
        exact Function.update_of_ne (Nat.ne_of_lt hp) _ _

/-- `SetMode` has just changed to a mode that `QueryMode` knows. -/
def JustSet (data : ModeData) (dev : ConsoleDev) : Prop :=
  ∃ dev₀ modeNumber ops, dev₀.mode ≠ some modeNumber ∧
    setMode dev₀ modeNumber = some (.success, dev, ops) ∧
    queryMode dev (some modeNumber) = .ok data

theorem changeMode_shows {dev₀ dev : ConsoleDev} {modeNumber : Nat} {data : ModeData}
    (hrows : 0 < data.rows) (h : changeMode dev₀ modeNumber data = some dev) :
    Shows data dev (freshTerminal data 0) ∧ dev.modeData = dev₀.modeData ∧
      dev.mode = some modeNumber ∧ dev.cursor.column = 0 ∧ dev.cursor.row = 0 := by
  obtain ⟨m₁, -, h⟩ := Option.bind_eq_some_iff.mp h
  obtain ⟨m₂, -, h⟩ := Option.bind_eq_some_iff.mp h
  obtain ⟨-, hnodup, hholds, -⟩ := allocRows_holds data.columns data.rows m₂
  cases h
  refine ⟨⟨hnodup, hholds, ?_, ?_, ?_, ?_⟩, rfl, rfl, rfl, rfl⟩
  · exact List.length_replicate
  · intro line hline
    rw [List.eq_of_mem_replicate hline]
    exact List.length_replicate
  · simp [freshTerminal]
  · have hlength := hholds.length_eq
    rw [List.length_replicate] at hlength
    exact ⟨_, List.getElem?_eq_getElem (by rw [hlength]; exact hrows), rfl⟩

theorem JustSet.inv {data : ModeData} {dev : ConsoleDev} (h : JustSet data dev) :
    Inv data (freshTerminal data dev.cursor.attr) dev [] := by
  obtain ⟨dev₀, modeNumber, ops, hmode, hset, hknown⟩ := h
  obtain ⟨hdata, hcolumns, hrows⟩ := queryMode_ok_iff.mp hknown
  rw [setMode] at hset
  split at hset
  · cases hset
  · next newMode hnew =>
      split at hset
      · cases hset
      · simp only at hset
        obtain ⟨dev₁, hchange, hset⟩ := Option.bind_eq_some_iff.mp hset
        obtain ⟨dev₂, hclear, hset⟩ := Option.bind_eq_some_iff.mp hset
        cases hset
        have hsame := apply_sameMode hclear
        -- the mode data are still the same
        have hdata' : newMode = data := by
          obtain ⟨m₁, -, hchange⟩ := Option.bind_eq_some_iff.mp hchange
          obtain ⟨m₂, -, hchange⟩ := Option.bind_eq_some_iff.mp hchange
          cases hchange
          rw [Option.bind_some, hsame.modeData] at hdata
          exact Option.some.inj (hnew.symm.trans hdata)
        cases hdata'
        obtain ⟨hshows, hmodeData, hmode', hcolumn, hrow⟩ := changeMode_shows hrows hchange
        obtain ⟨dev₃, hclear', hshows'⟩ := hshows.clear dev₁.cursor.attr
        rw [hclear] at hclear'
        cases hclear'
        refine ⟨?_, ?_, Or.inl ⟨?_, ?_, ?_⟩⟩
        · rw [hsame.mode, hmode']
          exact hknown
        · rw [hsame.cursor]
          exact ⟨by rw [hcolumn]; exact hcolumns, by rw [hrow]; exact hrows⟩
        · rintro ⟨h₁, h₂, row, hnil, -⟩
          simp at hnil
        · rw [hsame.cursor]
          simpa [Terminal.applyAll, Terminal.apply, freshTerminal] using hshows'
        · simp [Terminal.applyAll, freshTerminal]

/-- Every run. -/
theorem JustSet.run {data : ModeData} {dev₀ dev : ConsoleDev} {h : List ScreenOp}
    (hset : JustSet data dev₀) (hr : Reach consoleStep (fun _ _ => True) dev₀ dev h) :
    Inv data (freshTerminal data dev₀.cursor.attr) dev h := by
  refine hr.invariant (Inv data (freshTerminal data dev₀.cursor.attr)) hset.inv ?_
  intro s s' h evs call hinv _ hstep
  exact hinv.step hstep

/-! ## Every call returns -/

theorem printLoop_length (maxColumn : Nat) (cursor : Cursor) (wString : List Char16) (index : Nat) :
    (printLoop maxColumn cursor index wString).2.1.length ≤ wString.length := by
  induction wString generalizing index with
  | nil => simp [printLoop]
  | cons c wString ih =>
      rw [printLoop]
      split
      · simp only
        split
        · split
          · exact Nat.le_refl _
          · exact Nat.le_succ_of_le (ih _)
        · exact Nat.le_succ_of_le (ih _)
      · exact Nat.le_refl _

/-- A character is printed, unless it is too wide for the last column. -/
theorem printLoop_advances {maxColumn : Nat} {cursor : Cursor} (hcolumn : cursor.column < maxColumn)
    {c : Char16} (hc : isControl c = false) (wString : List Char16) :
    (printLoop maxColumn cursor 0 (c :: wString)).2.1.length ≤ wString.length ∨
      maxColumn < cursor.column + 2 ∧ (printLoop maxColumn cursor 0 (c :: wString)).1 = 2 := by
  have hprint : cursor.column + 0 < maxColumn ∧ ¬ isControl c = true := by
    rw [hc]
    exact ⟨hcolumn, by simp⟩
  rw [printLoop, if_pos hprint]
  simp only
  split
  · split
    · next hwide => exact Or.inr ⟨by omega, rfl⟩
    · exact Or.inl (printLoop_length _ _ _ _)
  · exact Or.inl (printLoop_length _ _ _ _)

theorem crLf_returns {maxColumn maxRow fuel : Nat} (hfuel : 3 ≤ fuel) (cursor : Cursor) :
    ∃ out, outputLoop maxColumn maxRow fuel cursor mCrLfString = some out := by
  obtain ⟨fuel, rfl⟩ : ∃ n, fuel = n + 3 := ⟨fuel - 3, by omega⟩
  have hcr : charCarriageReturn ≠ charNull := by decide
  have hlf : charLinefeed ≠ charNull := by decide
  by_cases hrow : cursor.row = maxRow - 1
  · exact ⟨_, by simp [outputLoop, mCrLfString, outputRound_cr, outputRound_lf, hcr, hlf, hrow]; rfl⟩
  · exact ⟨_, by simp [outputLoop, mCrLfString, outputRound_cr, outputRound_lf, hcr, hlf, hrow]; rfl⟩

/-- A round returns. If it prints nothing, then it puts the cursor at the start of a line. -/
theorem outputRound_returns {data : ModeData} (hcolumns : 2 ≤ data.columns)
    {crLf : Cursor → Option (Cursor × List ScreenOp)} (hcrLf : CrLf data.rows crLf)
    (hreturns : ∀ cursor, ∃ out, crLf cursor = some out) {cursor : Cursor}
    (hcursor : cursor.OnScreen data) {c : Char16} (hc : c ≠ charNull) (wString : List Char16) :
    ∃ next rest ops, outputRound data.columns data.rows crLf cursor c wString =
        some (next, rest, ops) ∧
      2 * rest.length + min next.column 1 < 2 * (wString.length + 1) + min cursor.column 1 := by
  have hcontrol : ∀ next : Cursor, 2 * wString.length + min next.column 1 <
      2 * (wString.length + 1) + min cursor.column 1 := by
    intro next
    omega
  unfold outputRound
  split
  · exact ⟨_, _, _, rfl, hcontrol _⟩
  · next hbackspace =>
      split
      · split
        · exact ⟨_, _, _, rfl, hcontrol _⟩
        · exact ⟨_, _, _, rfl, hcontrol _⟩
      · next hlinefeed =>
          split
          · exact ⟨_, _, _, rfl, hcontrol _⟩
          · next hreturn =>
              split
              · exact ⟨_, _, _, rfl, hcontrol _⟩
              · next hwide =>
                  split
                  · exact ⟨_, _, _, rfl, hcontrol _⟩
                  · next hnarrow =>
                      have hprint : isControl c = false := by
                        simp [isControl, hc, hbackspace, hlinefeed, hreturn, hwide, hnarrow]
                      have hadvances := printLoop_advances hcursor.1 hprint wString
                      have hlength := printLoop_length data.columns cursor (c :: wString) 0
                      rw [List.length_cons] at hlength
                      generalize printLoop data.columns cursor 0 (c :: wString) = printed
                        at hadvances hlength ⊢
                      obtain ⟨index, rest, ops⟩ := printed
                      simp only at hadvances hlength ⊢
                      split
                      · next hwraps =>
                          obtain ⟨⟨cursor', ops'⟩, hout⟩ :=
                            hreturns { cursor with column := cursor.column + index }
                          have hstart := (hcrLf _ _ _ hout).1
                          refine ⟨_, rest, _, by rw [hout]; rfl, ?_⟩
                          simp only [hstart]
                          rcases hadvances with hadvances | ⟨hlast, hindex⟩
                          · omega
                          · omega
                      · next hfits =>
                          -- the character did fit
                          refine ⟨_, rest, ops, rfl, ?_⟩
                          simp only
                          omega

theorem outputLoop_returns {data : ModeData} (hcolumns : 2 ≤ data.columns) {fuel : Nat} :
    ∀ {cursor : Cursor} {wString : List Char16}, cursor.OnScreen data →
      2 * wString.length + min cursor.column 1 + 4 ≤ fuel →
        ∃ out, outputLoop data.columns data.rows fuel cursor wString = some out := by
  induction fuel with
  | zero =>
      intro cursor wString _ hfuel
      omega
  | succ fuel ih =>
      intro cursor wString hcursor hfuel
      cases wString with
      | nil => exact ⟨_, rfl⟩
      | cons c wString =>
          by_cases hc : c = charNull
          · exact ⟨(cursor, []), by rw [outputLoop, if_pos hc]⟩
          · rw [List.length_cons] at hfuel
            obtain ⟨next, rest, ops, hround, hless⟩ := outputRound_returns hcolumns
              (crLf_outputLoop data.columns data.rows fuel)
              (crLf_returns (by omega)) hcursor hc wString
            have hnext := (outputRound_onScreen
              (crLf_outputLoop data.columns data.rows fuel) hcursor hround).1
            have hfuel' : 2 * rest.length + min next.column 1 + 4 ≤ fuel := by omega
            obtain ⟨out, hout⟩ := ih hnext hfuel'
            refine ⟨(out.1, ops ++ out.2), ?_⟩
            rw [outputLoop, if_neg hc]
            simp [hround, hout]

theorem outputString_step {data : ModeData} {dev : ConsoleDev} {t : Terminal}
    {wString : List Char16} {cursor : Cursor} {ops : List ScreenOp}
    (hknown : queryMode dev dev.mode = .ok data) (hcursor : dev.cursor.OnScreen data)
    (hshows : Shows data dev t)
    (hloop : outputLoop data.columns data.rows (loopBound wString) dev.cursor wString =
      some (cursor, ops)) :
    ∃ dev', consoleStep dev (.outputString wString) = some (dev', ops) := by
  obtain ⟨hcurrent, -, -⟩ := queryMode_ok_iff.mp hknown
  obtain ⟨dev', happly⟩ := hshows.applyAll (outputLoop_onScreen hcursor hloop).2
  refine ⟨{ dev' with cursor := { cursor with attr := dev.cursor.attr } }, ?_⟩
  simp only [consoleStep, callResult, outputString, ConsoleDev.current, hcurrent, hloop]
  simp [happly]

/-- As long as nothing has scrolled off that is cleared, every call returns. -/
theorem call_returns {data : ModeData} (hcolumns : 2 ≤ data.columns) {dev₀ dev : ConsoleDev}
    {h : List ScreenOp} (hset : JustSet data dev₀)
    (hr : Reach consoleStep (fun _ _ => True) dev₀ dev h) {call : ConsoleCall}
    (hlate : ¬ ClearedLate h) (hclear : call = .clearHistory → ∀ row, .scroll row ∉ h) :
    ∃ dev' ops, consoleStep dev call = some (dev', ops) := by
  have hinv := hset.run hr
  obtain ⟨hcurrent, -, -⟩ := queryMode_ok_iff.mp hinv.known
  obtain ⟨hshows, hhistory⟩ := (hinv.screen.resolve_right fun hfreed => hlate hfreed.1).2
  cases call with
  | outputString wString =>
      obtain ⟨⟨cursor, ops⟩, hloop⟩ := outputLoop_returns hcolumns hinv.cursor
        (by rw [loopBound]; omega : 2 * wString.length + min dev.cursor.column 1 + 4 ≤
          loopBound wString)
      obtain ⟨dev', hstep⟩ := outputString_step hinv.known hinv.cursor hshows hloop
      exact ⟨dev', ops, hstep⟩
  | setCursorPosition column row =>
      simp only [consoleStep, callResult, setCursorPosition, ConsoleDev.current, hcurrent]
      split
      · exact ⟨_, _, rfl⟩
      · exact ⟨_, _, rfl⟩
  | setAttribute attr =>
      simp only [consoleStep, callResult, setAttribute]
      split
      · exact ⟨_, _, rfl⟩
      · exact ⟨_, _, rfl⟩
  | clearScreen =>
      obtain ⟨dev', happly, -⟩ := hshows.clear dev.cursor.attr
      refine ⟨{ dev' with cursor := { dev.cursor with column := 0, row := 0 } },
        [.clear dev.cursor.attr], ?_⟩
      simp only [consoleStep, callResult, clearScreen, ConsoleDev.current, hcurrent]
      simp [happly]
  | clearHistory =>
      -- no row went to the history yet, so its rows are all its own
      obtain ⟨dev', happly, -⟩ := hshows.clearHistory (hhistory.mpr (hclear rfl))
      refine ⟨dev', [.clearHistory], ?_⟩
      have happly' : dev.apply 0 .clearHistory = some dev' := happly
      simp only [consoleStep, callResult, clearHistory, happly']
      rfl

/-! ## `GetScreen` -/

/-- `GetScreen` with a large enough buffer returns what the terminal has, and how much that
is. -/
def ShowsScrollback (dev : ConsoleDev) (t : Terminal) : Prop :=
  ∃ data, queryMode dev dev.mode = .ok data ∧
    ∀ buffer charNum, data.columns * (t.history.length + data.rows) ≤ charNum →
      getScreen dev (some buffer) (some charNum) true =
        some (.success, some (data.columns * (t.history.length + data.rows)),
          (t.history ++ t.rows).flatten)

/-- What it does return: the top row once more for each line of the history. -/
theorem getScreen_eq {data : ModeData} {dev : ConsoleDev} {t : Terminal}
    (hknown : queryMode dev dev.mode = .ok data) (h : Shows data dev t) :
    ∃ top, t.rows.head? = some top ∧
      ∀ buffer charNum, data.columns * (t.history.length + data.rows) ≤ charNum →
        getScreen dev (some buffer) (some charNum) true =
          some (.success, some (data.columns * (t.history.length + data.rows)),
            (List.replicate t.history.length top ++ t.rows).flatten) := by
  obtain ⟨p, ps, line, lines, hps, hlines, hline, hrest, hhistory⟩ := h.split
  refine ⟨line, by rw [hlines]; rfl, ?_⟩
  intro buffer charNum henough
  have hlength : dev.screenHistory.length = t.history.length := by simp [hhistory]
  have hhistoryM : dev.screenHistory.mapM dev.memory.buffer =
      some (List.replicate t.history.length line) := by
    rw [hhistory]
    exact (Pool.holds_replicate hline t.history.length).mapM
  have htake : dev.screenBuffer.take data.rows = dev.screenBuffer :=
    List.take_of_length_le (Nat.le_of_eq (h.holds.length_eq.trans h.rows))
  have hfits : ¬ charNum < data.columns * (t.history.length + data.rows) := by omega
  simp [getScreen, hknown, hlength, hfits, hhistoryM, htake, h.holds.mapM]

theorem getScreen_freed {data : ModeData} {dev : ConsoleDev}
    (hknown : queryMode dev dev.mode = .ok data) (h : Freed dev) (buffer : Ptr) {charNum : Nat}
    (henough : data.columns * (dev.screenHistory.length + data.rows) ≤ charNum) :
    getScreen dev (some buffer) (some charNum) true = none := by
  obtain ⟨p, hp, hnone⟩ := h
  obtain ⟨-, -, hrows⟩ := queryMode_ok_iff.mp hknown
  obtain ⟨ps, hps⟩ := List.head?_eq_some_iff.mp (List.head?_eq_getElem? ▸ hp)
  obtain ⟨n, hn⟩ := Nat.exists_eq_succ_of_ne_zero (Nat.ne_of_gt hrows)
  have hrowsM : (dev.screenBuffer.take data.rows).mapM dev.memory.buffer = none := by
    rw [hps, hn, Nat.succ_eq_add_one, List.take_succ_cons, List.mapM_cons, hnone]
    rfl
  have hfits : ¬ charNum < data.columns * (dev.screenHistory.length + data.rows) := by omega
  simp only [getScreen, hknown, hfits, if_true, if_false, hrowsM]
  cases dev.screenHistory.mapM dev.memory.buffer with
  | none => rfl
  | some lines => rfl

/-- Rows of one length, one behind the other, can be told apart. -/
theorem flatten_inj {n : Nat} {xs ys : List Row} (hlength : xs.length = ys.length)
    (hxs : ∀ x ∈ xs, x.length = n) (hys : ∀ y ∈ ys, y.length = n)
    (h : xs.flatten = ys.flatten) : xs = ys := by
  refine List.eq_iff_flatten_eq.mpr ⟨h, ?_⟩
  have hmap : ∀ zs : List Row, (∀ z ∈ zs, z.length = n) →
      zs.map List.length = List.replicate zs.length n := by
    intro zs hzs
    rw [← List.map_const']
    exact List.map_congr_left hzs
  rw [hmap xs hxs, hmap ys hys, hlength]

/-- The lines of the history all read as the top row does. -/
theorem showsScrollback_iff {data : ModeData} {dev : ConsoleDev} {t : Terminal}
    (hknown : queryMode dev dev.mode = .ok data) (h : Shows data dev t) :
    ShowsScrollback dev t ↔ ∀ line ∈ t.history, t.rows.head? = some line := by
  obtain ⟨top, htop, hget⟩ := getScreen_eq hknown h
  have htopMem : top ∈ t.rows := List.mem_of_head? htop
  rw [htop]
  constructor
  · rintro ⟨data', hknown', hscreen⟩ line hline
    rw [hknown, Except.ok.injEq] at hknown'
    cases hknown'
    have heq := (hget 0 _ (Nat.le_refl _)).symm.trans (hscreen 0 _ (Nat.le_refl _))
    simp only [Option.some.injEq, Prod.mk.injEq, true_and, List.flatten_append,
      List.append_cancel_right_eq] at heq
    have hsame : List.replicate t.history.length top = t.history := by
      refine flatten_inj (by simp) ?_ h.lineLength heq
      intro l hl
      rw [List.eq_of_mem_replicate hl]
      exact h.rowLength top htopMem
    rw [← hsame] at hline
    rw [List.eq_of_mem_replicate hline]
  · intro hall
    have hsame : t.history = List.replicate t.history.length top :=
      List.eq_replicate_iff.mpr ⟨rfl, fun line hline => (Option.some.inj (hall line hline)).symm⟩
    refine ⟨data, hknown, ?_⟩
    rw [← hsame] at hget
    exact hget

theorem not_showsScrollback_of_freed {data : ModeData} {dev : ConsoleDev}
    (hknown : queryMode dev dev.mode = .ok data) (hfreed : Freed dev) (t : Terminal) :
    ¬ ShowsScrollback dev t := by
  rintro ⟨data', hknown', hscreen⟩
  rw [hknown, Except.ok.injEq] at hknown'
  cases hknown'
  -- a buffer that is large enough for both
  have hnone := getScreen_freed hknown hfreed 0 (Nat.le_add_left
    (data.columns * (dev.screenHistory.length + data.rows))
    (data.columns * (t.history.length + data.rows)))
  rw [hscreen 0 _ (Nat.le_add_right _ _)] at hnone
  cases hnone

/-- The terminal that has seen what a run has done. -/
def terminalOf (data : ModeData) (dev : ConsoleDev) (h : List ScreenOp) : Terminal :=
  (freshTerminal data dev.cursor.attr).applyAll data.columns h

/-- In every run, `GetScreen` returns what has scrolled off exactly if it has not been
cleared since, and is what the top row shows now. -/
theorem scrollback_iff {data : ModeData} {dev₀ dev : ConsoleDev} {h : List ScreenOp}
    (hset : JustSet data dev₀) (hr : Reach consoleStep (fun _ _ => True) dev₀ dev h) :
    ShowsScrollback dev (terminalOf data dev₀ h) ↔
      ¬ ClearedLate h ∧ ∀ line ∈ (terminalOf data dev₀ h).history,
        (terminalOf data dev₀ h).rows.head? = some line := by
  have hinv := hset.run hr
  rcases hinv.screen with ⟨hnot, hshows, -⟩ | ⟨hlate, hfreed⟩
  · rw [and_iff_right hnot]
    exact showsScrollback_iff hinv.known hshows
  · constructor
    · intro hscreen
      exact absurd hscreen (not_showsScrollback_of_freed hinv.known hfreed _)
    · rintro ⟨hnot, -⟩
      exact absurd hlate hnot

/-- The console before its first mode is set. -/
def virtualConsole : ConsoleDev where
  modeData := [⟨80, 25⟩, ⟨80, 50⟩, ⟨100, 31⟩]
  mode := none
  cursor := ⟨0, 0, 0x07⟩
  screenHistory := []
  screenBuffer := []
  memory := Pool.empty

theorem virtualConsole_set : ∃ dev, JustSet ⟨80, 25⟩ dev ∧ dev.cursor = ⟨0, 0, 0x07⟩ := by
  have hset : ∃ dev, setMode virtualConsole 0 = some (.success, dev, [.clear 0x07]) ∧
      dev.cursor = ⟨0, 0, 0x07⟩ ∧ queryMode dev (some 0) = .ok ⟨80, 25⟩ := ⟨_, rfl, rfl, rfl⟩
  obtain ⟨dev, hset, hcursor, hknown⟩ := hset
  exact ⟨dev, ⟨virtualConsole, 0, _, by decide, hset, hknown⟩, hcursor⟩

/-- One string on a new screen of 80 columns and 25 rows. -/
theorem virtualConsole_outputs {wString : List Char16} {cursor : Cursor} {ops : List ScreenOp}
    (hloop : outputLoop 80 25 (loopBound wString) ⟨0, 0, 0x07⟩ wString = some (cursor, ops)) :
    ∃ dev₀ dev, JustSet ⟨80, 25⟩ dev₀ ∧ dev₀.cursor = ⟨0, 0, 0x07⟩ ∧
      Reach consoleStep (fun _ _ => True) dev₀ dev ops := by
  obtain ⟨dev₀, hset, hcursor⟩ := virtualConsole_set
  have hinv := hset.inv
  have hshows : Shows ⟨80, 25⟩ dev₀ _ := (hinv.screen.resolve_right fun hlate => by
    obtain ⟨⟨h₁, h₂, row, hnil, -⟩, -⟩ := hlate
    simp at hnil).2.1
  rw [← hcursor] at hloop
  obtain ⟨dev, hstep⟩ := outputString_step hinv.known hinv.cursor hshows hloop
  exact ⟨dev₀, dev, hset, hcursor, Reach.init.step trivial hstep⟩

/-- The 25th line feed scrolls a blank row off a blank screen. -/
theorem blank_row_kept : ∃ dev₀ dev, JustSet ⟨80, 25⟩ dev₀ ∧
    ShowsScrollback dev (terminalOf ⟨80, 25⟩ dev₀ [.scroll 24]) := by
  have hloop : outputLoop 80 25 (loopBound (List.replicate 25 charLinefeed)) ⟨0, 0, 0x07⟩
      (List.replicate 25 charLinefeed) = some (⟨0, 24, 0x07⟩, [.scroll 24]) := rfl
  obtain ⟨dev₀, dev, hset, hcursor, hr⟩ := virtualConsole_outputs hloop
  refine ⟨dev₀, dev, hset, (scrollback_iff hset hr).mpr ⟨?_, ?_⟩⟩
  · rintro ⟨h₁, h₂, row, heq, hrow⟩
    rcases h₁ with _ | ⟨op, h₁⟩
    · cases hrow
    · simp at heq
  · rw [terminalOf, hcursor]
    decide +kernel

/-- After a character and 25 line feeds, the row with the character is in the history, and
`GetScreen` returns a blank one. -/
theorem scrolled_row_lost :
    ¬ ∀ (data : ModeData) (dev₀ dev : ConsoleDev) (h : List ScreenOp), JustSet data dev₀ →
      Reach consoleStep (fun _ _ => True) dev₀ dev h →
        ShowsScrollback dev (terminalOf data dev₀ h) := by
  intro hclaim
  have hloop : outputLoop 80 25 (loopBound (ch 'a' :: List.replicate 25 charLinefeed))
      ⟨0, 0, 0x07⟩ (ch 'a' :: List.replicate 25 charLinefeed) =
        some (⟨1, 24, 0x07⟩, [.put 0 0 ⟨ch 'a', 0x07⟩, .scroll 24]) := rfl
  obtain ⟨dev₀, dev, hset, hcursor, hr⟩ := virtualConsole_outputs hloop
  have hinv := hset.run hr
  have hscreen := hclaim _ _ _ _ hset hr
  rcases hinv.screen with ⟨-, hshows, -⟩ | ⟨-, hfreed⟩
  · have hall := (showsScrollback_iff hinv.known hshows).mp hscreen
    rw [hcursor] at hall
    revert hall
    decide +kernel
  · exact not_showsScrollback_of_freed hinv.known hfreed _ hscreen

end EfiLvgl.Console
