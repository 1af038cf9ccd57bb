import EfiLvgl.Lib.Run
import EfiLvgl.Repl.Model

/-!
# EfiLvgl.Repl.Editor — protected length, cursor and line

The line editor means to keep the protected length before the cursor, and the cursor
within the line (`Ordered`). A key handler leaves the line ready to be drawn again
(`Ready`), and drawing it puts the cursor back in order, unless the handler changes one
of the three alone.

`order_kept_iff`: a run keeps the order, and passes on lengths of the line only,
exactly if none of its keys is such a one (`KeyOk`).
-/

namespace EfiLvgl.Repl

open EfiLvgl.CString EfiLvgl.Run EfiLvgl.Slots

/-! ## The order -/

/-- The protected length, the cursor, and the length of the line. -/
structure Ordered (s : ReplState) : Prop where
  orig_le : s.data.origLineLength ≤ s.data.cursorPos
  cursor_le : s.data.cursorPos ≤ s.data.line.len

/-- The lengths and offsets that are passed on. -/
def ReplEvent.lengths : ReplEvent → List Nat
  | .stdout _ => []
  | .stdoutLine start length => [start, length]
  | .replPrint start length => [start, length]
  | .autocomplete start length => [start, length]
  | .pushHistory start => [start]
  | .insByte bytePos => [bytePos]
  | .cutOutBytes bytePos bytesToCut => [bytePos, bytesToCut]
  | .cutTailBytes len => [len]
  | .moveCursorBack pos => [pos]
  | .eraseLineFromCursor chars => [chars]

/-- None of them is larger. -/
def ReplEvent.Within (e : ReplEvent) (length : Nat) : Prop := ∀ n ∈ e.lengths, n ≤ length

/-- What the key has left is in order, and what has been passed on is within the line, as it
was before the key or as it is after it. -/
def InOrder (s s' : ReplState) (evs : List ReplEvent) : Prop :=
  Ordered s' ∧ ∀ e ∈ evs, e.Within (max s.data.line.len s'.data.line.len)

/-! ## Keys that keep the order -/

/-- The line is submitted without its blanks at the end. -/
def StripOk (s : ReplState) : Prop := s.data.cursorPos ≤ (replLineStrip s.data.line).len

/-- A line goes on with the cursor at its end. -/
def ContinueOk (s : ReplState) : Prop :=
  if endsBlank s.data.line then StripOk s else s.data.cursorPos = s.data.line.len

/-- The line is emptied under the cursor only at its start, stripped only behind the cursor,
and protected only with the cursor at its end. -/
def KeyOk (env : Environment) (s : ReplState) : KeyCase → Prop
  | .ctrlE => s.data.cursorPos = 0
  | .ctrlD => s.replMode = .continue → StripOk s
  | .enter =>
      match s.replMode with
      | .normal => env.continueWithInput (cstr s.data.line.text) → ContinueOk s
      | .continue => ContinueOk s
      | .paste => s.data.cursorPos = s.data.line.len
  | .scanEsc => s.replMode = .paste → s.data.cursorPos = 0
  | _ => True

/-- Where no key is read, there is nothing to keep. -/
def StrokeOk (s : ReplState) (stroke : Environment × Option InputKey) : Prop :=
  ∀ key, stroke.2 = some key → KeyOk stroke.1 s key.case

instance (s : ReplState) : Decidable (StripOk s) := inferInstanceAs (Decidable (_ ≤ _))

instance (s : ReplState) : Decidable (ContinueOk s) :=
  inferInstanceAs (Decidable (if endsBlank s.data.line then StripOk s else
    s.data.cursorPos = s.data.line.len))

instance (env : Environment) (s : ReplState) : (key : KeyCase) → Decidable (KeyOk env s key)
  | .ctrlE => inferInstanceAs (Decidable (_ = _))
  | .ctrlD => inferInstanceAs (Decidable (_ = _ → StripOk s))
  | .enter =>
      match h : s.replMode with
      | .normal =>
          decidable_of_iff (env.continueWithInput (cstr s.data.line.text) → ContinueOk s)
            (by simp only [KeyOk, h])
      | .continue => decidable_of_iff (ContinueOk s) (by simp only [KeyOk, h])
      | .paste => decidable_of_iff (s.data.cursorPos = s.data.line.len) (by simp only [KeyOk, h])
  | .scanEsc => inferInstanceAs (Decidable (_ = _ → _ = _))
  | .backspace | .tab | .char _ | .scanUp | .scanDown | .scanRight | .scanLeft | .scanEnd
  | .scanHome | .scanDelete | .other => isTrue trivial

instance (s : ReplState) (stroke : Environment × Option InputKey) : Decidable (StrokeOk s stroke) :=
  inferInstanceAs (Decidable (∀ key ∈ stroke.2, KeyOk stroke.1 s key.case))

/-! ## Ready to be drawn -/

/-- No entry of the history is larger than the heap. -/
def HistoryFits (history : Table (List UInt8) replHistSize) : Prop :=
  ∀ i entry, history i = some entry → entry.length ≤ mHeapSize

structure Inv (s : ReplState) : Prop where
  ordered : Ordered s
  fits : s.data.line.Fits
  history : HistoryFits s.data.history

/-- After the step back and the step forward, the cursor is in order; a loop that has
returned draws nothing. -/
structure Ready (oldLineLength : Nat) (s : ReplState) (r : Redraw) (evs : List ReplEvent) :
    Prop where
  quiet : s.returned = none ∨ r = noRedraw
  fits : s.data.line.Fits
  history : HistoryFits s.data.history
  cursor_within : s.data.cursorPos ≤ max oldLineLength s.data.line.len
  back_nonneg : 0 ≤ r.stepBack
  back_le : (s.data.origLineLength : Int) + r.stepBack ≤ s.data.cursorPos
  forward_nonneg : 0 ≤ r.stepForward
  forward_le : (s.data.cursorPos : Int) - r.stepBack + r.stepForward ≤ s.data.line.len
  events : ∀ e ∈ evs, e.Within (max oldLineLength s.data.line.len)

theorem uintn_eq {z : Int} {n : Nat} (h : z = n) (hlt : n ≤ 2 * mHeapSize) : uintn z = n := by
  rw [mHeapSize] at hlt
  rw [h, uintn_of_nonneg (by omega) (by omega)]
  rfl

/-- The cursor is put there. -/
def ReplState.at (s : ReplState) (cursorPos : Nat) : ReplState :=
  { s with data := { s.data with cursorPos := cursorPos } }

@[simp] theorem at_cursorPos (s : ReplState) (n : Nat) : (s.at n).data.cursorPos = n := rfl

@[simp] theorem at_line (s : ReplState) (n : Nat) : (s.at n).data.line = s.data.line := rfl

@[simp] theorem at_origLineLength (s : ReplState) (n : Nat) :
    (s.at n).data.origLineLength = s.data.origLineLength := rfl

theorem moveCursor_eq {s : ReplState} {steps : Int} {n : Nat} (h : s.data.cursorPos + steps = n)
    (hlt : n ≤ 2 * mHeapSize) : s.moveCursor steps = s.at n := by
  rw [ReplState.moveCursor, uintn_eq h hlt, ReplState.at]

theorem within_one {e : ReplEvent} {length n : Nat} (he : e.lengths = [n])
    (hn : n ≤ length) : e.Within length := by
  intro m hm
  rw [he] at hm
  cases List.mem_singleton.mp hm
  exact hn

theorem within_two {e : ReplEvent} {length n k : Nat} (he : e.lengths = [n, k])
    (hn : n ≤ length) (hk : k ≤ length) : e.Within length := by
  intro m hm
  rw [he] at hm
  rcases List.mem_cons.mp hm with rfl | hm
  · exact hn
  · cases List.mem_singleton.mp hm
    exact hk

/-- What the cursor comes to, in natural numbers. -/
theorem Ready.steps {oldLineLength : Nat} {s : ReplState} {r : Redraw} {evs : List ReplEvent}
    (h : Ready oldLineLength s r evs) :
    ∃ cursor forward : Nat, (s.data.cursorPos : Int) - r.stepBack = cursor ∧
      r.stepForward = forward ∧ cursor ≤ s.data.cursorPos ∧
      s.data.origLineLength ≤ cursor ∧ cursor + forward ≤ s.data.line.len := by
  obtain ⟨back, hback⟩ := Int.eq_ofNat_of_zero_le h.back_nonneg
  obtain ⟨forward, hforward⟩ := Int.eq_ofNat_of_zero_le h.forward_nonneg
  have hbackLe := h.back_le
  have hforwardLe := h.forward_le
  refine ⟨s.data.cursorPos - back, forward, ?_, hforward, ?_, ?_, ?_⟩
  · omega
  · omega
  · omega
  · omega

/-- The step back. -/
theorem stepBack_ready {oldLineLength : Nat} {s : ReplState} {r : Redraw} {evs : List ReplEvent}
    (h : Ready oldLineLength s r evs) (hold : oldLineLength ≤ mHeapSize) {cursor : Nat}
    (hcursor : (s.data.cursorPos : Int) - r.stepBack = cursor) :
    ∃ evs₁ : List ReplEvent,
      (if 0 < r.stepBack then
        (s.moveCursor (-r.stepBack), [ReplEvent.moveCursorBack (uintn r.stepBack)])
      else (s, [])) = (s.at cursor, evs₁) ∧
        ∀ e ∈ evs₁, e.Within (max oldLineLength s.data.line.len) := by
  obtain ⟨back, hback⟩ := Int.eq_ofNat_of_zero_le h.back_nonneg
  have hwithin := h.cursor_within
  have hlen := h.fits.le
  split
  · have hmove : s.moveCursor (-r.stepBack) = s.at cursor :=
      moveCursor_eq (by omega) (by omega)
    refine ⟨_, by rw [hmove], ?_⟩
    intro e he
    rw [List.mem_singleton.mp he, uintn_eq hback (by omega)]
    exact within_one rfl (by omega)
  · have hsame : cursor = s.data.cursorPos := by omega
    refine ⟨[], ?_, by simp⟩
    rw [hsame]
    rfl

/-- What has been left ready is in order once it has been drawn. -/
theorem redraw_ready {oldLineLength : Nat} {s : ReplState} {r : Redraw} {evs : List ReplEvent}
    (h : Ready oldLineLength s r evs) (hold : oldLineLength ≤ mHeapSize) :
    Inv (redraw oldLineLength s r).1 ∧
      (redraw oldLineLength s r).1.data.line = s.data.line ∧
      ∀ e ∈ evs ++ (redraw oldLineLength s r).2,
        e.Within (max oldLineLength s.data.line.len) := by
  obtain ⟨cursor, forward, hcursor, hforward, hback, horig, hend⟩ := h.steps
  obtain ⟨evs₁, hfirst, hevs₁⟩ := stepBack_ready h hold hcursor
  have hlen := h.fits.le
  have hmove : (s.at cursor).moveCursor r.stepForward = s.at (cursor + forward) := by
    refine (moveCursor_eq ?_ (by omega)).trans rfl
    rw [at_cursorPos]
    omega
  have hinv : Inv (s.at (cursor + forward)) := by
    refine ⟨⟨?_, ?_⟩, h.fits, h.history⟩
    · rw [at_cursorPos, at_origLineLength]
      omega
    · rw [at_cursorPos, at_line]
      omega
  unfold redraw
  rw [hfirst]
  simp only
  split
  · -- the line is drawn from the cursor on
    have hprint : uintn ((s.data.line.len : Int) - cursor) = s.data.line.len - cursor :=
      uintn_eq (by omega) (by omega)
    have hreturn : uintn ((s.data.line.len : Int) - (cursor + r.stepForward)) =
        s.data.line.len - (cursor + forward) := uintn_eq (by omega) (by omega)
    refine ⟨hmove ▸ hinv, by rw [hmove]; rfl, ?_⟩
    simp only [at_cursorPos, at_line, hprint, hreturn]
    intro e he
    simp only [List.mem_append, List.mem_cons, List.not_mem_nil, or_false] at he
    rcases he with he | (he | he) | rfl | rfl
    · exact h.events e he
    · exact hevs₁ e he
    · -- what is erased reaches to the end of the old line
      change e ∈ if s.data.line.len < oldLineLength then _ else _ at he
      by_cases hshorter : s.data.line.len < oldLineLength
      · have herase : uintn ((oldLineLength : Int) - cursor) = oldLineLength - cursor :=
          uintn_eq (by omega) (by omega)
        rw [if_pos hshorter] at he
        rw [List.mem_singleton.mp he, herase]
        exact within_one rfl (by omega)
      · rw [if_neg hshorter] at he
        cases he
    · exact within_two rfl (by omega) (by omega)
    · exact within_one rfl (by omega)
  · split
    · -- only the cursor moves
      refine ⟨hmove ▸ hinv, by rw [hmove]; rfl, ?_⟩
      rw [uintn_eq hforward (by omega)]
      intro e he
      simp only [List.mem_append, List.mem_singleton] at he
      rcases he with he | he | rfl
      · exact h.events e he
      · exact hevs₁ e he
      · exact within_two rfl (by rw [at_cursorPos]; omega) (by omega)
    · -- the line and the cursor stay as they are
      have hsame : s.at cursor = s.at (cursor + forward) := by
        rw [show forward = 0 by omega, Nat.add_zero]
      refine ⟨hsame ▸ hinv, rfl, ?_⟩
      intro e he
      rcases List.mem_append.mp he with he | he
      · exact h.events e he
      · exact hevs₁ e he

/-! ## The handlers -/

/-- Nothing is drawn. -/
theorem Ready.still {oldLineLength : Nat} {s : ReplState} {evs : List ReplEvent}
    (hordered : Ordered s) (hfits : s.data.line.Fits) (hhistory : HistoryFits s.data.history)
    (hevs : ∀ e ∈ evs, e.Within (max oldLineLength s.data.line.len)) :
    Ready oldLineLength s noRedraw evs where
  quiet := .inr rfl
  fits := hfits
  history := hhistory
  cursor_within := hordered.cursor_le.trans (Nat.le_max_right _ _)
  back_nonneg := Int.le_refl 0
  back_le := by
    have := hordered.orig_le
    simp only [noRedraw]
    omega
  forward_nonneg := Int.le_refl 0
  forward_le := by
    have := hordered.cursor_le
    simp only [noRedraw]
    omega
  events := hevs

/-- The data are left as they were. -/
theorem Ready.same {s s' : ReplState} {evs : List ReplEvent} (hs : Inv s)
    (hdata : s'.data = s.data)
    (hevs : ∀ e ∈ evs, e.Within (max s.data.line.len s.data.line.len)) :
    Ready s.data.line.len s' noRedraw evs := by
  have hordered : Ordered s' := by
    constructor
    · rw [hdata]
      exact hs.ordered.orig_le
    · rw [hdata]
      exact hs.ordered.cursor_le
  rw [← hdata] at hevs ⊢
  exact Ready.still hordered (hdata ▸ hs.fits) (hdata ▸ hs.history) hevs

/-- The cursor goes back, and forward from there. -/
theorem Ready.drawn {oldLineLength : Nat} {s : ReplState} {evs : List ReplEvent}
    {fromCursor : Bool} (back forward : Nat) (hrun : s.returned = none)
    (hfits : s.data.line.Fits) (hhistory : HistoryFits s.data.history)
    (hwithin : s.data.cursorPos ≤ max oldLineLength s.data.line.len)
    (hback : s.data.origLineLength + back ≤ s.data.cursorPos)
    (hforward : s.data.cursorPos + forward ≤ s.data.line.len + back)
    (hevs : ∀ e ∈ evs, e.Within (max oldLineLength s.data.line.len)) :
    Ready oldLineLength s ⟨back, fromCursor, forward⟩ evs where
  quiet := .inl hrun
  fits := hfits
  history := hhistory
  cursor_within := hwithin
  back_nonneg := Int.natCast_nonneg back
  back_le := by
    simp only
    omega
  forward_nonneg := Int.natCast_nonneg forward
  forward_le := by
    simp only
    omega
  events := hevs

theorem within_stdout (text : List Char) (length : Nat) :
    (ReplEvent.stdout text).Within length := by
  intro n hn
  cases hn

theorem intn_uintn {z : Int} {n : Nat} (h : z = n) (hlt : n ≤ mHeapSize) :
    intn (uintn z) = n := by
  rw [uintn_eq h (by omega), intn_of_lt]
  rw [mHeapSize] at hlt
  omega

theorem replPushHistory_keeps (heap : Heap) (data : ReplData) (line : List UInt8) :
    (replPushHistory heap data line).line = data.line ∧
      (replPushHistory heap data line).origLineLength = data.origLineLength ∧
      (replPushHistory heap data line).cursorPos = data.cursorPos := by
  rw [replPushHistory]
  simp only
  split
  · exact ⟨rfl, rfl, rfl⟩
  · exact ⟨rfl, rfl, rfl⟩

theorem replPushHistory_fits {heap : Heap} {data : ReplData} {line : List UInt8}
    (h : HistoryFits data.history) : HistoryFits (replPushHistory heap data line).history := by
  rw [replPushHistory]
  simp only
  split
  · intro i entry hentry
    simp only [clear_apply] at hentry
    split at hentry
    · cases hentry
    · split at hentry
      · next hgets =>
          rw [put_apply] at hentry
          split at hentry
          · cases hentry
            exact (Nat.le_succ _).trans (heap.gets_le _ hgets)
          · exact h i entry hentry
      · exact h i entry hentry
  · exact h

section Handlers

variable {env : Environment} {s s' : ReplState} {r : Redraw} {evs evs₀ : List ReplEvent}

theorem submit_keeps (hs : Inv s) {line : Vstr} (hline : line.Fits)
    (h : submit env s line evs₀ = some (s', r, evs)) :
    r = noRedraw ∧ s'.data.line.Fits ∧ s'.data.line.len = line.len ∧
      s'.data.origLineLength = s.data.origLineLength ∧
      s'.data.cursorPos = s.data.cursorPos ∧ HistoryFits s'.data.history ∧
      evs = evs₀ ++ [.pushHistory s.data.origLineLength] := by
  obtain ⟨line', hterminated, heq⟩ := Option.map_eq_some_iff.mp h
  obtain ⟨hfits, hlen, -⟩ := Vstr.nullTerminated_fits hline hterminated
  cases heq
  obtain ⟨hkeepLine, hkeepOrig, hkeepCursor⟩ := replPushHistory_keeps env.heap
    { s.data with line := line' } (cstr (line'.buf.drop s.data.origLineLength))
  refine ⟨rfl, ?_, ?_, hkeepOrig, hkeepCursor, replPushHistory_fits hs.history, rfl⟩
  · rw [hkeepLine]
    exact hfits
  · rw [hkeepLine]
    exact hlen

/-- The line that is submitted reaches to the cursor. -/
theorem submit_ready (hs : Inv s) {line : Vstr} (hline : line.Fits)
    (hcursor : s.data.cursorPos ≤ line.len) (hevs : ∀ e ∈ evs₀, e.lengths = [])
    (h : submit env s line evs₀ = some (s', r, evs)) : Ready s.data.line.len s' r evs := by
  obtain ⟨rfl, hfits, hlen, horig, hpos, hhistory, rfl⟩ := submit_keeps hs hline h
  have hle := hs.ordered.orig_le
  have hpush := hs.ordered.cursor_le
  apply Ready.still _ hfits hhistory
  · intro e he
    rcases List.mem_append.mp he with he | he
    · intro n hn
      rw [hevs e he] at hn
      cases hn
    · rw [List.mem_singleton.mp he]
      exact within_one rfl (by omega)
  · constructor
    · omega
    · omega

theorem insertNewline_keeps (hs : Inv s) {mode : ReplMode}
    (h : insertNewline env s mode evs₀ = some (s', r, evs)) :
    r = noRedraw ∧ s'.data.line.Fits ∧ s'.data.line.len = s.data.line.len + 1 ∧
      s'.data.origLineLength = s.data.line.len + 1 ∧
      s'.data.cursorPos = s.data.cursorPos + 1 ∧ s'.data.history = s.data.history ∧
      evs = evs₀ ++ [.insByte s.data.cursorPos, .stdout (prompt mode)] := by
  obtain ⟨line, hline, heq⟩ := Option.map_eq_some_iff.mp h
  obtain ⟨hfits, hlen⟩ := Vstr.insByte_fits hs.fits hline
  have hheap := hs.fits.le
  have hcursor := hs.ordered.cursor_le
  have hpos : uintn ((s.data.cursorPos : Int) + 1) = s.data.cursorPos + 1 :=
    uintn_eq rfl (by rw [mHeapSize] at *; omega)
  cases heq
  exact ⟨rfl, hfits, hlen, hlen, hpos, rfl, rfl⟩

/-- The cursor is at the end of the line, and stays there. -/
theorem insertNewline_ready (hs : Inv s) {mode : ReplMode}
    (hcursor : s.data.cursorPos = s.data.line.len) (hevs : ∀ e ∈ evs₀, e.lengths = [])
    (h : insertNewline env s mode evs₀ = some (s', r, evs)) : Ready s.data.line.len s' r evs := by
  obtain ⟨rfl, hfits, hlen, horig, hpos, hhistory, rfl⟩ := insertNewline_keeps hs h
  apply Ready.still _ hfits (hhistory ▸ hs.history)
  · intro e he
    simp only [List.mem_append, List.mem_cons, List.not_mem_nil, or_false] at he
    rcases he with he | rfl | rfl
    · intro n hn
      rw [hevs e he] at hn
      cases hn
    · exact within_one rfl (by omega)
    · exact within_stdout _ _
  · constructor
    · omega
    · omega

theorem replLineStrip_fits {line : Vstr} (h : line.Fits) : (replLineStrip line).Fits := by
  apply h.shorten
  calc (line.text.rdropWhile isStripped).length
      ≤ line.text.length := (List.rdropWhile_prefix _ _).length_le
    _ ≤ line.len := List.length_take_le _ _

theorem continueInput_ready (hs : Inv s) (hok : ContinueOk s)
    (hevs : ∀ e ∈ evs₀, e.lengths = []) (h : continueInput env s evs₀ = some (s', r, evs)) :
    Ready s.data.line.len s' r evs := by
  rw [continueInput] at h
  rw [ContinueOk] at hok
  split at h
  · next hblank =>
      rw [if_pos hblank] at hok
      exact submit_ready hs (replLineStrip_fits hs.fits) hok hevs h
  · next hblank =>
      rw [if_neg hblank] at hok
      exact insertNewline_ready hs hok hevs h

/-- Otherwise the cursor is left behind the line, or before the protected length. -/
theorem continueInput_breaks (hs : Inv s) (hok : ¬ContinueOk s)
    (h : continueInput env s evs₀ = some (s', r, evs)) : r = noRedraw ∧ ¬Ordered s' := by
  rw [continueInput] at h
  rw [ContinueOk] at hok
  split at h
  · next hblank =>
      rw [if_pos hblank, StripOk] at hok
      obtain ⟨hr, -, hlen, -, hpos, -⟩ := submit_keeps hs (replLineStrip_fits hs.fits) h
      refine ⟨hr, ?_⟩
      intro hordered
      have := hordered.cursor_le
      omega
  · next hblank =>
      rw [if_neg hblank] at hok
      obtain ⟨hr, -, -, horig, hpos, -⟩ := insertNewline_keeps hs h
      have hcursor := hs.ordered.cursor_le
      refine ⟨hr, ?_⟩
      intro hordered
      have := hordered.orig_le
      omega

/-- Terminating the line changes neither its text nor its length. -/
theorem terminated_inv (hs : Inv s) {line : Vstr} {t : ReplState}
    (h : s.data.line.nullTerminated env.heap = some line)
    (ht : t.data = { s.data with line := line }) : Inv t := by
  obtain ⟨hfits, hlen, -⟩ := Vstr.nullTerminated_fits hs.fits h
  refine ⟨⟨?_, ?_⟩, ?_, ?_⟩
  · rw [ht]
    exact hs.ordered.orig_le
  · simp only [ht, hlen]
    exact hs.ordered.cursor_le
  · rw [ht]
    exact hfits
  · rw [ht]
    exact hs.history

theorem terminated_continueOk (hs : Inv s) {line : Vstr} {t : ReplState}
    (h : s.data.line.nullTerminated env.heap = some line)
    (ht : t.data = { s.data with line := line }) : ContinueOk t ↔ ContinueOk s := by
  obtain ⟨-, hlen, htext⟩ := Vstr.nullTerminated_fits hs.fits h
  have hblank : endsBlank line = endsBlank s.data.line := by
    rw [endsBlank, endsBlank, htext, hlen]
  have hstrip : (replLineStrip line).len = (replLineStrip s.data.line).len := by
    rw [replLineStrip, replLineStrip, htext]
  rw [ContinueOk, ContinueOk, StripOk, StripOk]
  simp only [ht, hblank, hstrip, hlen]

theorem plain_newline : ∀ e ∈ [ReplEvent.stdout "\r\n".toList], e.lengths = [] := by
  intro e he
  rw [List.mem_singleton.mp he]
  rfl

theorem onEnter_ready (hs : Inv s) (hok : KeyOk env s .enter)
    (h : onEnter env s = some (s', r, evs)) : Ready s.data.line.len s' r evs := by
  rw [onEnter] at h
  rw [KeyOk] at hok
  cases hmode : s.replMode with
  | normal =>
      simp only [hmode] at h hok
      obtain ⟨line, hline, h⟩ := Option.bind_eq_some_iff.mp h
      obtain ⟨hfits, hlen, -⟩ := Vstr.nullTerminated_fits hs.fits hline
      rw [← hlen]
      split at h
      · -- the input goes on, in continuation mode
        next hcontinue =>
          rw [Vstr.nullTerminated_cstr hs.fits hline] at hcontinue
          refine continueInput_ready (terminated_inv hs hline ?_) ?_ plain_newline h
          · rfl
          · exact (terminated_continueOk hs hline rfl).mpr (hok hcontinue)
      · refine submit_ready (terminated_inv hs hline ?_) hfits ?_ plain_newline h
        · rfl
        · rw [hlen]
          exact hs.ordered.cursor_le
  | «continue» =>
      simp only [hmode] at h hok
      exact continueInput_ready hs hok plain_newline h
  | paste =>
      simp only [hmode] at h hok
      exact insertNewline_ready hs hok plain_newline h

theorem onCtrlD_ready (hs : Inv s) (hok : KeyOk env s .ctrlD)
    (h : onCtrlD env s = some (s', r, evs)) : Ready s.data.line.len s' r evs := by
  rw [onCtrlD] at h
  rw [KeyOk] at hok
  cases hmode : s.replMode with
  | normal =>
      simp only [hmode] at h
      cases h
      exact Ready.same hs rfl (by simp)
  | «continue» =>
      simp only [hmode] at h
      exact submit_ready hs (replLineStrip_fits hs.fits) (hok hmode) plain_newline h
  | paste =>
      simp only [hmode] at h
      cases h
      refine Ready.same hs ?_ ?_
      · rfl
      · intro e he
        rw [List.mem_singleton.mp he]
        exact within_stdout _ _

/-- The byte before the cursor goes, and the cursor with it. -/
theorem onBackspace_ready (hrun : s.returned = none) (hs : Inv s)
    (h : onBackspace s = some (s', r, evs)) : Ready s.data.line.len s' r evs := by
  have hcursor := hs.ordered.cursor_le
  have hheap := hs.fits.le
  rw [onBackspace] at h
  simp only at h
  split at h
  · next hbehind =>
      -- behind the protected length there is a byte before the cursor
      have hlt := hbehind.1
      have hpos : uintn ((s.data.cursorPos : Int) - 1) = s.data.cursorPos - 1 :=
        uintn_eq (by omega) (by omega)
      rw [hpos] at h
      obtain ⟨hfits, hlen⟩ := Vstr.cutOutBytes_fits hs.fits
        (show s.data.cursorPos - 1 < s.data.line.len by omega)
      cases h
      apply Ready.drawn 1 0
      · exact hrun
      · exact hfits
      · exact hs.history
      · simp only
        omega
      · simp only
        omega
      · simp only [hlen]
        omega
      · intro e he
        rw [List.mem_singleton.mp he]
        exact within_two rfl (by omega) (by omega)
  · cases h
    exact Ready.same hs rfl (by simp)

theorem onDelete_ready (hrun : s.returned = none) (hs : Inv s)
    (h : onDelete s = some (s', r, evs)) : Ready s.data.line.len s' r evs := by
  have horig := hs.ordered.orig_le
  rw [onDelete] at h
  split at h
  · next hbefore =>
      obtain ⟨hfits, hlen⟩ := Vstr.cutOutBytes_fits hs.fits hbefore
      cases h
      apply Ready.drawn 0 0
      · exact hrun
      · exact hfits
      · exact hs.history
      · simp only
        omega
      · exact horig
      · simp only [hlen]
        omega
      · intro e he
        rw [List.mem_singleton.mp he]
        exact within_two rfl (by omega) (by omega)
  · cases h
    exact Ready.same hs rfl (by simp)

theorem onChar_ready (hrun : s.returned = none) (hs : Inv s) {c : UInt8}
    (h : onChar env s c = some (s', r, evs)) : Ready s.data.line.len s' r evs := by
  have horig := hs.ordered.orig_le
  have hcursor := hs.ordered.cursor_le
  obtain ⟨line, hline, heq⟩ := Option.map_eq_some_iff.mp h
  obtain ⟨hfits, hlen⟩ := Vstr.insByte_fits hs.fits hline
  cases heq
  apply Ready.drawn 0 1
  · exact hrun
  · exact hfits
  · exact hs.history
  · simp only
    omega
  · exact horig
  · simp only [hlen]
    omega
  · intro e he
    rw [List.mem_singleton.mp he]
    exact within_one rfl (by omega)

/-- The completion goes in at the cursor, one byte after the other. -/
theorem insertBytes_fits {heap : Heap} : ∀ (bs : List UInt8) {line line' : Vstr} {pos : Nat}
    {evs : List ReplEvent}, line.Fits → pos ≤ line.len →
    insertBytes heap line pos bs = some (line', evs) →
    line'.Fits ∧ line'.len = line.len + bs.length ∧ ∀ e ∈ evs, e.Within line'.len
  | [], line, line', pos, evs, hfits, _, h => by
      cases h
      exact ⟨hfits, rfl, by simp⟩
  | b :: bs, line, line', pos, evs, hfits, hpos, h => by
      obtain ⟨line₁, hline₁, h⟩ := Option.bind_eq_some_iff.mp h
      obtain ⟨⟨line₂, evs₂⟩, hrest, heq⟩ := Option.map_eq_some_iff.mp h
      obtain ⟨hfits₁, hlen₁⟩ := Vstr.insByte_fits hfits hline₁
      have hle := hfits.le
      have hnext : uintn ((pos : Int) + 1) = pos + 1 :=
        uintn_eq rfl (by rw [mHeapSize] at *; omega)
      rw [hnext] at hrest
      obtain ⟨hfits₂, hlen₂, hevs₂⟩ := insertBytes_fits bs hfits₁ (by omega) hrest
      cases heq
      refine ⟨hfits₂, ?_, ?_⟩
      · rw [hlen₂, hlen₁, List.length_cons]
        omega
      · intro e he
        rcases List.mem_cons.mp he with rfl | he
        · exact within_one rfl (by omega)
        · exact hevs₂ e he

theorem onTab_ready (hrun : s.returned = none) (hs : Inv s)
    (h : onTab env s = some (s', r, evs)) : Ready s.data.line.len s' r evs := by
  have horig := hs.ordered.orig_le
  have hcursor := hs.ordered.cursor_le
  have hheap := hs.fits.le
  have hlength : uintn ((s.data.cursorPos : Int) - s.data.origLineLength) =
      s.data.cursorPos - s.data.origLineLength := uintn_eq (by omega) (by omega)
  -- the completer is asked for what stands before the cursor
  have hasked {length : Nat} (hle : s.data.line.len ≤ length) :
      (ReplEvent.autocomplete s.data.origLineLength
        (s.data.cursorPos - s.data.origLineLength)).Within length :=
    within_two rfl (by omega) (by omega)
  rw [onTab] at h
  simp only [hlength] at h
  split at h
  · cases h
    exact Ready.same hs rfl (by simp)
  · split at h
    · -- many matches
      cases h
      apply Ready.drawn 0 0
      · exact hrun
      · exact hs.fits
      · exact hs.history
      · omega
      · exact horig
      · exact hcursor
      · intro e he
        simp only [List.mem_append, List.mem_cons, List.not_mem_nil, or_false] at he
        rcases he with rfl | rfl | rfl
        · exact hasked (by omega)
        · exact within_stdout _ _
        · exact within_two rfl (by omega) (by omega)
    · -- no match
      cases h
      refine Ready.same hs rfl ?_
      intro e he
      rw [List.mem_singleton.mp he]
      exact hasked (by omega)
    · -- one match
      next completeString _ _ =>
      obtain ⟨⟨line, evs₁⟩, hline, heq⟩ := Option.map_eq_some_iff.mp h
      obtain ⟨hfits, hlen, hevs₁⟩ := insertBytes_fits completeString hs.fits hcursor hline
      have hle := hfits.le
      cases heq
      rw [intn_of_lt (by rw [mHeapSize] at hle; omega)]
      apply Ready.drawn 0 completeString.length
      · exact hrun
      · exact hfits
      · exact hs.history
      · simp only
        omega
      · exact horig
      · simp only [hlen]
        omega
      · intro e he
        rcases List.mem_append.mp he with he | he
        · rw [List.mem_singleton.mp he]
          exact hasked (by omega)
        · intro n hn
          exact (hevs₁ e he n hn).trans (Nat.le_max_right _ _)

/-- A line of no bytes has its cursor at the start, so that there is nothing to clear. -/
theorem cleared (hs : Inv s) : ∃ data : ReplData,
    (if 0 < s.data.line.len then replClear s.data else s.data) = data ∧ data.cursorPos = 0 ∧
      data.origLineLength = 0 ∧ data.line.len = 0 ∧ data.line.Fits ∧
      data.history = s.data.history := by
  have horig := hs.ordered.orig_le
  have hcursor := hs.ordered.cursor_le
  split
  · exact ⟨_, rfl, rfl, rfl, rfl, hs.fits.shorten (Nat.zero_le _), rfl⟩
  · exact ⟨_, rfl, by omega, by omega, by omega, hs.fits, rfl⟩

/-- The line has been cleared, so that the entry is all of it. -/
theorem recallHistory_ready (hrun : s.returned = none) (hs : Inv s)
    {historyCursor : Fin replHistSize} {cut : ReplData → Vstr × List ReplEvent}
    (hcut : ∀ data : ReplData, data.origLineLength = 0 → data.line.len = 0 →
      (cut data).1 = data.line ∧ ∀ e ∈ (cut data).2, e.Within 0)
    (h : recallHistory env s historyCursor cut = some (s', r, evs)) :
    Ready s.data.line.len s' r evs := by
  rw [recallHistory] at h
  split at h
  · next entry _ hentry =>
      obtain ⟨data, hdata, hpos, hprotected, hempty, hfits, hhistory⟩ := cleared hs
      obtain ⟨hline, hevs⟩ := hcut data hprotected hempty
      simp only [hdata, hpos, hprotected] at h
      obtain ⟨line, hadd, heq⟩ := Option.map_eq_some_iff.mp h
      rw [hline] at hadd
      obtain ⟨hfits', hlen⟩ := Vstr.addStr_fits hfits (hs.history _ _ hentry) hadd
      have hback : intn (uintn (((0 : Nat) : Int) - (0 : Nat))) = (0 : Nat) := by decide
      have hforward : intn (uintn ((line.len : Int) - (0 : Nat))) = line.len :=
        intn_uintn (Int.sub_zero _) hfits'.le
      rw [hback, hforward] at heq
      cases heq
      -- nothing is left before the entry, and the cursor goes behind it
      apply Ready.drawn 0 line.len
      · exact hrun
      · exact hfits'
      · exact hhistory ▸ hs.history
      · simp only
        omega
      · simp only
        omega
      · simp only
        omega
      · intro e he n hn
        exact (hevs e he n hn).trans (Nat.zero_le _)
  · cases h
    exact Ready.same hs rfl (by simp)

theorem onUp_ready (hrun : s.returned = none) (hs : Inv s)
    (h : onUp env s = some (s', r, evs)) : Ready s.data.line.len s' r evs := by
  apply recallHistory_ready hrun hs _ h
  intro data horig hlen
  refine ⟨?_, by simp⟩
  simp only [horig, ← hlen]

theorem onDown_ready (hrun : s.returned = none) (hs : Inv s)
    (h : onDown env s = some (s', r, evs)) : Ready s.data.line.len s' r evs := by
  apply recallHistory_ready hrun hs _ h
  intro data horig hlen
  have hcut : uintn ((data.line.len : Int) - data.origLineLength) = 0 :=
    uintn_eq (by omega) (Nat.zero_le _)
  simp only [hcut]
  constructor
  · rw [Vstr.cutTailBytes, if_neg (Nat.not_lt_zero _), Nat.sub_zero]
  · intro e he
    rw [List.mem_singleton.mp he]
    exact within_one rfl (Nat.le_refl 0)

/-- The keys that move the cursor only. -/
theorem move_ready (hrun : s.returned = none) (hs : Inv s) (back forward : Nat)
    (hback : s.data.origLineLength + back ≤ s.data.cursorPos)
    (hforward : s.data.cursorPos + forward ≤ s.data.line.len + back) :
    Ready s.data.line.len s ⟨back, false, forward⟩ [] := by
  have hcursor := hs.ordered.cursor_le
  exact Ready.drawn back forward hrun hs.fits hs.history (by omega) hback hforward (by simp)

theorem onHome_ready (hrun : s.returned = none) (hs : Inv s)
    (h : onHome s = some (s', r, evs)) : Ready s.data.line.len s' r evs := by
  have horig := hs.ordered.orig_le
  have hcursor := hs.ordered.cursor_le
  have hheap := hs.fits.le
  have hback : intn (uintn ((s.data.cursorPos : Int) - s.data.origLineLength)) =
      (s.data.cursorPos - s.data.origLineLength : Nat) := intn_uintn (by omega) (by omega)
  rw [onHome, hback] at h
  cases h
  exact move_ready hrun hs _ 0 (by omega) (by omega)

theorem onEnd_ready (hrun : s.returned = none) (hs : Inv s)
    (h : onEnd s = some (s', r, evs)) : Ready s.data.line.len s' r evs := by
  have horig := hs.ordered.orig_le
  have hcursor := hs.ordered.cursor_le
  have hheap := hs.fits.le
  have hforward : intn (uintn ((s.data.line.len : Int) - s.data.cursorPos)) =
      (s.data.line.len - s.data.cursorPos : Nat) := intn_uintn (by omega) (by omega)
  rw [onEnd, hforward] at h
  cases h
  exact move_ready hrun hs 0 _ horig (by omega)

theorem onRight_ready (hrun : s.returned = none) (hs : Inv s)
    (h : onRight s = some (s', r, evs)) : Ready s.data.line.len s' r evs := by
  have horig := hs.ordered.orig_le
  rw [onRight] at h
  split at h
  · cases h
    exact move_ready hrun hs 0 1 horig (by omega)
  · cases h
    exact Ready.same hs rfl (by simp)

theorem onLeft_ready (hrun : s.returned = none) (hs : Inv s)
    (h : onLeft s = some (s', r, evs)) : Ready s.data.line.len s' r evs := by
  have hcursor := hs.ordered.cursor_le
  rw [onLeft] at h
  split at h
  · cases h
    exact move_ready hrun hs 1 0 (by omega) (by omega)
  · cases h
    exact Ready.same hs rfl (by simp)

/-- The line is emptied, with the cursor at its start. -/
theorem onCtrlE_ready (hs : Inv s) (hok : KeyOk env s .ctrlE)
    (h : onCtrlE s = some (s', r, evs)) : Ready s.data.line.len s' r evs := by
  have horig := hs.ordered.orig_le
  rw [KeyOk] at hok
  cases h
  apply Ready.still
  · constructor
    · exact horig
    · exact hok.le
  · exact hs.fits.shorten (Nat.zero_le _)
  · exact hs.history
  · intro e he
    simp only [List.mem_cons, List.not_mem_nil, or_false] at he
    rcases he with rfl | rfl
    · exact within_stdout _ _
    · exact within_stdout _ _

theorem onEsc_ready (hs : Inv s) (hok : KeyOk env s .scanEsc)
    (h : onEsc s = some (s', r, evs)) : Ready s.data.line.len s' r evs := by
  have horig := hs.ordered.orig_le
  have hempty := hs.fits.shorten (Nat.zero_le _)
  rw [onEsc] at h
  rw [KeyOk] at hok
  split at h
  · -- in paste mode ESC returns, with an empty line
    next hmode =>
      cases h
      apply Ready.still
      · constructor
        · exact horig
        · exact (hok hmode).le
      · exact hempty
      · exact hs.history
      · intro e he
        rw [List.mem_singleton.mp he]
        exact within_stdout _ _
  · cases h
    apply Ready.still
    · constructor
      · exact Nat.le_refl 0
      · exact Nat.le_refl 0
    · exact hempty
    · exact hs.history
    · simp

/-! ## The keys -/

theorem onKey_ready (hrun : s.returned = none) (hs : Inv s) {key : KeyCase}
    (hok : KeyOk env s key) (h : onKey env s key = some (s', r, evs)) :
    Ready s.data.line.len s' r evs := by
  cases key with
  | ctrlE => exact onCtrlE_ready hs hok h
  | ctrlD => exact onCtrlD_ready hs hok h
  | enter => exact onEnter_ready hs hok h
  | backspace => exact onBackspace_ready hrun hs h
  | tab => exact onTab_ready hrun hs h
  | char c => exact onChar_ready hrun hs h
  | scanUp => exact onUp_ready hrun hs h
  | scanDown => exact onDown_ready hrun hs h
  | scanRight => exact onRight_ready hrun hs h
  | scanLeft => exact onLeft_ready hrun hs h
  | scanEnd => exact onEnd_ready hrun hs h
  | scanHome => exact onHome_ready hrun hs h
  | scanDelete => exact onDelete_ready hrun hs h
  | scanEsc => exact onEsc_ready hs hok h
  | other =>
      cases h
      exact Ready.same hs rfl (by simp)

theorem onEnter_breaks (hs : Inv s) (hok : ¬KeyOk env s .enter)
    (h : onEnter env s = some (s', r, evs)) : r = noRedraw ∧ ¬Ordered s' := by
  rw [onEnter] at h
  rw [KeyOk] at hok
  cases hmode : s.replMode with
  | normal =>
      simp only [hmode, Classical.not_imp] at h hok
      obtain ⟨hcontinue, hok⟩ := hok
      obtain ⟨line, hline, h⟩ := Option.bind_eq_some_iff.mp h
      rw [Vstr.nullTerminated_cstr hs.fits hline, if_pos hcontinue] at h
      refine continueInput_breaks (terminated_inv hs hline ?_) ?_ h
      · rfl
      · exact fun hok' => hok ((terminated_continueOk hs hline rfl).mp hok')
  | «continue» =>
      simp only [hmode] at h hok
      exact continueInput_breaks hs hok h
  | paste =>
      simp only [hmode] at h hok
      obtain ⟨hr, -, -, horig, hpos, -⟩ := insertNewline_keeps hs h
      have hcursor := hs.ordered.cursor_le
      refine ⟨hr, ?_⟩
      intro hordered
      have := hordered.orig_le
      omega

/-- Another key leaves one of the three behind, and draws nothing. -/
theorem onKey_breaks (hs : Inv s) {key : KeyCase} (hok : ¬KeyOk env s key)
    (h : onKey env s key = some (s', r, evs)) : r = noRedraw ∧ ¬Ordered s' := by
  cases key with
  | ctrlE =>
      -- the line is emptied, and the cursor stays where it was
      cases h
      refine ⟨rfl, ?_⟩
      intro hordered
      exact hok (Nat.le_zero.mp hordered.cursor_le)
  | ctrlD =>
      simp only [KeyOk, Classical.not_imp] at hok
      obtain ⟨hmode, hok⟩ := hok
      rw [onKey, onCtrlD, hmode] at h
      rw [StripOk] at hok
      obtain ⟨hr, -, hlen, -, hpos, -⟩ := submit_keeps hs (replLineStrip_fits hs.fits) h
      refine ⟨hr, ?_⟩
      intro hordered
      have := hordered.cursor_le
      omega
  | enter => exact onEnter_breaks hs hok h
  | scanEsc =>
      simp only [KeyOk, Classical.not_imp] at hok
      obtain ⟨hmode, hok⟩ := hok
      rw [onKey, onEsc, hmode] at h
      cases h
      refine ⟨rfl, ?_⟩
      intro hordered
      exact hok (Nat.le_zero.mp hordered.cursor_le)
  | _ => exact absurd trivial hok

end Handlers

/-! ## Runs -/

/-- One round of the loop. -/
theorem replStep_cases {s s' : ReplState} {stroke : Environment × Option InputKey}
    {evs : List ReplEvent} (h : replStep s stroke = some (s', evs)) :
    s.returned = none ∧ (stroke.2 = none ∧ s' = s ∧ evs = [] ∨
      ∃ key s₁ r evs₁, stroke.2 = some key ∧
        onKey stroke.1 s key.case = some (s₁, r, evs₁) ∧
        (s₁.returned.isSome ∧ s' = s₁ ∧ evs = evs₁ ∨
          s₁.returned = none ∧ s' = (redraw s.data.line.len s₁ r).1 ∧
            evs = evs₁ ++ (redraw s.data.line.len s₁ r).2)) := by
  rw [replStep] at h
  split at h
  · cases h
  · next hrun hkey =>
      cases h
      exact ⟨hrun, .inl ⟨hkey, rfl, rfl⟩⟩
  · -- a key is handled first, and the line is redrawn unless the session returned
    next key hrun hkey =>
      obtain ⟨⟨s₁, r, evs₁⟩, hhandled, heq⟩ := Option.map_eq_some_iff.mp h
      refine ⟨hrun, .inr ⟨key, s₁, r, evs₁, hkey, hhandled, ?_⟩⟩
      simp only at heq
      split at heq
      · next hreturned =>
          cases heq
          exact .inl ⟨hreturned, rfl, rfl⟩
      · next hreturned =>
          cases heq
          exact .inr ⟨by simpa using hreturned, rfl, rfl⟩

theorem Ready.ordered {oldLineLength : Nat} {s : ReplState} {evs : List ReplEvent}
    (h : Ready oldLineLength s noRedraw evs) : Ordered s := by
  have hback := h.back_le
  have hforward := h.forward_le
  simp only [noRedraw] at hback hforward
  constructor
  · omega
  · omega

section Steps

variable {s s' : ReplState} {stroke : Environment × Option InputKey} {evs : List ReplEvent}

theorem replStep_keeps (hs : Inv s) (hok : StrokeOk s stroke)
    (h : replStep s stroke = some (s', evs)) : Inv s' ∧ InOrder s s' evs := by
  obtain ⟨hrun, ⟨-, rfl, rfl⟩ | ⟨key, s₁, r, evs₁, hkey, hhandled, hdrawn⟩⟩ := replStep_cases h
  · exact ⟨hs, hs.ordered, by simp⟩
  · have hready := onKey_ready hrun hs (hok key hkey) hhandled
    rcases hdrawn with ⟨hreturned, rfl, rfl⟩ | ⟨-, rfl, rfl⟩
    · -- the loop has returned
      rcases hready.quiet with hquiet | rfl
      · rw [hquiet] at hreturned
        cases hreturned
      · have hordered := hready.ordered
        exact ⟨⟨hordered, hready.fits, hready.history⟩, hordered, hready.events⟩
    · obtain ⟨hinv, hline, hevs⟩ := redraw_ready hready hs.fits.le
      refine ⟨hinv, hinv.ordered, ?_⟩
      rw [hline]
      exact hevs

theorem replStep_breaks (hs : Inv s) (hok : ¬StrokeOk s stroke)
    (h : replStep s stroke = some (s', evs)) : ¬Ordered s' := by
  simp only [StrokeOk, Classical.not_forall] at hok
  obtain ⟨key, hkey, hok⟩ := hok
  obtain ⟨-, ⟨hnone, -⟩ | ⟨key', s₁, r, evs₁, hkey', hhandled, hdrawn⟩⟩ := replStep_cases h
  · rw [hkey] at hnone
    cases hnone
  · rw [hkey] at hkey'
    cases hkey'
    obtain ⟨rfl, hbroken⟩ := onKey_breaks hs hok hhandled
    -- nothing is drawn, so that the order is not put right again
    rcases hdrawn with ⟨-, rfl, -⟩ | ⟨-, rfl, -⟩
    · exact hbroken
    · exact hbroken

end Steps

theorem replLoop_inv {data : ReplData} (hline : data.line.Fits)
    (hhistory : HistoryFits data.history) : Inv (replLoop data) where
  ordered := ⟨Nat.le_refl _, Nat.le_refl _⟩
  fits := hline
  history := hhistory

/-- The loop keeps the protected length, the cursor and the line in order, and what it passes
on within the line, exactly if none of its keys changes one of the three alone. -/
theorem order_kept_iff {data : ReplData} (hline : data.line.Fits)
    (hhistory : HistoryFits data.history) {strokes : List (Environment × Option InputKey)}
    {s : ReplState} {h : List ReplEvent}
    (hrun : run replStep (replLoop data) strokes = some (s, h)) :
    Always replStep InOrder (replLoop data) strokes ↔
      Guarded replStep StrokeOk (replLoop data) strokes := by
  apply always_iff_guarded Inv _ _ strokes (replLoop_inv hline hhistory) hrun
  · intro s s' evs stroke hs hstep
    constructor
    · rintro ⟨hordered, -⟩
      by_contra hok
      exact replStep_breaks hs hok hstep hordered
    · intro hok
      exact (replStep_keeps hs hok hstep).2
  · intro s s' evs stroke hs hok hstep
    exact (replStep_keeps hs hok hstep).1

/-- A line of no bytes yet, and no history. -/
def freshData : ReplData where
  line := { buf := List.replicate 16 0, len := 0 }
  origLineLength := 0
  cursorPos := 0
  history := fun _ => none
  historyIndex := 0

/-- Every line is a complete statement, and nothing is completed. -/
def plainEnvironment : Environment where
  heap := wholeHeap
  continueWithInput := fun _ => false
  autocomplete := fun _ => some []

/-- A key with a character. -/
def typed (c : Char16) : Environment × Option InputKey := (plainEnvironment, some ⟨0, c⟩)

/-- A key with a scan code. -/
def scanned (c : UInt16) : Environment × Option InputKey := (plainEnvironment, some ⟨c, 0⟩)

/-- Enter behind a statement that goes on. -/
def unfinished : Environment × Option InputKey :=
  ({ plainEnvironment with continueWithInput := fun _ => true }, some ⟨0, 0x0D⟩)

/-- One line of history. -/
def usedData : ReplData :=
  { freshData with
    history := fun i => if i = 0 then some [0x78] else none
    historyIndex := 1 }

theorem usedData_fits : usedData.line.Fits := ⟨by decide, by decide⟩

theorem usedData_history : HistoryFits usedData.history := by
  intro i entry hentry
  simp only [usedData, Option.ite_none_right_eq_some, Option.some.injEq] at hentry
  rw [← hentry.2]
  decide

/-- The last line, with a character before it, continued on a second line; and paste mode at a fresh
prompt, with two lines. -/
theorem typed_line_ordered :
    Always replStep InOrder (replLoop usedData) [scanned 0x01, scanned 0x04, typed 0x61,
        scanned 0x06, unfinished, typed 0x62, scanned 0x04, scanned 0x03, typed 0x0D] ∧
      Always replStep InOrder (replLoop usedData)
        [typed 0x05, typed 0x61, typed 0x0D, typed 0x62, typed 0x04] :=
  ⟨(order_kept_iff usedData_fits usedData_history rfl).mpr (by decide +kernel),
    (order_kept_iff usedData_fits usedData_history rfl).mpr (by decide +kernel)⟩

/-- Ctrl-E behind a character: the next character is drawn with a length that has wrapped. -/
theorem paste_mode_wraps :
    ∃ s h, run replStep (replLoop freshData) [typed 0x61, typed 0x05, typed 0x62] = some (s, h) ∧
      ReplEvent.moveCursorBack (2 ^ 64 - 1) ∈ h ∧
      ¬Always replStep InOrder (replLoop freshData) [typed 0x61, typed 0x05, typed 0x62] := by
  refine ⟨_, _, rfl, by decide +kernel, ?_⟩
  intro halways
  -- already after Ctrl-E the cursor is behind the line
  obtain ⟨-, halways⟩ := halways _ _ rfl
  obtain ⟨hordered, -⟩ := (halways _ _ rfl).1
  exact absurd hordered.cursor_le (by decide +kernel)

end EfiLvgl.Repl
