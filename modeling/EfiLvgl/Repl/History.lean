import EfiLvgl.Lib.Ring
import EfiLvgl.Repl.Model

/-!
# EfiLvgl.Repl.History — walking through the lines entered before

`ReplPushHistory` stores a line behind the ones before it, in a ring whose gap ends the walk
with the arrow keys. A position is how many lines back one is, and `0` the line that is
being written.

`arrows_follow_history_iff`: the keys walk through the lines stored, the latest first, unless
the ring is full and the first key goes down. Then the gap is one step ahead, and behind it
is the oldest line.
-/

namespace EfiLvgl.Repl

open EfiLvgl.Slots

/-! ## Lines stored -/

/-- A line is stored unless it is empty or the one before again. -/
def storeLine (stored : List (List UInt8)) (line : List UInt8) : List (List UInt8) :=
  if line = [] ∨ stored.head? = some line then stored else line :: stored

/-- The lines stored of all that were passed on, the latest first. -/
def storedLines (lines : List (List UInt8)) : List (List UInt8) := lines.foldl storeLine []

/-- How many of them the ring still has. -/
def recallable (stored : List (List UInt8)) : Nat := min stored.length (replHistSize - 1)

/-- `ReplInit`; the welcome is left out. -/
def replInit (data : ReplData) (line : Vstr) : ReplData :=
  { data with history := fun _ => none, historyIndex := 0, line := line }

/-- `ReplPushHistory` on one line after another. -/
def pushLines (data : ReplData) (lines : List (Heap × List UInt8)) : ReplData :=
  lines.foldl (fun data p => replPushHistory p.1 data p.2) data

/-- The history holds the lines stored. -/
def Remembers (data : ReplData) (stored : List (List UInt8)) : Prop :=
  RingHolds data.history data.historyIndex stored

theorem replInit_remembers (data : ReplData) (line : Vstr) : Remembers (replInit data line) [] :=
  ring_empty 0

/-- What is found one step behind the index. -/
theorem Remembers.last {data : ReplData} {stored : List (List UInt8)} (h : Remembers data stored) :
    data.history (data.historyIndex - 1) = stored.head? := by
  have hlast := h 1 (by decide)
  rw [← back_sub_one, back_zero] at hlast
  rw [hlast, List.head?_eq_getElem?]
  rfl

theorem replPushHistory_remembers {heap : Heap} {data : ReplData} {stored : List (List UInt8)}
    {line : List UInt8} (h : Remembers data stored) (hheap : heap.gets (line.length + 1)) :
    Remembers (replPushHistory heap data line) (storeLine stored line) := by
  rw [replPushHistory, storeLine]
  simp only
  rw [h.last]
  split
  · next hstored =>
      have hkept : ¬ (line = [] ∨ stored.head? = some line) := not_or.mpr hstored
      rw [if_neg hkept]
      exact RingHolds.push h line
  · next hskipped =>
      have hkept : line = [] ∨ stored.head? = some line := by
        by_contra hnot
        exact hskipped (not_or.mp hnot)
      rw [if_pos hkept]
      exact h

theorem pushLines_remembers (lines : List (Heap × List UInt8)) {data : ReplData}
    {stored : List (List UInt8)} (h : Remembers data stored)
    (hheap : ∀ p ∈ lines, p.1.gets (p.2.length + 1)) :
    Remembers (pushLines data lines) ((lines.map Prod.snd).foldl storeLine stored) := by
  induction lines generalizing data stored with
  | nil => exact h
  | cons p lines ih =>
      apply ih
      · exact replPushHistory_remembers h (hheap p List.mem_cons_self)
      · intro q hq
        exact hheap q (List.mem_cons_of_mem p hq)

/-! ## Arrow keys -/

/-- `SCAN_UP` and `SCAN_DOWN`. -/
inductive Arrow where
  | up
  | down
  deriving DecidableEq, Repr

/-- A stroke of an arrow key, and what the rest of the program answers then. -/
structure ArrowStroke where
  env : Environment
  arrow : Arrow
  unicodeChar : Char16

def ArrowStroke.key (stroke : ArrowStroke) : InputKey where
  scanCode := match stroke.arrow with
    | .up => 0x01
    | .down => 0x02
  unicodeChar := stroke.unicodeChar

/-- The position after a key, when `m` lines can be recalled. -/
def Arrow.move (m k : Nat) : Arrow → Nat
  | .up => min (k + 1) m
  | .down => if 2 ≤ k then k - 1 else k

/-- From position `k` on, an effective key leaves the line at its new position, and any other
leaves everything as it was. -/
def FollowsHistory (stored : List (List UInt8)) : Nat → ReplState → List ArrowStroke → Prop
  | _, _, [] => True
  | k, s, stroke :: strokes =>
      ∃ s' evs, replStep s (stroke.env, some stroke.key) = some (s', evs) ∧
        (if stroke.arrow.move (recallable stored) k = k then s' = s
          else stored[stroke.arrow.move (recallable stored) k - 1]? = some s'.data.line.text) ∧
        FollowsHistory stored (stroke.arrow.move (recallable stored) k) s' strokes

theorem key_case (stroke : ArrowStroke) :
    stroke.key.case = match stroke.arrow with
      | .up => .scanUp
      | .down => .scanDown := by
  rcases stroke with ⟨env, arrow, unicodeChar⟩
  cases arrow with
  | up => rfl
  | down => rfl

/-! ## One key -/

/-- Drawing moves the cursor alone. -/
theorem redraw_keeps (oldLineLength : Nat) (s : ReplState) (r : Redraw) :
    ∃ cursorPos, (redraw oldLineLength s r).1 =
      { s with data := { s.data with cursorPos := cursorPos } } := by
  unfold redraw
  simp only
  split
  · split
    · exact ⟨_, rfl⟩
    · exact ⟨_, rfl⟩
  · split
    · split
      · exact ⟨_, rfl⟩
      · exact ⟨_, rfl⟩
    · split
      · exact ⟨_, rfl⟩
      · exact ⟨s.data.cursorPos, rfl⟩

/-- A normal prompt, `k` lines back; nothing is protected in front of an empty line. -/
structure AtPosition (stored : List (List UInt8)) (k : Nat) (s : ReplState) : Prop where
  normal : s.replMode = .normal
  running : s.returned = none
  remembers : Remembers s.data stored
  cursor : s.historyCursor = back s.data.historyIndex k
  unprotected : s.data.line.len = 0 → s.data.origLineLength = 0

/-- The heap has room for any line of them. -/
def RoomFor (stored : List (List UInt8)) (heap : Heap) : Prop :=
  ∀ entry ∈ stored, heap.gets (roundAlloc (entry.length + 16))

theorem addStr_empty {heap : Heap} {v : Vstr} {str : List UInt8} (hempty : v.len = 0)
    (hheap : heap.gets (roundAlloc (str.length + 16))) :
    ∃ w, v.addStr heap str = some w ∧ w.text = str ∧ w.len = str.length := by
  have hextra : ∃ w, v.ensureExtra heap str.length = some w := by
    rw [Vstr.ensureExtra, hempty, Nat.zero_add]
    split
    · rw [renew, if_pos hheap]
      exact ⟨_, rfl⟩
    · exact ⟨v, rfl⟩
  rcases hextra with ⟨w, hw⟩
  rw [Vstr.addStr, hw]
  refine ⟨_, rfl, ?_, ?_⟩
  · simp [Vstr.text, hempty]
  · simp [hempty]

/-- Nothing is left of an empty line whose tail is cut off. -/
theorem cutTailBytes_empty {v : Vstr} {len : Nat} (hempty : v.len = 0) :
    (v.cutTailBytes (uintn ((v.len : Int) - len))).len = 0 := by
  rw [Vstr.cutTailBytes]
  split
  · rfl
  · exact (congrArg (· - _) hempty).trans (Nat.zero_sub _)

/-- The line recalled takes the place of the one that was there. -/
theorem recallHistory_step {env : Environment} {s : ReplState} {stored : List (List UInt8)}
    {k l : Nat} {entry : List UInt8} {cut : ReplData → Vstr × List ReplEvent}
    (hs : AtPosition stored k s) (hentry : s.data.history (back s.data.historyIndex l) = some entry)
    (hheap : env.heap.gets (roundAlloc (entry.length + 16)))
    (hcut : ∀ data : ReplData, data.line.len = 0 → data.origLineLength = 0 →
      (cut data).1.len = 0) :
    ∃ s' r evs, recallHistory env s (back s.data.historyIndex l) cut = some (s', r, evs) ∧
      AtPosition stored l s' ∧ s'.data.line.text = entry := by
  -- the line is empty before the stored one is written, whether or not it had text
  have hclear : ∃ data : ReplData, data = (if 0 < s.data.line.len then replClear s.data else s.data) ∧
      data.line.len = 0 ∧ data.origLineLength = 0 ∧ data.history = s.data.history ∧
      data.historyIndex = s.data.historyIndex := by
    by_cases hline : 0 < s.data.line.len
    · rw [if_pos hline]
      exact ⟨_, rfl, rfl, rfl, rfl, rfl⟩
    · have hempty : s.data.line.len = 0 := Nat.eq_zero_of_not_pos hline
      rw [if_neg hline]
      exact ⟨_, rfl, hempty, hs.unprotected hempty, rfl, rfl⟩
  rcases hclear with ⟨data, hdata, hlen, horig, hhistory, hindex⟩
  rcases addStr_empty (hcut data hlen horig) hheap with ⟨w, hadd, htext, -⟩
  unfold recallHistory
  rw [hs.normal, hentry]
  simp only [← hdata, hadd, Option.map_some]
  refine ⟨_, _, _, rfl, ?_, htext⟩
  constructor
  · rfl
  · exact hs.running
  · have hring := hs.remembers
    unfold Remembers at hring ⊢
    rw [hhistory, hindex]
    exact hring
  · rw [hindex]
  · intro _
    exact horig

/-- Without an entry there, nothing happens. -/
theorem recallHistory_none {env : Environment} {s : ReplState} {historyCursor : Fin replHistSize}
    {cut : ReplData → Vstr × List ReplEvent} (h : s.data.history historyCursor = none) :
    recallHistory env s historyCursor cut = some (s, noRedraw, []) := by
  unfold recallHistory
  rw [h]
  cases s.replMode <;> rfl

/-- What becomes of a key whose handler recalls an entry, drawn. -/
theorem replStep_recall {stored : List (List UInt8)} {s : ReplState} {stroke : ArrowStroke}
    {k l : Nat} {entry : List UInt8} {cut : ReplData → Vstr × List ReplEvent}
    (hs : AtPosition stored k s)
    (hkey : onKey stroke.env s stroke.key.case =
      recallHistory stroke.env s (back s.data.historyIndex l) cut)
    (hentry : s.data.history (back s.data.historyIndex l) = some entry)
    (hheap : stroke.env.heap.gets (roundAlloc (entry.length + 16)))
    (hcut : ∀ data : ReplData, data.line.len = 0 → data.origLineLength = 0 →
      (cut data).1.len = 0) :
    ∃ s' evs, replStep s (stroke.env, some stroke.key) = some (s', evs) ∧
      AtPosition stored l s' ∧ s'.data.line.text = entry := by
  rcases recallHistory_step hs hentry hheap hcut with ⟨t, r, evs, hrecall, ht, htext⟩
  rcases redraw_keeps s.data.line.len t r with ⟨cursorPos, hdrawn⟩
  have hrunning : ¬ t.returned.isSome := by simp [ht.running]
  refine ⟨(redraw s.data.line.len t r).1, evs ++ (redraw s.data.line.len t r).2, ?_, ?_, ?_⟩
  · rw [replStep, hs.running]
    simp only [hkey, hrecall, Option.map_some, if_neg hrunning]
  · rw [hdrawn]
    exact ⟨ht.normal, ht.running, ht.remembers, ht.cursor, ht.unprotected⟩
  · rw [hdrawn]
    exact htext

theorem replStep_still {stored : List (List UInt8)} {s : ReplState} {stroke : ArrowStroke}
    {k : Nat} (hs : AtPosition stored k s)
    (hkey : onKey stroke.env s stroke.key.case = some (s, noRedraw, [])) :
    replStep s (stroke.env, some stroke.key) = some (s, []) := by
  have hrunning : ¬ s.returned.isSome := by simp [hs.running]
  rw [replStep, hs.running]
  simp only [hkey, Option.map_some, if_neg hrunning]
  rfl

/-! ## The position -/

/-- An entry of the lines stored is found at each position up to the last. -/
theorem AtPosition.entry {stored : List (List UInt8)} {k : Nat} {s : ReplState}
    (hs : AtPosition stored k s) {l : Nat} (hpos : 0 < l) (hl : l ≤ recallable stored) :
    ∃ entry ∈ stored, stored[l - 1]? = some entry ∧
      s.data.history (back s.data.historyIndex l) = some entry := by
  have hsize : l < replHistSize := by
    rw [recallable, replHistSize] at *
    omega
  have hlength : l - 1 < stored.length := by
    rw [recallable] at hl
    omega
  have hsome : stored[l - 1]? = some stored[l - 1] := List.getElem?_eq_getElem hlength
  refine ⟨stored[l - 1], List.getElem_mem hlength, hsome, ?_⟩
  rw [hs.remembers l hsize, ← hsome]
  cases l with
  | zero => exact absurd hpos (Nat.lt_irrefl 0)
  | succ l => rfl

/-- Behind the last position is the gap. -/
theorem AtPosition.no_entry {stored : List (List UInt8)} {s : ReplState}
    (hs : AtPosition stored (recallable stored) s) :
    s.data.history (back s.data.historyIndex (recallable stored + 1)) = none := by
  by_cases hfull : recallable stored + 1 = replHistSize
  · have hgap := hs.remembers 0 (by decide)
    rw [back_zero] at hgap
    rw [hfull, back_size]
    exact hgap
  · have hsize : recallable stored + 1 < replHistSize := by
      rw [recallable, replHistSize] at *
      omega
    rw [hs.remembers _ hsize]
    apply List.getElem?_eq_none
    rw [recallable, replHistSize] at *
    omega

/-- In front of the first position is the line being written, or the gap. -/
theorem AtPosition.no_newer {stored : List (List UInt8)} {k : Nat} {s : ReplState}
    (hs : AtPosition stored k s) (hk : k < 2)
    (hgap : k = 0 → stored.length < replHistSize - 1) :
    s.data.history (back s.data.historyIndex k + 1) = none := by
  by_cases hzero : k = 0
  · have hroom := hgap hzero
    rw [hzero, back_zero, add_one_eq_back, hs.remembers _ (by decide)]
    exact List.getElem?_eq_none (Nat.le_of_lt_succ hroom)
  · have hone : k = 0 + 1 := by omega
    have hgap := hs.remembers 0 (by decide)
    rw [hone, back_succ_add_one]
    exact hgap

/-- One key leads to its position: nothing changes, or the line is the one stored there. -/
def ArrowStep (stored : List (List UInt8)) (k : Nat) (s : ReplState) (stroke : ArrowStroke) :
    Prop :=
  ∃ s' evs, replStep s (stroke.env, some stroke.key) = some (s', evs) ∧
    (if stroke.arrow.move (recallable stored) k = k then s' = s
      else stored[stroke.arrow.move (recallable stored) k - 1]? = some s'.data.line.text) ∧
    AtPosition stored (stroke.arrow.move (recallable stored) k) s'

section ArrowStep

variable {stored : List (List UInt8)} {k : Nat} {s : ReplState} {stroke : ArrowStroke}

/-- A key that finds an entry. -/
theorem arrowStep_recall {l : Nat} {cut : ReplData → Vstr × List ReplEvent}
    (hs : AtPosition stored k s)
    (hkey : onKey stroke.env s stroke.key.case =
      recallHistory stroke.env s (back s.data.historyIndex l) cut)
    (hmove : stroke.arrow.move (recallable stored) k = l) (hne : l ≠ k) (hpos : 0 < l)
    (hl : l ≤ recallable stored) (hheap : RoomFor stored stroke.env.heap)
    (hcut : ∀ data : ReplData, data.line.len = 0 → data.origLineLength = 0 →
      (cut data).1.len = 0) : ArrowStep stored k s stroke := by
  rcases hs.entry hpos hl with ⟨entry, hmem, hfound, hentry⟩
  rcases replStep_recall hs hkey hentry (hheap entry hmem) hcut with ⟨s', evs, hstep, hs', htext⟩
  refine ⟨s', evs, hstep, ?_, ?_⟩
  · rw [hmove, if_neg hne, htext]
    exact hfound
  · rw [hmove]
    exact hs'

/-- A key that finds none. -/
theorem arrowStep_none {historyCursor : Fin replHistSize}
    {cut : ReplData → Vstr × List ReplEvent} (hs : AtPosition stored k s)
    (hkey : onKey stroke.env s stroke.key.case = recallHistory stroke.env s historyCursor cut)
    (hmove : stroke.arrow.move (recallable stored) k = k)
    (hnone : s.data.history historyCursor = none) : ArrowStep stored k s stroke := by
  rw [recallHistory_none hnone] at hkey
  refine ⟨s, [], replStep_still hs hkey, ?_, ?_⟩
  · rw [if_pos hmove]
  · rw [hmove]
    exact hs

theorem arrowStep_up (hs : AtPosition stored k s) (hup : stroke.arrow = .up)
    (hk : k ≤ recallable stored) (hheap : RoomFor stored stroke.env.heap) :
    ArrowStep stored k s stroke := by
  have hkey : onKey stroke.env s stroke.key.case = onUp stroke.env s := by
    rw [key_case stroke, hup]
    rfl
  rw [onUp, hs.cursor, back_sub_one] at hkey
  by_cases hlast : k = recallable stored
  · -- the gap ends the walk
    subst hlast
    refine arrowStep_none hs hkey ?_ hs.no_entry
    rw [hup]
    exact min_eq_right (Nat.le_succ _)
  · have hnext : k + 1 ≤ recallable stored := by omega
    refine arrowStep_recall hs hkey ?_ (Nat.succ_ne_self k) (Nat.succ_pos k) hnext hheap
      fun _ _ horig => horig
    rw [hup]
    exact min_eq_left hnext

theorem arrowStep_down (hs : AtPosition stored k s) (hdown : stroke.arrow = .down)
    (hk : k ≤ recallable stored) (hheap : RoomFor stored stroke.env.heap)
    (hgap : k = 0 → stored.length < replHistSize - 1) : ArrowStep stored k s stroke := by
  have hkey : onKey stroke.env s stroke.key.case = onDown stroke.env s := by
    rw [key_case stroke, hdown]
    rfl
  rw [onDown, hs.cursor] at hkey
  by_cases hback : 2 ≤ k
  · -- one line forward
    have hstep : back s.data.historyIndex k + 1 = back s.data.historyIndex (k - 1) := by
      have hsucc := back_succ_add_one s.data.historyIndex (k - 1)
      rwa [Nat.sub_add_cancel (by omega)] at hsucc
    rw [hstep] at hkey
    refine arrowStep_recall hs hkey ?_ (by omega) (by omega) (by omega) hheap
      fun _ h _ => cutTailBytes_empty h
    rw [hdown]
    exact if_pos hback
  · refine arrowStep_none hs hkey ?_ (hs.no_newer (by omega) hgap)
    rw [hdown]
    exact if_neg hback

/-- What one key does, from any position but the first with a full ring below. -/
theorem arrow_step (hs : AtPosition stored k s) (hk : k ≤ recallable stored)
    (hheap : RoomFor stored stroke.env.heap)
    (hgap : stroke.arrow = .down → k = 0 → stored.length < replHistSize - 1) :
    ArrowStep stored k s stroke := by
  cases harrow : stroke.arrow with
  | up => exact arrowStep_up hs harrow hk hheap
  | down => exact arrowStep_down hs harrow hk hheap (hgap harrow)

end ArrowStep

/-- With a full ring, the first key down recalls the oldest line. -/
theorem arrow_wraps {stored : List (List UInt8)} {s : ReplState} {stroke : ArrowStroke}
    (hs : AtPosition stored 0 s) (hdown : stroke.arrow = .down)
    (hfull : replHistSize - 1 ≤ stored.length) (hheap : RoomFor stored stroke.env.heap) :
    ∃ s' evs, replStep s (stroke.env, some stroke.key) = some (s', evs) ∧
      AtPosition stored (replHistSize - 1) s' := by
  have hkey : onKey stroke.env s stroke.key.case = onDown stroke.env s := by
    rw [key_case stroke, hdown]
    rfl
  rw [onDown, hs.cursor, back_zero, add_one_eq_back] at hkey
  have hlast : replHistSize - 1 ≤ recallable stored := Nat.le_min.mpr ⟨hfull, Nat.le_refl _⟩
  rcases hs.entry (by decide) hlast with ⟨entry, hmem, -, hentry⟩
  rcases replStep_recall hs hkey hentry (hheap entry hmem) (fun _ h _ => cutTailBytes_empty h)
    with ⟨s', evs, hstep, hs', -⟩
  exact ⟨s', evs, hstep, hs'⟩

/-! ## Keys after each other -/

theorem move_le {m k : Nat} (hk : k ≤ m) (arrow : Arrow) : arrow.move m k ≤ m := by
  cases arrow with
  | up => exact min_le_right _ _
  | down =>
      rw [Arrow.move]
      split
      · omega
      · exact hk

/-- Only where there is nothing to recall, a key leads to the position it starts from. -/
theorem move_pos {m k : Nat} (hm : 0 < m) (hk : 0 < k) (arrow : Arrow) : 0 < arrow.move m k := by
  cases arrow with
  | up => exact Nat.lt_min.mpr ⟨Nat.succ_pos k, hm⟩
  | down =>
      rw [Arrow.move]
      split
      · omega
      · exact hk

/-- The ring has room, or its end is not the next one. -/
def EndApart (stored : List (List UInt8)) (k : Nat) (strokes : List ArrowStroke) : Prop :=
  stored.length < replHistSize - 1 ∨ 0 < k ∨ strokes.head?.map ArrowStroke.arrow ≠ some .down

theorem EndApart.tail {stored : List (List UInt8)} {k : Nat} {stroke : ArrowStroke}
    {strokes : List ArrowStroke} (h : EndApart stored k (stroke :: strokes)) :
    EndApart stored (stroke.arrow.move (recallable stored) k) strokes := by
  by_cases hroom : stored.length < replHistSize - 1
  · exact .inl hroom
  · have hm : 0 < recallable stored := by
      have hsize : 0 < replHistSize - 1 := by decide
      exact Nat.lt_min.mpr ⟨by omega, hsize⟩
    right
    left
    rcases h with h | h | h
    · exact absurd h hroom
    · exact move_pos hm h stroke.arrow
    · have hup : stroke.arrow = .up := by
        cases harrow : stroke.arrow with
        | up => rfl
        | down => exact absurd (congrArg some harrow) h
      rw [hup]
      exact Nat.lt_min.mpr ⟨Nat.succ_pos k, hm⟩

theorem follows_history {stored : List (List UInt8)} (strokes : List ArrowStroke) {k : Nat}
    {s : ReplState} (hs : AtPosition stored k s) (hk : k ≤ recallable stored)
    (hheap : ∀ stroke ∈ strokes, RoomFor stored stroke.env.heap)
    (hend : EndApart stored k strokes) : FollowsHistory stored k s strokes := by
  induction strokes generalizing k s with
  | nil => trivial
  | cons stroke strokes ih =>
      have hgap : stroke.arrow = .down → k = 0 → stored.length < replHistSize - 1 := by
        intro hdown hzero
        rcases hend with h | h | h
        · exact h
        · exact absurd hzero (Nat.ne_of_gt h)
        · exact absurd (congrArg some hdown) h
      rcases arrow_step hs hk (hheap stroke List.mem_cons_self) hgap
        with ⟨s', evs, hstep, hline, hs'⟩
      refine ⟨s', evs, hstep, hline, ih hs' (move_le hk _) ?_ hend.tail⟩
      intro other hother
      exact hheap other (List.mem_cons_of_mem stroke hother)

theorem replLoop_atPosition {data : ReplData} {stored : List (List UInt8)}
    (h : Remembers data stored) : AtPosition stored 0 (replLoop data) where
  normal := rfl
  running := rfl
  remembers := h
  cursor := (back_zero _).symm
  unprotected := fun hempty => hempty

/-- The first key has moved the cursor around the ring. -/
theorem not_follows_history {stored : List (List UInt8)} {strokes : List ArrowStroke}
    {s : ReplState} (hs : AtPosition stored 0 s)
    (hheap : ∀ stroke ∈ strokes, RoomFor stored stroke.env.heap)
    (hfull : replHistSize - 1 ≤ stored.length)
    (hdown : strokes.head?.map ArrowStroke.arrow = some .down) :
    ¬ FollowsHistory stored 0 s strokes := by
  intro hfollows
  cases strokes with
  | nil => exact absurd hdown.symm (Option.some_ne_none _)
  | cons stroke strokes =>
      have harrow : stroke.arrow = .down := Option.some.inj hdown
      rcases arrow_wraps hs harrow hfull (hheap stroke List.mem_cons_self)
        with ⟨t, evs, hstep, ht⟩
      rcases hfollows with ⟨s', evs', hstep', hsame, -⟩
      have hstill : stroke.arrow.move (recallable stored) 0 = 0 := by
        rw [harrow]
        rfl
      rw [if_pos hstill] at hsame
      rw [hstep] at hstep'
      cases hstep'
      have hcursor := ht.cursor
      rw [hsame, hs.cursor] at hcursor
      have hzero : 0 = replHistSize - 1 := back_injective (by decide) (by decide) hcursor
      exact absurd hzero (by decide)

section FreshPrompt

variable (data : ReplData) (line : Vstr) (lines : List (Heap × List UInt8))

theorem fresh_atPosition (hlines : ∀ p ∈ lines, p.1.gets (p.2.length + 1)) :
    AtPosition (storedLines (lines.map Prod.snd)) 0
      (replLoop (pushLines (replInit data line) lines)) :=
  replLoop_atPosition (pushLines_remembers lines (replInit_remembers data line) hlines)

/-- At a fresh prompt, the arrow keys walk through the lines stored exactly if the ring is not
full or the first key does not go down. -/
theorem arrows_follow_history_iff (strokes : List ArrowStroke)
    (hlines : ∀ p ∈ lines, p.1.gets (p.2.length + 1))
    (hstrokes : ∀ stroke ∈ strokes, RoomFor (storedLines (lines.map Prod.snd)) stroke.env.heap) :
    FollowsHistory (storedLines (lines.map Prod.snd)) 0
        (replLoop (pushLines (replInit data line) lines)) strokes ↔
      (storedLines (lines.map Prod.snd)).length < replHistSize - 1 ∨
        strokes.head?.map ArrowStroke.arrow ≠ some .down := by
  have hs := fresh_atPosition data line lines hlines
  constructor
  · intro hfollows
    by_contra hnot
    rcases not_or.mp hnot with ⟨hfull, hhead⟩
    exact not_follows_history hs hstrokes (Nat.le_of_not_lt hfull) (not_not.mp hhead) hfollows
  · intro hok
    apply follows_history strokes hs (Nat.zero_le _) hstrokes
    rcases hok with h | h
    · exact .inl h
    · exact .inr (.inr h)

end FreshPrompt

/-- A key stroke, with nothing else going on. -/
def quietStroke (arrow : Arrow) : ArrowStroke where
  env := { heap := wholeHeap, continueWithInput := fun _ => false, autocomplete := fun _ => none }
  arrow := arrow
  unicodeChar := 0

/-- What is there before `ReplInit`. -/
def noData : ReplData where
  line := ⟨[], 0⟩
  origLineLength := 0
  cursorPos := 0
  history := fun _ => none
  historyIndex := 0

/-- Two lines, up to the older one, and down again. -/
theorem arrows_follow_two_lines :
    FollowsHistory [[0x62], [0x61]] 0
      (replLoop (pushLines (replInit noData ⟨[], 0⟩) [(wholeHeap, [0x61]), (wholeHeap, [0x62])]))
      [quietStroke .up, quietStroke .up, quietStroke .up, quietStroke .down] := by
  apply (arrows_follow_history_iff noData ⟨[], 0⟩
    [(wholeHeap, [0x61]), (wholeHeap, [0x62])]
    [quietStroke .up, quietStroke .up, quietStroke .up, quietStroke .down] ?_ ?_).mpr
  · left
    decide
  · decide
  · intro stroke hstroke entry hentry
    have hentry : entry ∈ [[0x62], [(0x61 : UInt8)]] := hentry
    have hroom : wholeHeap.gets (roundAlloc (entry.length + 16)) := by
      revert entry
      decide
    simp only [List.mem_cons, List.not_mem_nil, or_false] at hstroke
    rcases hstroke with rfl | rfl | rfl | rfl <;> exact hroom

/-- A line of one character each, as many as the ring can have. -/
def fullHistory : List (Heap × List UInt8) :=
  (List.range (replHistSize - 1)).map fun i => (wholeHeap, [UInt8.ofNat (i + 0x30)])

/-- The ring is full, and the key down at the fresh prompt is not without effect. -/
theorem full_history_wraps :
    ¬ FollowsHistory (storedLines (fullHistory.map Prod.snd)) 0
      (replLoop (pushLines (replInit noData ⟨[], 0⟩) fullHistory)) [quietStroke .down] := by
  apply not_follows_history (fresh_atPosition noData ⟨[], 0⟩ fullHistory (by decide +kernel))
  · intro stroke hstroke
    rw [List.mem_singleton.mp hstroke]
    unfold RoomFor
    decide +kernel
  · decide +kernel
  · rfl

end EfiLvgl.Repl
