import EfiLvgl.Console.ConIn
import EfiLvgl.Lib.Buffer

/-!
# EfiLvgl.Usf.StdIn — a line from the keyboard

`SysStdInRead` of `usf.c`, which reads one key stroke after the other into the caller's buffer.
The limit of a line is what is left of the screen's width, an unsigned difference, or the
buffer, and it is looked at once a key has been handled.

`sysStdInRead_line`: what is handed back are the characters that the deletions have left, up to
the first key that ends the line, and nothing is stored outside the buffer.
-/

namespace EfiLvgl.Usf

open EfiLvgl.ConIn

/-! ## `SysStdInRead` -/

def charCarriageReturn : Char16 := 0x000D
def charBackspace : Char16 := 0x0008
def scanDelete : UInt16 := 0x0008

/-- `gST->ConOut->Mode`, and the columns that `QueryMode` finds. -/
structure OutputMode where
  cursorColumn : Int32
  cursorRow : Int32
  totalColumn : UInt64

/-- `INT32` as `UINTN`. -/
def uintnOfInt32 (z : Int32) : UInt64 := z.toInt64.toUInt64

def OutputMode.column (mode : OutputMode) : UInt64 := uintnOfInt32 mode.cursorColumn
def OutputMode.row (mode : OutputMode) : UInt64 := uintnOfInt32 mode.cursorRow

/-- What is passed on to `ConOut`. -/
inductive OutputCall where
  | outputString (text : List Char16)
  | setCursorPosition (column row : UInt64)
  deriving DecidableEq, Repr

/-- The variables of the loop. -/
structure LineState where
  currentString : Buffer UInt8
  stringCurPos : Nat
  output : List OutputCall

/-- `CurrentString[--StringCurPos] = ' '`, unless at the start. -/
def LineState.deleteLast (s : LineState) : LineState :=
  if s.stringCurPos ≠ 0 then
    { s with
      currentString := s.currentString.put (s.stringCurPos - 1) 0x20
      stringCurPos := s.stringCurPos - 1 }
  else s

/-- `CurrentString[StringCurPos++] = (CHAR8)Key.UnicodeChar`. -/
def LineState.store (s : LineState) (c : Char16) : LineState :=
  { s with
    currentString := s.currentString.put s.stringCurPos c.toUInt8
    stringCurPos := s.stringCurPos + 1 }

/-- The `switch` on the key: the state, and whether it is `Done`. -/
def LineState.onKey (s : LineState) (key : InputKey) : LineState × Bool :=
  if key.unicodeChar = 0 then
    if key.scanCode = scanDelete then (s.deleteLast, false) else (s, false)
  else if key.unicodeChar = charCarriageReturn then
    ({ s with output := s.output ++ [.outputString [ch '\n']] }, true)
  else if key.unicodeChar = charBackspace then (s.deleteLast, false)
  else (s.store key.unicodeChar, false)

/-- `SetCursorPosition (Column + StringCurPos, Row)`. -/
def LineState.setCursor (s : LineState) (mode : OutputMode) : LineState :=
  { s with
    output := s.output ++
      [.setCursorPosition (mode.column + UInt64.ofNat s.stringCurPos) mode.row] }

/-- What has become of a read. -/
inductive LineRead where
  /-- It waits for the next key. -/
  | waiting (s : LineState)
  /-- It has returned, with `*BufferSize`, before the other strokes. -/
  | returned (status : EfiStatus) (bufferSize : Nat) (s : LineState)
      (unread : List (Except EfiStatus InputKey))

/-- The loop. A stroke is what `ReadKeyStroke` comes to. -/
def readKeys (mode : OutputMode) (maxStr : UInt64) (s : LineState) :
    List (Except EfiStatus InputKey) → LineRead
  | [] => .waiting s
  | .error status :: strokes => .returned status s.stringCurPos s strokes
  | .ok key :: strokes =>
      let (s, done) := s.onKey key
      let done := done || maxStr.toNat ≤ s.stringCurPos
      let s := s.setCursor mode
      if done then .returned .success s.stringCurPos s strokes
      else readKeys mode maxStr s strokes

/-- `MaxStr`. -/
def maxStr (mode : OutputMode) (bufferSize : UInt64) : UInt64 :=
  let maxStr := mode.totalColumn - mode.column
  if bufferSize < maxStr then bufferSize else maxStr

/-- `SysStdInRead`, into the buffer. -/
def sysStdInRead (mode : OutputMode) (bufferSize : UInt64) (buffer : Buffer UInt8)
    (strokes : List (Except EfiStatus InputKey)) : LineRead :=
  if bufferSize < 2 then .returned .bufferTooSmall 2 ⟨buffer, 0, []⟩ strokes
  else
    let maxStr := maxStr mode bufferSize
    readKeys mode maxStr
      { currentString := buffer.putAll 0 (List.replicate maxStr.toNat 0)
        stringCurPos := 0
        output := [] } strokes

/-! ## The line that is typed -/

/-- A key that deletes, or the character it stands for. -/
def deletes (key : InputKey) : Prop :=
  key.unicodeChar = charBackspace ∨ key.unicodeChar = 0 ∧ key.scanCode = scanDelete

instance (key : InputKey) : Decidable (deletes key) :=
  inferInstanceAs (Decidable (_ ∨ _ ∧ _))

/-- The line after a key: one character less, the same, or one more. -/
def typeKey (line : List UInt8) (key : InputKey) : List UInt8 :=
  if deletes key then line.dropLast
  else if key.unicodeChar = 0 ∨ key.unicodeChar = charCarriageReturn then line
  else line ++ [key.unicodeChar.toUInt8]

/-- The line that the keys have left. -/
def typedLine (keys : List InputKey) : List UInt8 := keys.foldl typeKey []

/-- The last of the keys ends the line: it is a carriage return, or the line has come to the
limit. -/
def EndsLine (limit : Nat) (keys : List InputKey) : Prop :=
  keys.getLast?.map InputKey.unicodeChar = some charCarriageReturn ∨
    limit ≤ (typedLine keys).length

instance (limit : Nat) (keys : List InputKey) : Decidable (EndsLine limit keys) :=
  inferInstanceAs (Decidable (_ ∨ _))

/-- None of the keys ends the line. -/
def LineOpen (limit : Nat) (keys : List InputKey) : Prop :=
  ∀ read, read <+: keys → read ≠ [] → ¬ EndsLine limit read

/-! ## One key -/

/-- The buffer starts with the line. -/
structure HoldsLine (size : Nat) (s : LineState) (line : List UInt8) : Prop where
  starts : s.currentString.Starts size line
  pos : s.stringCurPos = line.length

section OneKey

variable {size : Nat} {s : LineState} {line : List UInt8}

theorem deleteLast_holds (h : HoldsLine size s line) (hroom : line.length < size) :
    HoldsLine size s.deleteLast line.dropLast := by
  rw [LineState.deleteLast]
  split
  · have hpos := h.pos
    constructor
    · simp only [hpos]
      exact h.starts.dropLast (by omega) 0x20
    · simp only [hpos, List.length_dropLast]
  · next hzero =>
      have hnil : line = [] := by
        rw [← List.length_eq_zero_iff, ← h.pos]
        exact not_not.mp hzero
      subst hnil
      exact h

theorem store_holds (h : HoldsLine size s line) (hroom : line.length < size) (c : Char16) :
    HoldsLine size (s.store c) (line ++ [c.toUInt8]) := by
  constructor
  · simp only [LineState.store, h.pos]
    exact h.starts.append hroom c.toUInt8
  · simp only [LineState.store, h.pos, List.length_append, List.length_singleton]

/-- A key that deletes is no carriage return. -/
theorem onKey_of_deletes {key : InputKey} (h : deletes key) :
    s.onKey key = (s.deleteLast, false) ∧ key.unicodeChar ≠ charCarriageReturn := by
  rcases h with hbackspace | ⟨hzero, hscan⟩
  · rw [LineState.onKey, hbackspace, if_neg (by decide), if_neg (by decide), if_pos rfl]
    exact ⟨rfl, by decide⟩
  · rw [LineState.onKey, if_pos hzero, if_pos hscan, hzero]
    exact ⟨rfl, by decide⟩

/-- The key has been typed, and is `Done` if it is a carriage return. -/
theorem onKey_holds (h : HoldsLine size s line) (hroom : line.length < size) (key : InputKey) :
    HoldsLine size (s.onKey key).1 (typeKey line key) ∧
      ((s.onKey key).2 = true ↔ key.unicodeChar = charCarriageReturn) := by
  by_cases hdeletes : deletes key
  · rcases onKey_of_deletes (s := s) hdeletes with ⟨hkey, hreturn⟩
    rw [hkey, typeKey, if_pos hdeletes]
    exact ⟨deleteLast_holds h hroom, by simp [hreturn]⟩
  rw [typeKey, if_neg hdeletes]
  rcases not_or.mp hdeletes with ⟨hbackspace, hscan⟩
  rw [LineState.onKey]
  by_cases hzero : key.unicodeChar = 0
  · -- a key without a character
    have hreturn : key.unicodeChar ≠ charCarriageReturn := by
      rw [hzero]
      decide
    rw [if_pos hzero, if_neg fun hdelete => hscan ⟨hzero, hdelete⟩, if_pos (.inl hzero)]
    exact ⟨h, by simp [hreturn]⟩
  · rw [if_neg hzero]
    by_cases hreturn : key.unicodeChar = charCarriageReturn
    · rw [if_pos hreturn, if_pos (.inr hreturn)]
      exact ⟨⟨h.starts, h.pos⟩, by simp [hreturn]⟩
    · have hchar : ¬ (key.unicodeChar = 0 ∨ key.unicodeChar = charCarriageReturn) :=
        not_or.mpr ⟨hzero, hreturn⟩
      rw [if_neg hreturn, if_neg hbackspace, if_neg hchar]
      exact ⟨store_holds h hroom key.unicodeChar, by simp [hreturn]⟩

end OneKey

/-! ## Keys after each other -/

theorem typedLine_append (keys : List InputKey) (key : InputKey) :
    typedLine (keys ++ [key]) = typeKey (typedLine keys) key :=
  List.foldl_append

theorem endsLine_append {limit : Nat} {keys : List InputKey} {key : InputKey} :
    EndsLine limit (keys ++ [key]) ↔
      key.unicodeChar = charCarriageReturn ∨ limit ≤ (typeKey (typedLine keys) key).length := by
  rw [EndsLine, List.getLast?_concat, typedLine_append, Option.map_some, Option.some.injEq]

/-- What has not ended the line leaves room in the buffer. -/
theorem LineOpen.room {limit size : Nat} {keys : List InputKey} (h : LineOpen limit keys)
    (hlimit : limit ≤ size) (hsize : 0 < size) : (typedLine keys).length < size := by
  by_cases hnil : keys = []
  · subst hnil
    exact hsize
  · have hopen := h keys (List.prefix_refl keys) hnil
    exact Nat.lt_of_lt_of_le (Nat.lt_of_not_le (not_or.mp hopen).2) hlimit

theorem LineOpen.of_append {limit : Nat} {keys : List InputKey} {key : InputKey}
    (h : LineOpen limit (keys ++ [key])) : LineOpen limit keys ∧ ¬ EndsLine limit (keys ++ [key]) := by
  constructor
  · intro read hread hne
    exact h read (hread.trans (List.prefix_append _ _)) hne
  · exact h _ (List.prefix_refl _) (by simp)

section Keys

variable (mode : OutputMode) (limit : UInt64) {size : Nat} {s : LineState}

/-- The loop on a key that ends the line, or that does not. -/
theorem readKeys_cons {keys : List InputKey} (h : HoldsLine size s (typedLine keys))
    (hroom : (typedLine keys).length < size) (key : InputKey) :
    ∃ s', HoldsLine size s' (typedLine (keys ++ [key])) ∧
      ∀ strokes, readKeys mode limit s (.ok key :: strokes) =
        if EndsLine limit.toNat (keys ++ [key]) then
          .returned .success (typedLine (keys ++ [key])).length s' strokes
        else readKeys mode limit s' strokes := by
  rcases onKey_holds h hroom key with ⟨hholds, hdone⟩
  rw [← typedLine_append] at hholds
  refine ⟨(s.onKey key).1.setCursor mode, ⟨hholds.starts, hholds.pos⟩, ?_⟩
  intro strokes
  have hends : ((s.onKey key).2 || decide (limit.toNat ≤ (s.onKey key).1.stringCurPos)) = true ↔
      EndsLine limit.toNat (keys ++ [key]) := by
    rw [Bool.or_eq_true, decide_eq_true_iff, hdone, hholds.pos, endsLine_append, typedLine_append]
  have hpos : ((s.onKey key).1.setCursor mode).stringCurPos = (typedLine (keys ++ [key])).length :=
    hholds.pos
  rw [readKeys]
  by_cases hkey : EndsLine limit.toNat (keys ++ [key])
  · simp only [if_pos (hends.mpr hkey), if_pos hkey, hpos]
  · simp only [if_neg (mt hends.mp hkey), if_neg hkey]

/-- Keys that do not end the line have been read. -/
theorem readKeys_append (h : HoldsLine size s []) (hlimit : limit.toNat ≤ size) (hsize : 0 < size)
    (keys : List InputKey) (hopen : LineOpen limit.toNat keys) :
    ∃ s', HoldsLine size s' (typedLine keys) ∧
      ∀ strokes, readKeys mode limit s (keys.map .ok ++ strokes) = readKeys mode limit s' strokes := by
  induction keys using List.reverseRecOn with
  | nil => exact ⟨s, h, fun _ => rfl⟩
  | append_singleton keys key ih =>
      rcases hopen.of_append with ⟨hbefore, hkey⟩
      rcases ih hbefore with ⟨s₁, hs₁, hrun⟩
      rcases readKeys_cons mode limit hs₁ (hbefore.room hlimit hsize) key with ⟨s₂, hs₂, hstep⟩
      refine ⟨s₂, hs₂, ?_⟩
      intro strokes
      rw [List.map_append, List.append_assoc, hrun, List.map_singleton, List.singleton_append,
        hstep, if_neg hkey]

/-- Either no key ends the line, or there is a first one. -/
theorem lineOpen_or_ends (limit : Nat) (keys : List InputKey) :
    LineOpen limit keys ∨
      ∃ read key rest, keys = read ++ key :: rest ∧ LineOpen limit read ∧
        EndsLine limit (read ++ [key]) := by
  induction keys using List.reverseRecOn with
  | nil =>
      left
      intro read hread hne
      exact absurd (List.prefix_nil.mp hread) hne
  | append_singleton keys key ih =>
      rcases ih with hopen | ⟨read, first, rest, rfl, hread, hends⟩
      · by_cases hkey : EndsLine limit (keys ++ [key])
        · exact .inr ⟨keys, key, [], rfl, hopen, hkey⟩
        · left
          intro read hread hne
          rcases List.prefix_concat_iff.mp hread with rfl | hread
          · exact hkey
          · exact hopen read hread hne
      · right
        refine ⟨read, first, rest ++ [key], ?_, hread, hends⟩
        rw [List.append_assoc, List.cons_append]

end Keys

/-! ## The line that is handed back -/

/-- The limit of a line. -/
def lineLimit (mode : OutputMode) (bufferSize : UInt64) : Nat :=
  min bufferSize.toNat (((mode.totalColumn.toNat : Int) - mode.column.toNat) % 2 ^ 64).toNat

theorem maxStr_toNat (mode : OutputMode) (bufferSize : UInt64) :
    (maxStr mode bufferSize).toNat = lineLimit mode bufferSize := by
  have hsub : (mode.totalColumn - mode.column).toNat =
      (((mode.totalColumn.toNat : Int) - mode.column.toNat) % 2 ^ 64).toNat := by
    rw [UInt64.toNat_sub]
    have hlt := mode.column.toNat_lt
    omega
  rw [lineLimit, ← hsub, maxStr]
  split
  · next hlt =>
      rw [UInt64.lt_iff_toNat_lt] at hlt
      omega
  · next hle =>
      rw [UInt64.lt_iff_toNat_lt] at hle
      omega

section Read

variable (mode : OutputMode) (bufferSize : UInt64) (buffer : Buffer UInt8)

/-- What `SysStdInRead` does with keys that do not end the line. -/
theorem sysStdInRead_open (hsize : 2 ≤ bufferSize)
    (hbuffer : buffer.Starts bufferSize.toNat []) {keys : List InputKey}
    (hopen : LineOpen (lineLimit mode bufferSize) keys) :
    ∃ s, HoldsLine bufferSize.toNat s (typedLine keys) ∧
      ∀ strokes, sysStdInRead mode bufferSize buffer (keys.map .ok ++ strokes) =
        readKeys mode (maxStr mode bufferSize) s strokes := by
  have hlimit : (maxStr mode bufferSize).toNat ≤ bufferSize.toNat := by
    rw [maxStr_toNat]
    exact min_le_left _ _
  have hlarge : ¬ bufferSize < 2 := by
    rw [UInt64.le_iff_toNat_le] at hsize
    rw [UInt64.lt_iff_toNat_lt]
    omega
  have hpos : 0 < bufferSize.toNat := by
    rw [UInt64.le_iff_toNat_le] at hsize
    exact Nat.lt_of_lt_of_le (by decide) hsize
  have hzero : (buffer.putAll 0 (List.replicate (maxStr mode bufferSize).toNat 0)).Starts
      bufferSize.toNat [] := by
    apply hbuffer.putAll
    rw [List.length_replicate]
    exact hlimit
  rw [← maxStr_toNat] at hopen
  rcases readKeys_append mode (maxStr mode bufferSize) (s := ⟨_, 0, []⟩) ⟨hzero, rfl⟩ hlimit hpos
    keys hopen with ⟨s, hs, hrun⟩
  refine ⟨s, hs, ?_⟩
  intro strokes
  rw [← hrun, sysStdInRead, if_neg hlarge]

/-- The characters that the deletions have left are handed back once the first key ends the
line; until then the read waits. Nothing is stored outside the buffer. -/
theorem sysStdInRead_line (hsize : 2 ≤ bufferSize) (hbuffer : buffer.Starts bufferSize.toNat [])
    (keys : List InputKey) :
    (∃ read key rest s, keys = read ++ key :: rest ∧
      LineOpen (lineLimit mode bufferSize) read ∧
      EndsLine (lineLimit mode bufferSize) (read ++ [key]) ∧
      sysStdInRead mode bufferSize buffer (keys.map .ok) =
        .returned .success (typedLine (read ++ [key])).length s (rest.map .ok) ∧
      s.currentString.Starts bufferSize.toNat (typedLine (read ++ [key]))) ∨
    ∃ s, LineOpen (lineLimit mode bufferSize) keys ∧
      sysStdInRead mode bufferSize buffer (keys.map .ok) = .waiting s ∧
      s.currentString.Starts bufferSize.toNat (typedLine keys) := by
  rcases lineOpen_or_ends (lineLimit mode bufferSize) keys with
    hopen | ⟨read, key, rest, rfl, hopen, hends⟩
  · right
    rcases sysStdInRead_open mode bufferSize buffer hsize hbuffer hopen with ⟨s, hs, hrun⟩
    refine ⟨s, hopen, ?_, hs.starts⟩
    have hwaits := hrun []
    rwa [List.append_nil] at hwaits
  · left
    rcases sysStdInRead_open mode bufferSize buffer hsize hbuffer hopen with ⟨s, hs, hrun⟩
    have hroom : (typedLine read).length < bufferSize.toNat := by
      rw [UInt64.le_iff_toNat_le] at hsize
      exact hopen.room (min_le_left _ _) (Nat.lt_of_lt_of_le (by decide) hsize)
    rcases readKeys_cons mode (maxStr mode bufferSize) hs hroom key
      with ⟨s', hs', hstep⟩
    refine ⟨read, key, rest, s', rfl, hopen, hends, ?_, hs'.starts⟩
    rw [List.map_append, List.map_cons, hrun, hstep, maxStr_toNat, if_pos hends]

/-- A read that fails hands back the characters so far. -/
theorem sysStdInRead_error (hsize : 2 ≤ bufferSize) (hbuffer : buffer.Starts bufferSize.toNat [])
    {keys : List InputKey} (hopen : LineOpen (lineLimit mode bufferSize) keys)
    (status : EfiStatus) (strokes : List (Except EfiStatus InputKey)) :
    ∃ s, sysStdInRead mode bufferSize buffer (keys.map .ok ++ .error status :: strokes) =
        .returned status (typedLine keys).length s strokes ∧
      s.currentString.Starts bufferSize.toNat (typedLine keys) := by
  rcases sysStdInRead_open mode bufferSize buffer hsize hbuffer hopen with ⟨s, hs, hrun⟩
  refine ⟨s, ?_, hs.starts⟩
  rw [hrun, readKeys, hs.pos]

end Read

/-- A character is typed, taken back, and another one typed before the line ends. -/
def typedKeys : List InputKey := [⟨0, 0x61⟩, ⟨0x08, 0⟩, ⟨0x01, 0⟩, ⟨0, 0x62⟩, ⟨0, 0x0D⟩]

/-- The other one is handed back. -/
theorem sysStdInRead_line_typed :
    ∃ s, sysStdInRead ⟨0, 0, 80⟩ 2 (Buffer.new 2) (typedKeys.map .ok) =
        .returned .success 1 s [] ∧ s.currentString.Starts 2 [0x62] := by
  have hruns : ∃ s, sysStdInRead ⟨0, 0, 80⟩ 2 (Buffer.new 2) (typedKeys.map .ok) =
      .returned .success 1 s [] := ⟨_, rfl⟩
  rcases hruns with ⟨s, hrun⟩
  refine ⟨s, hrun, ?_⟩
  rcases sysStdInRead_line ⟨0, 0, 80⟩ 2 (Buffer.new 2) (by decide) (Buffer.starts_nil rfl rfl)
    typedKeys with ⟨read, key, rest, s', hkeys, -, -, hread, hs⟩ | ⟨s', -, hwaits, -⟩
  · rw [hrun, LineRead.returned.injEq] at hread
    rcases hread with ⟨-, -, rfl, hrest⟩
    have hnil : rest = [] := List.map_eq_nil_iff.mp hrest.symm
    rw [hnil] at hkeys
    rw [← hkeys] at hs
    exact hs
  · rw [hrun] at hwaits
    cases hwaits

end EfiLvgl.Usf
