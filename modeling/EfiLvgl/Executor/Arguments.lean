import EfiLvgl.Executor.Model
import EfiLvgl.Text.Conversion

/-!
# EfiLvgl.Executor.Arguments — arguments and search path of a script

`UpySetArgs` and `UpySetPath` convert strings in a buffer on the stack where they are shorter than
it, and in the pool otherwise. They are measured in units for that, and written in bytes: the
buffer is kept exactly when no string that is shorter than it has too many bytes
(`buffer_kept_iff`).

`UpySetArgs` also empties `sys.argv` by hand, to as many slots as there are arguments. Without
arguments these are none, and a list without slots does not grow any more. And it stores an
argument as an interned string, whose length is kept in one byte. So `sys.argv` is right as long as
no arguments come after a list in use was emptied this way, and all have fewer than 256 bytes
(`argv_follows_iff`).
-/

namespace EfiLvgl.Executor

open EfiLvgl.Text

/-! ## Conversions -/

/-- `UnicodeToUtf8`, with a destination or without. -/
def unicodeToUtf8 (src : Str16) (dst : Option (Buffer UInt8)) : Converted UInt8 :=
  let dstBuf := dst.getD (.new (utf8Size src + 1))
  let p := encodeLoop dstBuf 0 src
  ⟨p.1.put p.2 0, p.2, List.range src.length⟩

theorem unicodeToUtf8_none (src : Str16) : unicodeToUtf8 src none = Text.unicodeToUtf8 src := rfl

/-- `ARRAY_SIZE (Buffer)`, in both functions. -/
def bufferSize : Nat := 1024

/-- The destination they choose for a string, `Buffer` or `NULL`. -/
def argStr (buffer : Buffer UInt8) (s : Str16) : Option (Buffer UInt8) :=
  if bufferSize ≤ s.length then none else some buffer

/-- `Buffer` when a string has been converted. -/
def convert (buffer : Buffer UInt8) (s : Str16) : Buffer UInt8 :=
  match argStr buffer s with
  | none => buffer
  | some buffer => (unicodeToUtf8 s (some buffer)).dst

/-- `Buffer` at the end of `UpySetArgs`. -/
def setArgsBuffer (this : Option Ptr) (argv : Option (List (Option Str16))) : Buffer UInt8 :=
  if this = none then .new bufferSize
  else
    match argv with
    | none => .new bufferSize
    | some args => (args.filterMap id).foldl convert (.new bufferSize)

/-- `Buffer` at the end of `UpySetPath`. -/
def setPathBuffer (this : Option Ptr) (path : Option Str16) : Buffer UInt8 :=
  if this = none then .new bufferSize
  else
    match path with
    | none => .new bufferSize
    | some p => convert (.new bufferSize) p

/-- The bytes of a string and its terminator are no more than the buffer has: a unit from `0x80`
on takes one more than one byte, and from `0x800` on another one. -/
def Fits (s : Str16) : Prop :=
  s.length + s.countP (0x80 ≤ ·) + s.countP (0x800 ≤ ·) < bufferSize

instance (s : Str16) : Decidable (Fits s) := inferInstanceAs (Decidable (_ < _))

/-- What the interpreter stores is what the buffer is given. -/
theorem toUpyString_eq (s : Str16) : toUpyString s = Uefi.unicodeToUtf8 s := by
  unfold toUpyString Uefi.unicodeToUtf8
  congr 1
  funext c
  have hc := c.toNat_lt
  rw [utf8OfUnicode_eq]
  unfold utf8OfUnit
  dsimp only
  split
  · rfl
  · split
    · rfl
    · rw [Nat.mod_eq_of_lt (show c.toNat / 4096 < 16 by omega)]
      rfl

theorem length_toUpyString (s : Str16) :
    (toUpyString s).length = s.length + s.countP (0x80 ≤ ·) + s.countP (0x800 ≤ ·) := by
  rw [toUpyString_eq, ← utf8Size_eq]
  have hfrom : ∀ size, s.foldl (fun size c => size + unitSize c) size =
      size + (s.length + s.countP (0x80 ≤ ·) + s.countP (0x800 ≤ ·)) := by
    induction s with
    | nil => exact fun _ => rfl
    | cons c s ih =>
        intro size
        have hunit : unitSize c = 1 + (if decide (0x80 ≤ c) then 1 else 0) +
            (if decide (0x800 ≤ c) then 1 else 0) := by
          unfold unitSize
          simp only [UInt16.lt_iff_toNat_lt, UInt16.le_iff_toNat_le, decide_eq_true_eq]
          have h80 : (0x80 : UInt16).toNat = 0x80 := rfl
          have h800 : (0x800 : UInt16).toNat = 0x800 := rfl
          rw [h80, h800]
          split_ifs <;> omega
        rw [List.foldl_cons, ih, hunit, List.length_cons, List.countP_cons, List.countP_cons]
        omega
  rw [utf8Size, hfrom, Nat.zero_add]

/-- The destination is written to from the front, one place for each byte and one more. -/
theorem overrun_unicodeToUtf8 (s : Str16) {b : Buffer UInt8} (hb : b.places.length = bufferSize) :
    (unicodeToUtf8 s (some b)).dst.overrun = true ↔ b.overrun = true ∨ ¬ Fits s := by
  unfold unicodeToUtf8
  dsimp only [Option.getD_some]
  rw [encodeLoop_eq, Buffer.overrun_put, Bool.or_eq_true, Buffer.overrun_putAll,
    Buffer.length_putAll, hb, decide_eq_true_iff, Nat.zero_add, ← toUpyString_eq]
  unfold Fits
  rw [← length_toUpyString]
  constructor
  · rintro ((h | ⟨h, -⟩) | h)
    · exact .inl h
    · exact .inr (by omega)
    · exact .inr (by omega)
  · rintro (h | h)
    · exact .inl (.inl h)
    · exact .inr (by omega)

section Convert

variable {b : Buffer UInt8} (hb : b.places.length = bufferSize)
include hb

theorem overrun_convert (s : Str16) :
    (convert b s).overrun = true ↔ b.overrun = true ∨ s.length < bufferSize ∧ ¬ Fits s := by
  unfold convert argStr
  by_cases hlong : bufferSize ≤ s.length
  · rw [if_pos hlong]
    constructor
    · exact .inl
    · rintro (h | ⟨h, -⟩)
      · exact h
      · omega
  · rw [if_neg hlong]
    dsimp only
    rw [overrun_unicodeToUtf8 s hb]
    constructor
    · rintro (h | h)
      · exact .inl h
      · exact .inr ⟨by omega, h⟩
    · rintro (h | ⟨-, h⟩)
      · exact .inl h
      · exact .inr h

theorem length_convert (s : Str16) : (convert b s).places.length = bufferSize := by
  unfold convert argStr
  split
  · exact hb
  · rename_i dst hdst
    split at hdst
    · cases hdst
    · cases hdst
      show (unicodeToUtf8 s (some b)).dst.places.length = bufferSize
      unfold unicodeToUtf8
      dsimp only [Option.getD_some]
      rw [encodeLoop_eq, Buffer.length_put, Buffer.length_putAll, hb]

theorem overrun_conversions (strs : List Str16) :
    (strs.foldl convert b).overrun = true ↔
      b.overrun = true ∨ ∃ s ∈ strs, s.length < bufferSize ∧ ¬ Fits s := by
  -- one buffer for all conversions: each finds what the one before has left
  induction strs generalizing b with
  | nil => simp
  | cons s strs ih =>
      rw [List.foldl_cons, ih (length_convert hb s), overrun_convert hb, List.exists_mem_cons_iff,
        or_assoc]

end Convert

theorem length_new : (Buffer.new bufferSize : Buffer UInt8).places.length = bufferSize :=
  List.length_replicate

theorem overrun_setArgsBuffer {this : Option Ptr} (hthis : this ≠ none)
    (args : List (Option Str16)) :
    (setArgsBuffer this (some args)).overrun = false ↔
      ∀ s, some s ∈ args → s.length < bufferSize → Fits s := by
  have hover := overrun_conversions length_new (args.filterMap id)
  have hnew : (Buffer.new bufferSize : Buffer UInt8).overrun = false := rfl
  rw [setArgsBuffer, if_neg hthis, ← Bool.not_eq_true, hover, hnew]
  simp

theorem overrun_setPathBuffer {this : Option Ptr} (hthis : this ≠ none) (path : Str16) :
    (setPathBuffer this (some path)).overrun = false ↔
      (path.length < bufferSize → Fits path) := by
  have hover := overrun_convert length_new path
  have hnew : (Buffer.new bufferSize : Buffer UInt8).overrun = false := rfl
  rw [setPathBuffer, if_neg hthis, ← Bool.not_eq_true, hover, hnew]
  simp

/-- A call of one of the functions. -/
inductive ConversionCall where
  | setArgs (this : Option Ptr) (argv : Option (List (Option Str16)))
  | setPath (this : Option Ptr) (path : Option Str16)

/-- `Buffer` at the end of the call. -/
def ConversionCall.buffer : ConversionCall → Buffer UInt8
  | .setArgs this argv => setArgsBuffer this argv
  | .setPath this path => setPathBuffer this path

/-- The strings that are converted: none when the call returns early. -/
def ConversionCall.strings : ConversionCall → List Str16
  | .setArgs this argv => if this = none then [] else (argv.getD []).filterMap id
  | .setPath this path => if this = none then [] else path.toList

/-- The buffer is kept exactly when each string that is shorter than the buffer fits. -/
theorem buffer_kept_iff (call : ConversionCall) :
    call.buffer.overrun = false ↔ ∀ s ∈ call.strings, s.length < bufferSize → Fits s := by
  cases call with
  | setArgs this argv =>
      by_cases hthis : this = none
      · simp [ConversionCall.buffer, ConversionCall.strings, setArgsBuffer, hthis, Buffer.new]
      · cases argv with
        | none => simp [ConversionCall.buffer, ConversionCall.strings, setArgsBuffer, Buffer.new]
        | some args =>
            simp [ConversionCall.buffer, ConversionCall.strings, overrun_setArgsBuffer hthis, hthis]
  | setPath this path =>
      by_cases hthis : this = none
      · simp [ConversionCall.buffer, ConversionCall.strings, setPathBuffer, hthis, Buffer.new]
      · cases path with
        | none => simp [ConversionCall.buffer, ConversionCall.strings, setPathBuffer, Buffer.new]
        | some p =>
            simp [ConversionCall.buffer, ConversionCall.strings, overrun_setPathBuffer hthis, hthis]

/-- A path of 342 Chinese characters is shorter than the buffer, and has 1026 bytes. -/
theorem long_path_overruns : ¬ ∀ call : ConversionCall, call.buffer.overrun = false := by
  intro hall
  have hkept : (setPathBuffer (some 1) (some (List.replicate 342 0x4E2D))).overrun = false :=
    hall (.setPath (some 1) (some (List.replicate 342 0x4E2D)))
  rw [overrun_setPathBuffer (by simp)] at hkept
  have hfits : Fits (List.replicate 342 0x4E2D) :=
    hkept (by rw [List.length_replicate]; decide)
  unfold Fits at hfits
  rw [List.countP_replicate, List.countP_replicate, List.length_replicate] at hfits
  revert hfits
  decide

/-! ## The list -/

/-- The slots of a list are enough for what is in it. -/
def PyList.Valid (l : PyList) : Prop := l.items.length ≤ l.alloc

/-- The lists that the items of a sequence are appended to, one after the other. -/
def appendedTo (l : PyList) : List Str8 → List PyList
  | [] => []
  | x :: xs => l :: appendedTo (l.append x) xs

/-- `sys.argv` when `UpySetArgs` has emptied it. -/
def emptied (l : PyList) (argc : Nat) : PyList := if l.items.length > 0 then ⟨[], argc⟩ else l

/-- The arguments of a call in the interpreter's encoding. -/
def arguments (args : List (Option Str16)) : List Str8 := (args.filterMap id).map toUpyString

/-- The strings that are appended for them. -/
def stored (args : List (Option Str16)) : List Str8 := (arguments args).map qstrFromStr

/-- No argument is too long for an interned string. -/
def Short (args : List (Option Str16)) : Prop := ∀ x ∈ arguments args, x.length < 256

/-- A call of `UpySetArgs`, and the firmware's answers to it. -/
structure SetArgs where
  this : Option Ptr
  argv : Option (List (Option Str16))
  env : InitEnv

/-- What the call is given, if it is not turned down. -/
def SetArgs.accepted (c : SetArgs) : Option (List (Option Str16)) :=
  if c.this = none then none else c.argv

def SetArgs.label (c : SetArgs) : Lbl := .setArgs c.this c.argv c.env

/-- A list is given all arguments, and had slots for them at each step. -/
structure Listed (l : PyList) (args : List (Option Str16)) (l' : PyList) : Prop where
  items : l'.items = arguments args
  valid : l'.Valid
  slots : ∀ m ∈ appendedTo (emptied l args.length) (stored args), m.Valid ∧ 0 < m.alloc

/-- `sys.argv` when a call has appended its arguments. -/
def listAfter (l : PyList) (args : List (Option Str16)) : PyList :=
  (stored args).foldl PyList.append (emptied l args.length)

/-- After each of the calls that is not turned down, `sys.argv` holds its arguments. -/
def ArgvFollows : Sys → List SetArgs → Prop
  | _, [] => True
  | s, c :: cs => ∃ s' evs, step s c.label = some (s', evs) ∧
      (∀ args, c.accepted = some args → Listed s.sysArgv args s'.sysArgv) ∧ ArgvFollows s' cs

/-- A call with an argument, one without any, and later another one with an argument. -/
def Refilled (calls : List (List (Option Str16))) : Prop :=
  ∃ pre a post, calls = pre ++ a :: [] :: post ∧ arguments a ≠ [] ∧ ∃ b ∈ post, arguments b ≠ []

theorem items_foldl_append (l : PyList) (xs : List Str8) :
    (xs.foldl PyList.append l).items = l.items ++ xs := by
  induction xs generalizing l with
  | nil => simp
  | cons x xs ih =>
      rw [List.foldl_cons, ih]
      simp [PyList.append]

/-- A list that has slots at all is given more of them when it needs them. -/
theorem valid_append {l : PyList} (hl : l.Valid ∧ 0 < l.alloc) (x : Str8) :
    (l.append x).Valid ∧ 0 < (l.append x).alloc := by
  rcases hl with ⟨hvalid, hpos⟩
  unfold PyList.Valid at hvalid ⊢
  unfold PyList.append
  rw [List.length_append, List.length_singleton]
  dsimp only
  split
  · constructor
    · omega
    · omega
  · constructor
    · omega
    · omega

theorem valid_appendedTo {l : PyList} (hl : l.Valid ∧ 0 < l.alloc) (xs : List Str8) :
    (∀ m ∈ appendedTo l xs, m.Valid ∧ 0 < m.alloc) ∧ (xs.foldl PyList.append l).Valid := by
  induction xs generalizing l with
  | nil => exact ⟨by simp [appendedTo], hl.1⟩
  | cons x xs ih =>
      rcases ih (valid_append hl x) with ⟨hrest, hafter⟩
      refine ⟨?_, hafter⟩
      rw [appendedTo, List.forall_mem_cons]
      exact ⟨hl, hrest⟩

theorem items_emptied (l : PyList) (argc : Nat) : (emptied l argc).items = [] := by
  unfold emptied
  split
  · rfl
  · rename_i h
    exact List.length_eq_zero_iff.mp (by omega)

theorem qstrFromStr_eq_iff (x : Str8) : qstrFromStr x = x ↔ x.length < 256 := by
  rw [qstrFromStr, List.take_eq_self_iff]
  omega

theorem stored_eq_iff (args : List (Option Str16)) : stored args = arguments args ↔ Short args := by
  have hsame : (arguments args).map qstrFromStr = (arguments args).map id ↔
      ∀ x ∈ arguments args, qstrFromStr x = x := List.map_eq_map_iff
  rw [List.map_id] at hsame
  simp only [stored, hsame, qstrFromStr_eq_iff, Short]

theorem stored_eq_nil (args : List (Option Str16)) : stored args = [] ↔ arguments args = [] :=
  List.map_eq_nil_iff

/-- A call is followed unless an argument is too long, or it has arguments and the list has no
slots for them. -/
theorem listed_iff (l : PyList) (args : List (Option Str16)) :
    Listed l args (listAfter l args) ↔
      Short args ∧ (arguments args = [] ∨ 0 < (emptied l args.length).alloc) := by
  have hitems : (listAfter l args).items = stored args := by
    rw [listAfter, items_foldl_append, items_emptied, List.nil_append]
  have hempty : (emptied l args.length).Valid := by
    unfold PyList.Valid
    rw [items_emptied]
    exact Nat.zero_le _
  constructor
  · intro h
    refine ⟨(stored_eq_iff args).mp (hitems.symm.trans h.items), ?_⟩
    rw [← stored_eq_nil]
    cases hargs : stored args with
    | nil => exact .inl rfl
    | cons x xs =>
        -- some argument was stored, and the first store needs a slot
        have hslots := h.slots
        rw [hargs, appendedTo, List.forall_mem_cons] at hslots
        exact .inr hslots.1.2
  · rintro ⟨hshort, hslots⟩
    have hsame : (listAfter l args).items = arguments args :=
      hitems.trans ((stored_eq_iff args).mpr hshort)
    rcases hslots with hargs | hpos
    · rw [← stored_eq_nil] at hargs
      refine ⟨hsame, ?_, ?_⟩
      · rw [listAfter, hargs]
        exact hempty
      · rw [hargs]
        simp [appendedTo]
    · rcases valid_appendedTo ⟨hempty, hpos⟩ (stored args) with ⟨hslots, hvalid⟩
      exact ⟨hsame, hvalid, hslots⟩

/-! ## Sequences of calls -/

/-- The list follows the calls that are not turned down. -/
def Follows : PyList → List (List (Option Str16)) → Prop
  | _, [] => True
  | l, args :: rest => Listed l args (listAfter l args) ∧ Follows (listAfter l args) rest

/-- What will go wrong with a list: it is in use and emptied to no slot, or has none already, and
arguments come; or the calls themselves get there. -/
def Starved (l : PyList) (calls : List (List (Option Str16))) : Prop :=
  (l.items ≠ [] ∧ ∃ post, calls = [] :: post ∧ ∃ b ∈ post, arguments b ≠ []) ∨
    (l.alloc = 0 ∧ ∃ b ∈ calls, arguments b ≠ []) ∨ Refilled calls

theorem refilled_cons (c : List (Option Str16)) (cs : List (List (Option Str16))) :
    Refilled (c :: cs) ↔
      (arguments c ≠ [] ∧ ∃ post, cs = [] :: post ∧ ∃ b ∈ post, arguments b ≠ []) ∨
        Refilled cs := by
  constructor
  · rintro ⟨pre, a, post, hcalls, ha, hpost⟩
    cases pre with
    | nil =>
        rw [List.nil_append, List.cons.injEq] at hcalls
        rcases hcalls with ⟨rfl, rfl⟩
        exact .inl ⟨ha, post, rfl, hpost⟩
    | cons p pre =>
        rw [List.cons_append, List.cons.injEq] at hcalls
        exact .inr ⟨pre, a, post, hcalls.2, ha, hpost⟩
  · rintro (⟨hc, post, rfl, hpost⟩ | ⟨pre, a, post, rfl, ha, hpost⟩)
    · exact ⟨[], c, post, rfl, hc, hpost⟩
    · exact ⟨c :: pre, a, post, rfl, ha, hpost⟩

/-- A call with arguments: the list needs slots for them, and is in use behind it. -/
theorem starved_cons_args {l : PyList} (hl : l.Valid) {c : List (Option Str16)}
    (hc : arguments c ≠ []) (hshort : Short c) (cs : List (List (Option Str16))) :
    ¬ Starved l (c :: cs) ↔
      0 < (emptied l c.length).alloc ∧
        (Listed l c (listAfter l c) → ¬ Starved (listAfter l c) cs) := by
  have hne : c ≠ [] := by
    rintro rfl
    exact hc rfl
  -- an array of at least one entry is as good as the slots that were there
  have hpos : 0 < (emptied l c.length).alloc ↔ l.alloc ≠ 0 := by
    have hlen := List.length_pos_iff.mpr hne
    unfold PyList.Valid at hl
    unfold emptied
    split
    · dsimp only
      omega
    · omega
  have hstarved : Starved l (c :: cs) ↔ l.alloc = 0 ∨ Refilled (c :: cs) := by
    unfold Starved
    simp [hne, hc]
  have hafter : Listed l c (listAfter l c) → (Starved (listAfter l c) cs ↔ Refilled (c :: cs)) := by
    intro hlisted
    have halloc : (listAfter l c).alloc ≠ 0 := by
      have hvalid := hlisted.valid
      unfold PyList.Valid at hvalid
      rw [hlisted.items] at hvalid
      have hlen := List.length_pos_iff.mpr hc
      omega
    rw [refilled_cons]
    unfold Starved
    rw [hlisted.items]
    simp [hc, halloc]
  rw [hpos, hstarved, not_or]
  refine and_congr_right fun halloc => ?_
  have hlisted : Listed l c (listAfter l c) :=
    (listed_iff l c).mpr ⟨hshort, .inr (hpos.mpr halloc)⟩
  constructor
  · intro h _
    rwa [hafter hlisted]
  · intro h
    rw [← hafter hlisted]
    exact h hlisted

/-- A call without arguments only empties the list. -/
theorem starved_cons_nil {l : PyList} (hl : l.Valid) {c : List (Option Str16)}
    (hc : arguments c = []) (cs : List (List (Option Str16))) :
    Starved l (c :: cs) ↔ Starved (listAfter l c) cs := by
  have hafter : listAfter l c = emptied l c.length := by
    rw [listAfter, (stored_eq_nil c).mpr hc]
    rfl
  have hcalls : (∃ b ∈ c :: cs, arguments b ≠ []) ↔ ∃ b ∈ cs, arguments b ≠ [] := by
    simp [hc]
  have hrefilled : Refilled (c :: cs) ↔ Refilled cs := by
    rw [refilled_cons]
    simp [hc]
  rw [hafter]
  unfold Starved
  rw [items_emptied, hcalls, hrefilled]
  by_cases hitems : l.items = []
  · have hsame : emptied l c.length = l := by
      rw [emptied, hitems]
      rfl
    rw [hsame]
    simp [hitems]
  · have hlen := List.length_pos_iff.mpr hitems
    have halloc : (emptied l c.length).alloc = c.length := by
      rw [emptied, if_pos hlen]
    have hinuse : l.alloc ≠ 0 := by
      unfold PyList.Valid at hl
      omega
    rw [halloc, List.length_eq_zero_iff]
    -- the list is in use, so what counts is whether the call has an array of no entries
    constructor
    · rintro (⟨-, post, hcs, hpost⟩ | ⟨h, -⟩ | h)
      · cases hcs
        exact .inr (.inl ⟨rfl, hpost⟩)
      · exact absurd h hinuse
      · exact .inr (.inr h)
    · rintro (⟨h, -⟩ | ⟨rfl, hpost⟩ | h)
      · exact absurd rfl h
      · exact .inl ⟨hitems, cs, rfl, hpost⟩
      · exact .inr (.inr h)

theorem short_of_nil {args : List (Option Str16)} (hargs : arguments args = []) : Short args := by
  rw [Short, hargs]
  exact List.forall_mem_nil _

theorem follows_iff {l : PyList} (hl : l.Valid) (calls : List (List (Option Str16))) :
    Follows l calls ↔ (∀ args ∈ calls, Short args) ∧ ¬ Starved l calls := by
  -- the list is valid behind each call that it follows
  induction calls generalizing l with
  | nil =>
      have hnone : ¬ Refilled [] := by
        rintro ⟨pre, a, post, h, -⟩
        simp at h
      simp [Follows, Starved, hnone]
  | cons c cs ih =>
      rw [Follows, List.forall_mem_cons]
      by_cases hc : arguments c = []
      · have hshort := short_of_nil hc
        have hlisted := (listed_iff l c).mpr ⟨hshort, .inl hc⟩
        rw [starved_cons_nil hl hc, and_iff_right hlisted, and_iff_right hshort]
        exact ih hlisted.valid
      · by_cases hshort : Short c
        · have hslots := (listed_iff l c).trans ((and_iff_right hshort).trans (or_iff_right hc))
          rw [starved_cons_args hl hc hshort, ← hslots, and_iff_right hshort, and_left_comm]
          refine and_congr_right fun hlisted => ?_
          rw [ih hlisted.valid, imp_iff_right hlisted]
        · -- cut to its length modulo 256, the argument is another one
          constructor
          · rintro ⟨hlisted, -⟩
            exact absurd ((listed_iff l c).mp hlisted).1 hshort
          · rintro ⟨⟨hall, -⟩, -⟩
            exact absurd hall hshort

/-! ## The entry point -/

/-- One call, in a module that is initialised. -/
theorem step_setArgs {s : Sys} (hfault : s.fault = none)
    (hproto : s.data.scriptEngineProtocol ≠ none) (c : SetArgs) :
    ∃ s' evs, step s c.label = some (s', evs) ∧ s'.fault = none ∧
      s'.data.scriptEngineProtocol ≠ none ∧
      s'.sysArgv = c.accepted.elim s.sysArgv (listAfter s.sysArgv) := by
  have hstep : step s c.label = some (upySetArgs s c.this c.argv c.env) := if_pos hfault
  refine ⟨(upySetArgs s c.this c.argv c.env).1, (upySetArgs s c.this c.argv c.env).2, hstep, ?_⟩
  unfold upySetArgs SetArgs.accepted initOnFirstUse
  cases c.argv with
  | none => simp [hfault, hproto]
  | some args =>
      by_cases hthis : c.this = none
      · simp [hthis, hfault, hproto]
      · simp only [if_neg hthis, if_neg hproto]
        refine ⟨hfault, hproto, ?_⟩
        show _ = (stored args).foldl PyList.append (emptied s.sysArgv args.length)
        rw [stored, arguments, List.foldl_map, List.foldl_map]
        rfl

theorem argvFollows_iff_follows {s : Sys} (hfault : s.fault = none)
    (hproto : s.data.scriptEngineProtocol ≠ none) (calls : List SetArgs) :
    ArgvFollows s calls ↔ Follows s.sysArgv (calls.filterMap SetArgs.accepted) := by
  induction calls generalizing s with
  | nil => exact Iff.rfl
  | cons c cs ih =>
      rcases step_setArgs hfault hproto c with ⟨s', evs, hstep, hfault', hproto', hargv⟩
      have hrest := ih hfault' hproto'
      rw [ArgvFollows, List.filterMap_cons]
      cases hc : c.accepted with
      | none =>
          -- a call that is turned down leaves the list as it is
          rw [hc, Option.elim_none] at hargv
          rw [← hargv, ← hrest]
          constructor
          · rintro ⟨t, evs', ht, -, hfollows⟩
            rw [hstep] at ht
            cases ht
            exact hfollows
          · intro hfollows
            exact ⟨s', evs, hstep, (fun _ h => nomatch h), hfollows⟩
      | some args =>
          rw [hc, Option.elim_some] at hargv
          rw [Follows, ← hargv, ← hrest]
          constructor
          · rintro ⟨t, evs', ht, hlisted, hfollows⟩
            rw [hstep] at ht
            cases ht
            exact ⟨hlisted args rfl, hfollows⟩
          · rintro ⟨hlisted, hfollows⟩
            refine ⟨s', evs, hstep, ?_, hfollows⟩
            rintro _ ⟨⟩
            exact hlisted

/-- `sys.argv` follows the calls exactly when no argument has 256 or more bytes, and no call with an
argument comes after one with an empty array that comes right after another one with an argument. -/
theorem argv_follows_iff (dirs : List Str8) (calls : List SetArgs) :
    ArgvFollows (initial dirs) calls ↔
      (∀ args ∈ calls.filterMap SetArgs.accepted, Short args) ∧
        ¬ Refilled (calls.filterMap SetArgs.accepted) := by
  have hproto : (initial dirs).data.scriptEngineProtocol ≠ none := by
    simp [initial, useInit, upyInit]
  rw [argvFollows_iff_follows rfl hproto, follows_iff (Nat.zero_le _)]
  simp [Starved, initial, useInit, upyInit, PyList.init]

/-- An argument, none, and an argument again: it is stored in a list without slots. -/
theorem emptied_argv_does_not_grow :
    ¬ ∀ (dirs : List Str8) (calls : List SetArgs), ArgvFollows (initial dirs) calls := by
  intro h
  have hcalls := h [] [⟨some 1, some [some [0x61]], ⟨true, []⟩⟩, ⟨some 1, some [], ⟨true, []⟩⟩,
    ⟨some 1, some [some [0x62]], ⟨true, []⟩⟩]
  have hproto : (initial []).data.scriptEngineProtocol ≠ none := by
    simp [initial, useInit, upyInit]
  rw [argvFollows_iff_follows rfl hproto, follows_iff (Nat.zero_le _)] at hcalls
  refine hcalls.2 (.inr (.inr ⟨[], [some [0x61]], [[some [0x62]]], rfl, ?_, _, .head _, ?_⟩))
  · simp [arguments]
  · simp [arguments]

end EfiLvgl.Executor
