import EfiLvgl.Lib.CString
import EfiLvgl.Efi.Status

/-!
# EfiLvgl.App.CommandLine — the option string of the loader

`MicroPython.c` splits the option string of its image into `Argv`. Pointers into
strings are modelled by the memory from there on (`EfiLvgl.Lib.CString`), so that
`NextDelim - *Walker` is an offset and `TempParameter` keeps the cells that an
earlier parameter left behind its terminator. `LoadOptionsSize` is a `UINT32`, so
the `UINT32` counters of `FindFirstCharacter` do not wrap.
-/

namespace EfiLvgl.App

open EfiLvgl.CString

/-- `L' '`. -/
def space : Char16 := ch ' '
/-- `L'\t'`. -/
def tab : Char16 := ch '\t'
/-- `L'\"'`. -/
def quote : Char16 := ch '"'
/-- `L'^'`. -/
def caret : Char16 := ch '^'
/-- `CHAR_NULL`. -/
def charNull : Char16 := 0

/-! ## Finding the end of a parameter -/

/-- `FindFirstCharacter`: the offset of the first character from the list. The
escape character and the character after it are skipped; when the escape
character is the last one the walk has left the string and its end is returned. -/
def findFirstCharacter (characterList : List Char16) (escapeCharacter : Char16) :
    List Char16 → Nat
  | [] => 0
  | c :: str =>
      if c = charNull then 0
      else if c = escapeCharacter then
        match str with
        -- the escape character was the last one: the walk stands behind it
        | [] => 1
        | d :: str' =>
            if d = charNull then 1
            else findFirstCharacter characterList escapeCharacter str' + 2
      else if c ∈ characterList then 0
      else findFirstCharacter characterList escapeCharacter str + 1

/-- The cell at a pointer; the memory past the end of the list is never read. -/
def deref (str : List Char16) : Char16 := str.headD charNull

/-- `FindEndOfParameter`, as an offset; `NULL` when a quote is not closed. -/
def findEndOfParameter (str : List Char16) : Option Nat :=
  let first := findFirstCharacter [space, quote] caret str
  if deref (str.drop first) = charNull then some first
  else if deref (str.drop first) = space then some first
  else
    -- a quote: look for the closing one, then for the end behind it
    let str' := str.drop (first + 1)
    let closeQuote := findFirstCharacter [quote] caret str'
    if h : deref (str'.drop closeQuote) = charNull then none
    else
      (findEndOfParameter (str'.drop (closeQuote + 1))).map (first + 1 + closeQuote + 1 + ·)
termination_by str.length
decreasing_by
  have hne : str'.drop closeQuote ≠ [] := fun h' => h (by simp [h', deref])
  have hlt : closeQuote < str'.length := by
    by_contra hge
    exact hne (List.drop_eq_nil_of_le (by omega))
  simp only [str', List.length_drop] at hlt ⊢
  omega

theorem strLen_cons {c : Char16} (hc : c ≠ charNull) (str : List Char16) :
    strLen (c :: str) = strLen str + 1 := by
  simp [strLen, cstr_cons (α := Char16) hc]

/-- The walk does not leave the string. -/
theorem findFirstCharacter_le_strLen (characterList : List Char16) (escapeCharacter : Char16)
    (str : List Char16) :
    findFirstCharacter characterList escapeCharacter str ≤ strLen str := by
  fun_induction findFirstCharacter characterList escapeCharacter str with
  | case1 => simp
  | case2 => simp
  | case3 hc => rw [strLen_cons hc]; omega
  | case4 str' hc => rw [strLen_cons hc]; omega
  | case5 d str' hd hc ih => rw [strLen_cons hc, strLen_cons hd]; omega
  | case6 => simp
  | case7 c str hc _ _ ih => rw [strLen_cons hc]; omega

/-! ## Taking one parameter -/

/-- The next quote or caret in `TempParameter`, from a position on. -/
def nextDelimFrom (tempParameter : List Char16) (pos : Nat) : Nat :=
  pos + findFirstCharacter [quote, caret] charNull (tempParameter.drop pos)

theorem strLen_drop_nextDelimFrom_le (tempParameter : List Char16) (pos : Nat) :
    strLen (tempParameter.drop (nextDelimFrom tempParameter pos)) ≤
      strLen (tempParameter.drop pos) := by
  rw [nextDelimFrom, ← List.drop_drop]
  exact strLen_drop_le (findFirstCharacter_le_strLen _ _ _)

theorem drop_eq_cons_of_deref_ne {mem : List Char16} {n : Nat}
    (h : deref (mem.drop n) ≠ charNull) :
    ∃ c v, c ≠ charNull ∧ mem.drop n = c :: v := by
  cases hd : mem.drop n with
  | nil => simp [hd, deref] at h
  | cons c v => exact ⟨c, v, by simpa [hd, deref] using h, rfl⟩

theorem strLen_shifted_lt {mem : List Char16} {n k : Nat} (h : deref (mem.drop n) ≠ charNull)
    (hk : k ≤ 1) :
    strLen ((copyMem mem n (n + 1) (strSize (mem.drop (n + 1)))).drop (n + k)) <
      strLen (mem.drop n) := by
  obtain ⟨c, v, hc, hv⟩ := drop_eq_cons_of_deref_ne h
  have hlen : (mem.take n).length = n := by
    have hpos : 0 < (mem.drop n).length := by simp [hv]
    rw [List.length_drop] at hpos
    rw [List.length_take]
    omega
  have hmem : mem = mem.take n ++ c :: v := by rw [← hv, List.take_append_drop]
  have hnext : mem.drop (n + 1) = v := by rw [← List.drop_drop, hv]; rfl
  have hlt := strLen_delete_lt (mem.take n) hc v hk
  rw [← hmem, hlen] at hlt
  rw [hnext, hv]
  exact hlt

/-- The loop of `GetNextParameter` that removes unescaped quotes and escape
characters in place. After an escape character is removed the pointer moves over
the character it made literal; when it was the last one, over the terminator. -/
def removeDelims (stripQuotation : Bool) (tempParameter : List Char16) (nextDelim : Nat) :
    List Char16 :=
  if h : deref (tempParameter.drop nextDelim) = charNull then tempParameter
  else
    let shifted := copyMem tempParameter nextDelim (nextDelim + 1)
      (strSize (tempParameter.drop (nextDelim + 1)))
    if deref (tempParameter.drop nextDelim) = caret then
      removeDelims stripQuotation shifted (nextDelimFrom shifted (nextDelim + 1))
    else if stripQuotation then
      removeDelims stripQuotation shifted (nextDelimFrom shifted nextDelim)
    else
      removeDelims stripQuotation tempParameter (nextDelimFrom tempParameter (nextDelim + 1))
termination_by strLen (tempParameter.drop nextDelim)
decreasing_by
  · exact Nat.lt_of_le_of_lt (strLen_drop_nextDelimFrom_le _ _) (strLen_shifted_lt h (Nat.le_refl 1))
  · exact Nat.lt_of_le_of_lt (strLen_drop_nextDelimFrom_le _ _) (strLen_shifted_lt h (Nat.zero_le 1))
  · refine Nat.lt_of_le_of_lt (strLen_drop_nextDelimFrom_le _ _) ?_
    obtain ⟨c, v, hc, hv⟩ := drop_eq_cons_of_deref_ne h
    rw [← List.drop_drop, hv, strLen_cons hc]
    simp

/-- `StrnCpyS`: at most `length` characters and a terminator; a destination that is
too small is left as it is. -/
def strnCpyS (destination : List Char16) (destMax : Nat) (source : List Char16) (length : Nat) :
    List Char16 :=
  let n := min (strLen source) length
  if destMax ≤ n then destination
  else source.take n ++ charNull :: destination.drop (n + 1)

/-- `while ((*Walker)[0] == L' ') (*Walker)++`. -/
def skipSpaces : List Char16 → List Char16
  | [] => []
  | c :: str => if c = space then skipSpaces str else c :: str

/-- What `GetNextParameter` returns and leaves in its two in/out parameters. -/
structure NextParameter where
  status : EfiStatus
  walker : Option (List Char16)
  tempParameter : List Char16

/-- `GetNextParameter`; `debugCode` says whether `DEBUG_CODE` is compiled in. -/
def getNextParameter (debugCode : Bool) (walker : Option (List Char16))
    (tempParameter : List Char16) (length : Nat) (stripQuotation : Bool) : NextParameter :=
  match walker with
  | none => ⟨.invalidParameter, none, tempParameter⟩
  | some start =>
      let str := skipSpaces start
      let failed := if debugCode then none else some str
      if strLen str = 0 then ⟨.invalidParameter, failed, tempParameter⟩
      else
        match findEndOfParameter str with
        | none => ⟨.notFound, failed, tempParameter⟩
        | some n =>
            -- `Length` is in bytes; the terminator is written once more behind the copy
            let copied := strnCpyS tempParameter (length / 2) str n
            let temp := if deref (str.drop n) ≠ charNull then copied.set n charNull else copied
            ⟨.success, some (str.drop n),
              removeDelims stripQuotation temp (nextDelimFrom temp 0)⟩

theorem deref_skipSpaces_ne (str : List Char16) : deref (skipSpaces str) ≠ space := by
  induction str with
  | nil => decide
  | cons c str ih =>
      by_cases hc : c = space
      · simpa [skipSpaces, hc] using ih
      · simp [skipSpaces, hc, deref]

theorem length_skipSpaces_le (str : List Char16) : (skipSpaces str).length ≤ str.length := by
  induction str with
  | nil => simp [skipSpaces]
  | cons c str ih =>
      by_cases hc : c = space
      · simp only [skipSpaces, hc, if_true, List.length_cons]
        omega
      · simp [skipSpaces, hc]

theorem deref_ne_charNull_of_strLen {str : List Char16} (h : strLen str ≠ 0) :
    deref str ≠ charNull := by
  cases str with
  | nil => simp [strLen] at h
  | cons c str =>
      rintro hc
      simp only [deref, List.headD_cons] at hc
      subst hc
      exact h (by simp [strLen, charNull])

/-- A parameter that does not begin with a space has a character. -/
theorem findEndOfParameter_pos {str : List Char16} {n : Nat} (hnull : deref str ≠ charNull)
    (hspace : deref str ≠ space) (h : findEndOfParameter str = some n) : 0 < n := by
  rw [findEndOfParameter] at h
  by_cases hfirst : findFirstCharacter [space, quote] caret str = 0
  · simp only [hfirst, List.drop_zero, if_neg hnull, if_neg hspace] at h
    split at h
    · cases h
    · obtain ⟨k, -, hk⟩ := Option.map_eq_some_iff.mp h
      omega
  · simp only at h
    split at h
    · cases h; omega
    · split at h
      · cases h; omega
      · split at h
        · cases h
        · obtain ⟨k, -, hk⟩ := Option.map_eq_some_iff.mp h
          omega

/-- A parameter taken moves `*Walker` on. -/
theorem getNextParameter_advances {debugCode : Bool} {walker : Option (List Char16)}
    {tempParameter : List Char16} {length : Nat} {stripQuotation : Bool}
    (h : (getNextParameter debugCode walker tempParameter length stripQuotation).status.isError =
      false) :
    ((getNextParameter debugCode walker tempParameter length stripQuotation).walker.getD []).length <
      (walker.getD []).length := by
  cases walker with
  | none => simp [getNextParameter, EfiStatus.isError] at h
  | some start =>
      by_cases hlen : strLen (skipSpaces start) = 0
      · simp [getNextParameter, hlen, EfiStatus.isError] at h
      · cases hend : findEndOfParameter (skipSpaces start) with
        | none => simp [getNextParameter, hlen, hend, EfiStatus.isError] at h
        | some n =>
            have hpos := findEndOfParameter_pos (deref_ne_charNull_of_strLen hlen)
              (deref_skipSpaces_ne start) hend
            have hle := length_skipSpaces_le start
            have hlen' : 0 < (skipSpaces start).length :=
              Nat.lt_of_lt_of_le (Nat.pos_of_ne_zero hlen) (strLen_le_length _)
            simp only [getNextParameter, hlen, if_false, hend, Option.getD_some, List.length_drop]
            omega

/-! ## Trimming -/

/-- A space or a tab. -/
def isBlank (c : Char16) : Bool := c = space || c = tab

theorem isBlank_charNull : isBlank charNull = false := by decide

/-- The copy of the first loop takes off the first character. -/
theorem copyMem_trim {c : Char16} (hc : c ≠ charNull) (v : List Char16) :
    copyMem (c :: v) 0 1 (strSize (c :: v) - 1) = copyMem (c :: v) 0 1 (strSize v) := by
  rw [strSize, strLen_cons hc, strSize, Nat.add_sub_cancel]

/-- The first loop of `TrimSpaces`. -/
def trimLeading (str : List Char16) : List Char16 :=
  if h : isBlank (deref str) then trimLeading (copyMem str 0 1 (strSize str - 1))
  else str
termination_by strLen str
decreasing_by
  cases str with
  | nil => simp [deref, isBlank_charNull] at h
  | cons c v =>
      have hc : c ≠ charNull := by
        rintro rfl
        simp [deref, isBlank_charNull] at h
      have hlt := strLen_delete_lt [] hc v (Nat.zero_le 1)
      rw [copyMem_trim hc]
      simpa using hlt

/-- The second loop of `TrimSpaces`. -/
def trimTrailing (str : List Char16) : List Char16 :=
  if h : 0 < strLen str ∧ isBlank (deref (str.drop (strLen str - 1))) then
    trimTrailing (str.set (strLen str - 1) charNull)
  else str
termination_by strLen str
decreasing_by
  have hset : cstr (str.set (strLen str - 1) charNull) = (cstr str).take (strLen str - 1) :=
    cstr_set_zero (by omega)
  rw [strLen, hset, List.length_take, strLen]
  rw [strLen] at h
  omega

/-- `TrimSpaces`. -/
def trimSpaces (str : List Char16) : List Char16 := trimTrailing (trimLeading str)

/-! ## The two passes -/

/-- The in/out parameters `Argv` and `Argc`: an array of strings and the number of
entries in use. -/
structure Args where
  argv : Option (List (Option (List Char16)))
  argc : Nat

/-- The entries in use. -/
def Args.params (args : Args) : List (Option (List Char16)) := (args.argv.getD []).take args.argc

/-- `Walker != NULL && *Walker != CHAR_NULL`. -/
def walkerDone : Option (List Char16) → Bool
  | none => true
  | some str => deref str = charNull

/-- The first pass: count the parameters up to the end or the first error. It
leaves the last of them in `TempParameter`. -/
def countParameters (debugCode : Bool) (size : Nat) (walker : Option (List Char16))
    (tempParameter : List Char16) (count : Nat) : Nat × List Char16 :=
  if walkerDone walker then (count, tempParameter)
  else
    let next := getNextParameter debugCode walker tempParameter size true
    if h : next.status.isError then (count, next.tempParameter)
    else countParameters debugCode size next.walker next.tempParameter (count + 1)
termination_by (walker.getD []).length
decreasing_by exact getNextParameter_advances (by simpa using h)

/-- The state of the second pass when it ends. -/
structure Stored where
  status : EfiStatus
  argv : List (Option (List Char16))
  argc : Nat

/-- The second pass. `pool k n` says whether the `k`-th pool request, of `n` bytes,
is served; the copy of parameter `argc` is request `argc + 3`. -/
def storeParameters (debugCode : Bool) (pool : Nat → Nat → Bool) (size : Nat)
    (stripQuotation : Bool) (walker : Option (List Char16)) (tempParameter : List Char16)
    (argv : List (Option (List Char16))) (argc : Nat) : Stored :=
  if walkerDone walker then ⟨.success, argv, argc⟩
  else
    -- SetMem16 takes its length in bytes
    let cleared := List.replicate (size / 2) charNull ++ tempParameter.drop (size / 2)
    let next := getNextParameter debugCode walker cleared size stripQuotation
    if h : next.status.isError then ⟨.invalidParameter, argv, argc⟩
    else if pool (argc + 3) (2 * strSize next.tempParameter) then
      storeParameters debugCode pool size stripQuotation next.walker next.tempParameter
        (argv.set argc (some (cstr next.tempParameter))) (argc + 1)
    else ⟨.outOfResources, argv, argc⟩
termination_by (walker.getD []).length
decreasing_by exact getNextParameter_advances (by simpa using h)

/-- The result of `ParseLoadOptionsToArgs`, with its local `Count` and the number of
entries the second pass has stored (none, when it is not reached). -/
structure Parsed where
  status : EfiStatus
  args : Args
  count : Nat
  stored : Nat

/-- `ParseLoadOptionsToArgs`. -/
def parseLoadOptionsToArgs (debugCode : Bool) (pool : Nat → Nat → Bool)
    (loadOptions : Option (List Char16)) (stripQuotation : Bool) (args : Args) : Parsed :=
  match loadOptions with
  | none => ⟨.success, ⟨none, 0⟩, 0, 0⟩
  | some options =>
      if strLen options = 0 then ⟨.success, ⟨none, 0⟩, 0, 0⟩
      else if pool 0 (2 * strSize options) = false then ⟨.outOfResources, args, 0, 0⟩
      else
        let newLoadOptions := trimSpaces (cstr options ++ [charNull])
        let size := 2 * strSize newLoadOptions
        if pool 1 size = false then ⟨.outOfResources, args, 0, 0⟩
        else
          let tempParameter := List.replicate (size / 2) charNull
          let counted := countParameters debugCode size (some newLoadOptions) tempParameter 0
          let count := counted.1
          -- `*Argv` is already overwritten when its allocation fails, `*Argc` is not
          if pool 2 (8 * count) = false then ⟨.outOfResources, ⟨none, args.argc⟩, count, 0⟩
          else
            let stored := storeParameters debugCode pool size stripQuotation
              (some newLoadOptions) counted.2 (List.replicate count none) 0
            ⟨stored.status, ⟨some stored.argv, stored.argc⟩, count, stored.argc⟩

end EfiLvgl.App
